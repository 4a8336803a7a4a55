import Mathlib.Tactic

/-!
# Reading files

A file that is read from front to back with `fread`, repositioned with `fseek`,
and a program that does so while it updates data of its own.  `Reads` says what
such a program makes of given bytes in front of it; its rules follow the
program, statement by statement.
-/

namespace EventServer.Support

/-- A file and the position in it.  Files are shorter than the largest
offset. -/
structure ByteFile where
  bytes : List UInt8
  pos : ℕ
  deriving DecidableEq, Repr

namespace ByteFile

/-- `fread(buf, 1, n, fp)`: the bytes that it delivers. -/
def fread (f : ByteFile) (n : ℕ) : List UInt8 × ByteFile :=
  let buf := (f.bytes.drop f.pos).take n
  (buf, { f with pos := f.pos + buf.length })

/-- `fseek(fp, offset, SEEK_CUR)`, which fails in front of the file only. -/
def fseek (f : ByteFile) (offset : ℤ) : ℤ × ByteFile :=
  if 0 ≤ f.pos + offset then (0, { f with pos := (f.pos + offset).toNat })
  else (-1, f)

/-- The file with its position between two parts of it. -/
def between (front back : List UInt8) : ByteFile :=
  ⟨front ++ back, front.length⟩

theorem fread_between (front xs rest : List UInt8) :
    (between front (xs ++ rest)).fread xs.length =
      (xs, between (front ++ xs) rest) := by
  simp [between, fread]

theorem fread_between_le (front back : List UInt8) (n : ℕ) :
    (between front back).fread n =
      (back.take n, between (front ++ back.take n) (back.drop n)) := by
  simp [between, fread]

theorem fseek_forward (front xs rest : List UInt8) :
    (between front (xs ++ rest)).fseek xs.length =
      (0, between (front ++ xs) rest) := by
  have hpos : 0 ≤ ((front.length : ℕ) : ℤ) + (xs.length : ℤ) := by positivity
  have hnat : ((front.length : ℤ) + (xs.length : ℤ)).toNat =
      front.length + xs.length := by
    omega
  simp [between, fseek, hpos, hnat]

theorem fseek_backward (front xs rest : List UInt8) :
    (between (front ++ xs) rest).fseek (-xs.length) =
      (0, between front (xs ++ rest)) := by
  simp [between, fseek]

end ByteFile

open ByteFile

/-- A program that reads a file and works on data of type `σ`. -/
abbrev ByteReader (ε σ α : Type) := EStateM ε (ByteFile × σ) α

namespace ByteReader

variable {ε σ α β ι : Type}

def fread (n : ℕ) : ByteReader ε σ (List UInt8) := do
  let (f, d) ← get
  let (buf, f) := f.fread n
  set (f, d)
  return buf

def fseek (offset : ℤ) : ByteReader ε σ ℤ := do
  let (f, d) ← get
  let (result, f) := f.fseek offset
  set (f, d)
  return result

theorem fread_apply (n : ℕ) (f : ByteFile) (d : σ) :
    (fread n : ByteReader ε σ _) (f, d) =
      .ok (f.fread n).1 ((f.fread n).2, d) :=
  rfl

theorem fseek_apply (offset : ℤ) (f : ByteFile) (d : σ) :
    (fseek offset : ByteReader ε σ _) (f, d) =
      .ok (f.fseek offset).1 ((f.fseek offset).2, d) :=
  rfl

theorem bind_of_ok {m : ByteReader ε σ α} {k : α → ByteReader ε σ β}
    {s s' : ByteFile × σ} {a : α} (hm : m s = .ok a s') :
    (m >>= k) s = k a s' := by
  change EStateM.bind m k s = k a s'
  unfold EStateM.bind
  rw [hm]

theorem bind_of_error {m : ByteReader ε σ α} {k : α → ByteReader ε σ β}
    {s s' : ByteFile × σ} {e : ε} (hm : m s = .error e s') :
    (m >>= k) s = .error e s' := by
  change EStateM.bind m k s = .error e s'
  unfold EStateM.bind
  rw [hm]

/-- The data besides the file. -/
def getData : ByteReader ε σ σ := do
  return (← get).2

def modifyData (update : σ → σ) : ByteReader ε σ Unit :=
  modify fun (f, d) => (f, update d)

/-- `for (int i = 0; i < n; ++i)` with the value that the body updates. -/
def loop (body : β → ByteReader ε σ β) : (n : ℕ) → β → ByteReader ε σ β
  | 0, acc => return acc
  | n + 1, acc => do loop body n (← body acc)

/-! ## What a program makes of the bytes in front of it -/

/-- In front of `xs` and then `rest`, with data `d`, the program consumes `xs`,
returns `a` and leaves the data `d'`. -/
def Reads (m : ByteReader ε σ α) (d : σ) (xs rest : List UInt8) (a : α)
    (d' : σ) : Prop :=
  ∀ front, m (between front (xs ++ rest), d) =
    .ok a (between (front ++ xs) rest, d')

/-- In front of `xs`, with data `d`, the program throws `e` and leaves the data
`d'`. -/
def Throws (m : ByteReader ε σ α) (d : σ) (xs : List UInt8) (e : ε)
    (d' : σ) : Prop :=
  ∀ front, ∃ f, m (between front xs, d) = .error e (f, d')

theorem Reads.pure (a : α) (d : σ) (rest : List UInt8) :
    Reads (pure a : ByteReader ε σ α) d [] rest a d := by
  intro front
  rw [List.append_nil]
  rfl

theorem Throws.throw (e : ε) (d : σ) (xs : List UInt8) :
    Throws (throw e : ByteReader ε σ α) d xs e d :=
  fun _ => ⟨_, rfl⟩

theorem Reads.bind {m : ByteReader ε σ α} {k : α → ByteReader ε σ β}
    {d d' d'' : σ} {xs ys rest : List UInt8} {a : α} {b : β}
    (hm : Reads m d xs (ys ++ rest) a d') (hk : Reads (k a) d' ys rest b d'') :
    Reads (m >>= k) d (xs ++ ys) rest b d'' := by
  intro front
  rw [List.append_assoc, bind_of_ok (hm front), hk (front ++ xs),
    List.append_assoc]

/-- A statement that consumes nothing. -/
theorem Reads.bind_nil {m : ByteReader ε σ α} {k : α → ByteReader ε σ β}
    {d d' d'' : σ} {xs rest : List UInt8} {a : α} {b : β}
    (hm : Reads m d [] (xs ++ rest) a d') (hk : Reads (k a) d' xs rest b d'') :
    Reads (m >>= k) d xs rest b d'' :=
  @Reads.bind ε σ α β m k d d' d'' [] xs rest a b hm hk

/-- A last statement that consumes nothing. -/
theorem Reads.bind_last {m : ByteReader ε σ α} {k : α → ByteReader ε σ β}
    {d d' d'' : σ} {xs rest : List UInt8} {a : α} {b : β}
    (hm : Reads m d xs rest a d') (hk : Reads (k a) d' [] rest b d'') :
    Reads (m >>= k) d xs rest b d'' :=
  List.append_nil xs ▸ Reads.bind hm hk

theorem Reads.bind_throws {m : ByteReader ε σ α} {k : α → ByteReader ε σ β}
    {d d' d'' : σ} {xs rest : List UInt8} {a : α} {e : ε}
    (hm : Reads m d xs rest a d') (hk : Throws (k a) d' rest e d'') :
    Throws (m >>= k) d (xs ++ rest) e d'' := by
  intro front
  obtain ⟨f, hf⟩ := hk (front ++ xs)
  exact ⟨f, (bind_of_ok (hm front)).trans hf⟩

theorem Reads.bind_nil_throws {m : ByteReader ε σ α}
    {k : α → ByteReader ε σ β} {d d' d'' : σ} {rest : List UInt8} {a : α}
    {e : ε} (hm : Reads m d [] rest a d') (hk : Throws (k a) d' rest e d'') :
    Throws (m >>= k) d rest e d'' :=
  @Reads.bind_throws ε σ α β m k d d' d'' [] rest a e hm hk

theorem Throws.bind {m : ByteReader ε σ α} {k : α → ByteReader ε σ β}
    {d d' : σ} {xs : List UInt8} {e : ε} (hm : Throws m d xs e d') :
    Throws (m >>= k) d xs e d' := by
  intro front
  obtain ⟨f, hf⟩ := hm front
  exact ⟨f, bind_of_error hf⟩

/-! ## Statements -/

theorem reads_fread {n : ℕ} {xs : List UInt8} (hn : xs.length = n) (d : σ)
    (rest : List UInt8) :
    Reads (fread n : ByteReader ε σ _) d xs rest xs d := by
  intro front
  subst hn
  rw [fread_apply, fread_between]

theorem reads_skip {offset : ℤ} {xs : List UInt8} (hn : offset = xs.length)
    (d : σ) (rest : List UInt8) :
    Reads (fseek offset : ByteReader ε σ _) d xs rest 0 d := by
  intro front
  subst hn
  rw [fseek_apply, fseek_forward]

theorem reads_getData (d : σ) (rest : List UInt8) :
    Reads (getData : ByteReader ε σ σ) d [] rest d d := by
  intro front
  rw [List.append_nil]
  rfl

theorem reads_modifyData (update : σ → σ) (d : σ) (rest : List UInt8) :
    Reads (modifyData update : ByteReader ε σ Unit) d [] rest () (update d) := by
  intro front
  rw [List.append_nil]
  rfl

/-- Going back over the bytes just read, and reading them again. -/
theorem Reads.rewind {m : ByteReader ε σ α} {k : α → ByteReader ε σ β}
    {d d' d'' : σ} {xs ys rest : List UInt8} {a : α} {b : β} {offset : ℤ}
    (hoffset : offset = -xs.length) (hm : Reads m d xs (ys ++ rest) a d')
    (hk : Reads (k a) d' (xs ++ ys) rest b d'') :
    Reads (do let a ← m; let _ ← fseek offset; k a) d (xs ++ ys) rest b
      d'' := by
  intro front
  subst hoffset
  rw [List.append_assoc, bind_of_ok (hm front), bind_of_ok (fseek_apply _ _ _),
    fseek_backward, ← List.append_assoc]
  exact hk front

/-- Going back over the bytes just read, to a statement that throws. -/
theorem Throws.rewind {m : ByteReader ε σ α} {k : α → ByteReader ε σ β}
    {d d' d'' : σ} {xs rest : List UInt8} {a : α} {e : ε} {offset : ℤ}
    (hoffset : offset = -xs.length) (hm : Reads m d xs rest a d')
    (hk : Throws (k a) d' (xs ++ rest) e d'') :
    Throws (do let a ← m; let _ ← fseek offset; k a) d (xs ++ rest) e
      d'' := by
  intro front
  subst hoffset
  rw [bind_of_ok (hm front), bind_of_ok (fseek_apply _ _ _), fseek_backward]
  exact hk front

/-- A loop over items, one for each round.  What it has accumulated depends on
the items read so far. -/
theorem Reads.loop (body : β → ByteReader ε σ β) (enc : ι → List UInt8)
    (items : List ι) (acc : List ι → β) (data : List ι → σ)
    (hbody : ∀ read x later rest, items = read ++ x :: later →
      Reads (body (acc read)) (data read) (enc x) rest (acc (read ++ [x]))
        (data (read ++ [x])))
    (rest : List UInt8) :
    Reads (loop body items.length (acc [])) (data []) (items.flatMap enc) rest
      (acc items) (data items) := by
  suffices hsuffix : ∀ later read, items = read ++ later →
      Reads (ByteReader.loop body later.length (acc read)) (data read)
        (later.flatMap enc) rest (acc items) (data items) from
    hsuffix items [] rfl
  intro later
  induction later with
  | nil =>
      intro read hitems
      rw [List.append_nil] at hitems
      subst hitems
      exact Reads.pure _ _ _
  | cons x later ih =>
      intro read hitems
      refine Reads.bind (hbody read x later _ hitems) ?_
      apply ih
      rw [hitems, List.append_assoc]
      rfl

end ByteReader

end EventServer.Support

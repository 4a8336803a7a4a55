import EventServer.Support.ByteReader

/-!
# Weakest preconditions of byte readers

What must hold of a file and of the data for a program to end well, where it
may also end with an acceptable error.  The rules are equivalences: rewriting
with them computes the exact condition, on files of any contents.
-/

namespace EventServer.Support.ByteReader

open ByteFile

variable {ε σ α β ι : Type}

/-- On the file `f` with the data `d` the program returns a result with `Q`, or
throws an error with `E`. -/
def wp (m : ByteReader ε σ α) (Q : α → ByteFile → σ → Prop) (E : ε → Prop)
    (f : ByteFile) (d : σ) : Prop :=
  match m (f, d) with
  | .ok a (f, d) => Q a f d
  | .error e _ => E e

/-- The `n` bytes of a file from a position on, or those that there are. -/
def segment (bytes : List UInt8) (pos n : ℕ) : List UInt8 :=
  (bytes.drop pos).take n

/-- Where `fseek` moves to. -/
def seekTo (pos : ℕ) (offset : ℤ) : ℕ :=
  if 0 ≤ pos + offset then (pos + offset).toNat else pos

theorem fseek_eq (bytes : List UInt8) (pos : ℕ) (offset : ℤ) :
    ((⟨bytes, pos⟩ : ByteFile).fseek offset).2 =
      ⟨bytes, seekTo pos offset⟩ := by
  unfold ByteFile.fseek seekTo
  split
  · rfl
  · rfl

theorem segment_length (bytes : List UInt8) (pos n : ℕ) :
    (segment bytes pos n).length = min n (bytes.length - pos) := by
  rw [segment, List.length_take, List.length_drop]

section Rules

variable {Q : α → ByteFile → σ → Prop} {E : ε → Prop} {f : ByteFile} {d : σ}

theorem wp_congr {m : ByteReader ε σ α} {Q' : α → ByteFile → σ → Prop}
    (h : ∀ a f d, Q a f d ↔ Q' a f d) : wp m Q E f d ↔ wp m Q' E f d := by
  unfold wp
  split
  · exact h _ _ _
  · exact Iff.rfl

theorem wp_pure (a : α) : wp (pure a) Q E f d ↔ Q a f d := Iff.rfl

theorem wp_throw (e : ε) : wp (throw e) Q E f d ↔ E e := Iff.rfl

theorem wp_bind {m : ByteReader ε σ β} {k : β → ByteReader ε σ α} :
    wp (m >>= k) Q E f d ↔ wp m (fun b => wp (k b) Q E) E f d := by
  unfold wp
  cases hm : m (f, d) with
  | ok b s => rw [bind_of_ok hm]
  | error e s => rw [bind_of_error hm]

theorem wp_ite {c : Prop} [Decidable c] {m m' : ByteReader ε σ α} :
    wp (if c then m else m') Q E f d ↔
      (c → wp m Q E f d) ∧ (¬ c → wp m' Q E f d) := by
  by_cases hc : c
  · simp [hc]
  · simp [hc]

/-- A condition that `C` makes sure of can be assumed under `C`. -/
theorem imp_iff_imp_of_imp {p P C R : Prop} (hp : C → p)
    (h : p → (P ↔ (C → R))) : (p → P) ↔ (C → R) := by
  constructor
  · intro hP hC
    exact (h (hp hC)).mp (hP (hp hC)) hC
  · intro hR hp'
    exact (h hp').mpr hR

/-- An early return that is harmless, and that `C` excludes. -/
theorem wp_ite_pure {c C R : Prop} [Decidable c] {a : α}
    {m : ByteReader ε σ α} (ha : Q a f d) (hc : C → ¬ c)
    (h : ¬ c → (wp m Q E f d ↔ (C → R))) :
    wp (if c then pure a else m) Q E f d ↔ (C → R) := by
  by_cases hreturn : c
  · rw [if_pos hreturn]
    exact iff_of_true ha (fun hC => absurd hreturn (hc hC))
  · rw [if_neg hreturn]
    exact h hreturn

theorem wp_fread {Q : List UInt8 → ByteFile → σ → Prop} (n : ℕ) :
    wp (fread n) Q E f d ↔ Q (f.fread n).1 (f.fread n).2 d :=
  Iff.rfl

theorem wp_fseek {Q : ℤ → ByteFile → σ → Prop} {bytes : List UInt8} {pos : ℕ}
    (offset : ℤ) :
    wp (fseek offset) Q E ⟨bytes, pos⟩ d ↔
      Q ((⟨bytes, pos⟩ : ByteFile).fseek offset).1 ⟨bytes, seekTo pos offset⟩
        d := by
  rw [← fseek_eq]
  exact Iff.rfl

theorem wp_getData {Q : σ → ByteFile → σ → Prop} :
    wp getData Q E f d ↔ Q d f d :=
  Iff.rfl

theorem wp_modifyData {Q : Unit → ByteFile → σ → Prop} (update : σ → σ) :
    wp (modifyData update) Q E f d ↔ Q () f (update d) :=
  Iff.rfl

end Rules

/-- Reading a fixed number of bytes, where a shorter file is an acceptable
error. -/
theorem wp_fread_exactly {E : ε → Prop} {e : ε} (he : E e) {n : ℕ}
    {k : List UInt8 → ByteReader ε σ α} {Q : α → ByteFile → σ → Prop}
    {bytes : List UInt8} {pos : ℕ} {d : σ} :
    wp (do
        let x ← fread n
        if x.length ≠ n then throw e else k x) Q E ⟨bytes, pos⟩ d ↔
      (n ≤ bytes.length - pos →
        wp (k (segment bytes pos n)) Q E ⟨bytes, pos + n⟩ d) := by
  have hlength := segment_length bytes pos n
  rw [wp_bind, wp_fread]
  change wp (if (segment bytes pos n).length ≠ n then throw e
    else k (segment bytes pos n)) Q E
    ⟨bytes, pos + (segment bytes pos n).length⟩ d ↔ _
  by_cases hleft : n ≤ bytes.length - pos
  · rw [hlength, min_eq_left hleft, if_neg (not_not.mpr rfl)]
    exact ⟨fun h _ => h, fun h => h hleft⟩
  · rw [hlength, if_pos (by omega)]
    exact ⟨fun _ h => absurd h hleft, fun _ => he⟩

/-! ## Loops -/

/-- `n` items of the given size, one behind the other. -/
def itemsAt (item : ℕ → ι) (size : ℕ) : (n pos : ℕ) → List ι
  | 0, _ => []
  | n + 1, pos => item pos :: itemsAt item size n (pos + size)

@[simp] theorem itemsAt_length (item : ℕ → ι) (size n pos : ℕ) :
    (itemsAt item size n pos).length = n := by
  induction n generalizing pos with
  | zero => rfl
  | succ n ih => simp [itemsAt, ih]

/-- A loop that reads an item in each round.  What it has accumulated depends
on the items read so far. -/
theorem wp_loop {E : ε → Prop} {body : β → ByteReader ε σ β} {item : ℕ → ι}
    {size : ℕ} {bytes : List UInt8} (acc : List ι → β) (data : List ι → σ)
    (hbody : ∀ read pos (Q : β → ByteFile → σ → Prop),
      wp (body (acc read)) Q E ⟨bytes, pos⟩ (data read) ↔
        (size ≤ bytes.length - pos →
          Q (acc (read ++ [item pos])) ⟨bytes, pos + size⟩
            (data (read ++ [item pos]))))
    (n : ℕ) (read : List ι) (pos : ℕ) (Q : β → ByteFile → σ → Prop) :
    wp (loop body n (acc read)) Q E ⟨bytes, pos⟩ (data read) ↔
      (n * size ≤ bytes.length - pos →
        Q (acc (read ++ itemsAt item size n pos)) ⟨bytes, pos + n * size⟩
          (data (read ++ itemsAt item size n pos))) := by
  induction n generalizing read pos with
  | zero =>
      rw [loop, wp_pure]
      simp [itemsAt]
  | succ n ih =>
      rw [loop, wp_bind, hbody, ih]
      have hpos : pos + size + n * size = pos + (n + 1) * size := by ring
      have hitems : read ++ [item pos] ++ itemsAt item size n (pos + size) =
          read ++ itemsAt item size (n + 1) pos := by simp [itemsAt]
      have hsize : (n + 1) * size = n * size + size := by ring
      rw [hpos, hitems]
      constructor
      · intro h hleft
        exact h (by omega) (by omega)
      · intro h hfirst hrest
        exact h (by omega)

end EventServer.Support.ByteReader

import Mathlib.Tactic

/-!
# Machine arithmetic, memory and failures

The modelled code is C++.  A function that can fail returns `Except Fault`;
`size_t` values are natural numbers below `2 ^ 64` whose sums and differences
wrap around; the elements of a `std::vector` are a list.
-/

namespace EventServer.Support

/-- The ways in which a modelled function fails to return. -/
inductive Fault where
  /-- A failed `assert`. -/
  | assertion
  /-- `std::length_error`, thrown by a vector asked to exceed `max_size()`. -/
  | lengthError
  /-- An element access outside a vector. -/
  | outOfRange
  /-- Overflow of a signed integer. -/
  | signedOverflow
  /-- A member access through a null pointer. -/
  | nullDereference
  /-- An array of variable length whose length is negative. -/
  | stackArray
  /-- An array of variable length that is larger than the stack. -/
  | stackOverflow
  deriving DecidableEq, Repr

/-- Continue when `p` holds, fail otherwise. -/
def ensure (p : Prop) [Decidable p] (fault : Fault) : Except Fault Unit :=
  if p then .ok () else .error fault

theorem ensure_of {p : Prop} [Decidable p] {fault : Fault} (hp : p) :
    ensure p fault = .ok () := by
  simp [ensure, hp]

theorem ensure_eq_ok_iff {p : Prop} [Decidable p] {fault : Fault} :
    ensure p fault = .ok () ↔ p := by
  by_cases hp : p
  · simp [ensure, hp]
  · simp [ensure, hp]

@[simp] theorem pure_eq_ok {α : Type} (a : α) :
    (pure a : Except Fault α) = .ok a := rfl

@[simp] theorem ok_bind {α β : Type} (a : α) (f : α → Except Fault β) :
    ((.ok a : Except Fault α) >>= f) = f a := rfl

@[simp] theorem error_bind {α β : Type} (fault : Fault)
    (f : α → Except Fault β) :
    ((.error fault : Except Fault α) >>= f) = .error fault := rfl

@[simp] theorem map_ok {α β : Type} (f : α → β) (a : α) :
    f <$> (.ok a : Except Fault α) = .ok (f a) := rfl

theorem bind_eq_ok_iff {α β : Type} {x : Except Fault α}
    {f : α → Except Fault β} {b : β} :
    (x >>= f) = .ok b ↔ ∃ a, x = .ok a ∧ f a = .ok b := by
  cases x with
  | error fault => simp [bind, Except.bind]
  | ok a => simp [bind, Except.bind]

/-! ## Unsigned arithmetic -/

/-- `a + b` on `size_t`. -/
def sizeAdd (a b : ℕ) : ℕ := (a + b) % 2 ^ 64

/-- `a - b` on `size_t`. -/
def sizeSub (a b : ℕ) : ℕ := (a + (2 ^ 64 - b)) % 2 ^ 64

theorem sizeAdd_eq {a b : ℕ} (h : a + b < 2 ^ 64) : sizeAdd a b = a + b :=
  Nat.mod_eq_of_lt h

theorem sizeSub_eq {a b : ℕ} (hle : b ≤ a) (ha : a < 2 ^ 64) :
    sizeSub a b = a - b := by
  unfold sizeSub
  omega

/-! ## Signed arithmetic -/

/-- The `int` that the machine computes for the integer `z`. -/
def wrapInt (z : ℤ) : ℤ := z.bmod (2 ^ 32)

theorem wrapInt_eq {z : ℤ} (hlow : -2 ^ 31 ≤ z) (hhigh : z < 2 ^ 31) :
    wrapInt z = z := by
  apply Int.bmod_eq_of_le
  · omega
  · omega

/-- An unsigned value that is too large becomes negative. -/
theorem wrapInt_of_large {z : ℤ} (hlow : 2 ^ 31 ≤ z) (hhigh : z < 2 ^ 32) :
    wrapInt z = z - 2 ^ 32 := by
  rw [wrapInt, Int.bmod_def]
  omega

/-- The value fits into an `int`. -/
def IsInt (z : ℤ) : Prop := -2 ^ 31 ≤ z ∧ z < 2 ^ 31

/-- The value fits into an `int64_t`. -/
def IsInt64 (z : ℤ) : Prop := -2 ^ 63 ≤ z ∧ z < 2 ^ 63

instance : DecidablePred IsInt :=
  fun z => inferInstanceAs (Decidable (-2 ^ 31 ≤ z ∧ z < 2 ^ 31))

instance : DecidablePred IsInt64 :=
  fun z => inferInstanceAs (Decidable (-2 ^ 63 ≤ z ∧ z < 2 ^ 63))

/-- The result of an operation on `int`. -/
def int (z : ℤ) : Except Fault ℤ :=
  if IsInt z then .ok z else .error .signedOverflow

/-- The result of an operation on `int64_t`. -/
def int64 (z : ℤ) : Except Fault ℤ :=
  if IsInt64 z then .ok z else .error .signedOverflow

theorem int_of {z : ℤ} (hlow : -2 ^ 31 ≤ z) (hhigh : z < 2 ^ 31) :
    int z = .ok z :=
  if_pos ⟨hlow, hhigh⟩

theorem int_bind {α : Type} {z : ℤ} {f : ℤ → Except Fault α}
    (hlow : -2 ^ 31 ≤ z) (hhigh : z < 2 ^ 31) : (int z >>= f) = f z := by
  rw [int_of hlow hhigh, ok_bind]

theorem int64_of {z : ℤ} (hlow : -2 ^ 63 ≤ z) (hhigh : z < 2 ^ 63) :
    int64 z = .ok z :=
  if_pos ⟨hlow, hhigh⟩

theorem int_eq_ok_iff {z r : ℤ} : int z = .ok r ↔ IsInt z ∧ z = r := by
  unfold int
  split
  · simp_all
  · simp_all

theorem int64_eq_ok_iff {z r : ℤ} :
    int64 z = .ok r ↔ IsInt64 z ∧ z = r := by
  unfold int64
  split
  · simp_all
  · simp_all

/-- The only failure of the operation is an overflow. -/
def OnlyOverflows {α : Type} (x : Except Fault α) : Prop :=
  ∀ fault, x = .error fault → fault = .signedOverflow

namespace OnlyOverflows

variable {α β : Type}

theorem ok (a : α) : OnlyOverflows (.ok a) := by
  intro fault h
  nomatch h

theorem bind {x : Except Fault α} {f : α → Except Fault β}
    (hx : OnlyOverflows x) (hf : ∀ a, x = .ok a → OnlyOverflows (f a)) :
    OnlyOverflows (x >>= f) := by
  intro fault h
  cases x with
  | error fault' =>
      obtain rfl : fault' = fault := Except.error.inj h
      exact hx fault' rfl
  | ok a => exact hf a rfl fault h

theorem ite {c : Prop} [Decidable c] {x y : Except Fault α}
    (hx : c → OnlyOverflows x) (hy : ¬ c → OnlyOverflows y) :
    OnlyOverflows (if c then x else y) := by
  by_cases hc : c
  · rw [if_pos hc]
    exact hx hc
  · rw [if_neg hc]
    exact hy hc

theorem ensure {p : Prop} [Decidable p] (hp : p) {fault : Fault} :
    OnlyOverflows (ensure p fault) := by
  rw [ensure_of hp]
  exact ok ()

theorem int (z : ℤ) : OnlyOverflows (int z) :=
  ite (fun _ => ok z) fun _ _ h => (Except.error.inj h).symm

theorem int64 (z : ℤ) : OnlyOverflows (int64 z) :=
  ite (fun _ => ok z) fun _ _ h => (Except.error.inj h).symm

end OnlyOverflows

/-! ## Vectors -/

/-- `v[i]`, and the members `front()` and `back()` for the indices of their
elements. -/
def vectorAt {α : Type} (v : List α) (i : ℤ) : Except Fault α :=
  match if 0 ≤ i then v[i.toNat]? else none with
  | some x => .ok x
  | none => .error .outOfRange

theorem vectorAt_natCast {α : Type} {v : List α} {i : ℕ} {x : α}
    (h : v[i]? = some x) : vectorAt v i = .ok x := by
  simp [vectorAt, h]

theorem vectorAt_eq_ok {α : Type} {v : List α} {i : ℤ} {x : α}
    (h : vectorAt v i = .ok x) : v[i.toNat]? = some x := by
  unfold vectorAt at h
  split at h
  · rename_i y hy
    cases h
    split at hy
    · exact hy
    · cases hy
  · cases h

/-- An element inside the vector. -/
theorem exists_vectorAt {α : Type} {v : List α} {i : ℤ} (hi : 0 ≤ i)
    (hlt : i < v.length) : ∃ x ∈ v, vectorAt v i = .ok x := by
  obtain ⟨n, rfl⟩ := Int.eq_ofNat_of_zero_le hi
  have hn : n < v.length := by omega
  exact ⟨v[n], List.getElem_mem hn,
    vectorAt_natCast (List.getElem?_eq_getElem hn)⟩

theorem vectorAt_natCast_eq {α : Type} (v : List α) (i : ℕ) :
    vectorAt v i = match v[i]? with
      | some x => .ok x
      | none => .error .outOfRange := by
  cases hi : v[i]? with
  | some x => exact vectorAt_natCast hi
  | none => simp [vectorAt, hi]

/-! ## Vectors of bytes -/

/-- `std::vector<char>::max_size()`. -/
def vectorMaxSize : ℕ := 2 ^ 63 - 1

/-- `std::vector::resize`; new elements are zero. -/
def vectorResize (v : List UInt8) (n : ℕ) : Except Fault (List UInt8) :=
  if n ≤ vectorMaxSize
  then .ok (v.take n ++ List.replicate (n - v.length) 0)
  else .error .lengthError

/-- `std::copy` of `xs` to the elements of `v` from index `i` on. -/
def overwrite (v : List UInt8) (i : ℕ) (xs : List UInt8) : List UInt8 :=
  v.take i ++ xs ++ v.drop (i + xs.length)

theorem vectorResize_of_le {v : List UInt8} {n : ℕ} (hle : v.length ≤ n)
    (hn : n ≤ vectorMaxSize) :
    vectorResize v n = .ok (v ++ List.replicate (n - v.length) 0) := by
  simp [vectorResize, hn, List.take_of_length_le hle]

/-- Overwriting the first elements of the part of `v` that follows `front`. -/
theorem overwrite_append (front old rest xs : List UInt8)
    (hlen : xs.length = old.length) :
    overwrite (front ++ (old ++ rest)) front.length xs =
      front ++ (xs ++ rest) := by
  simp [overwrite, hlen, List.drop_append, List.append_assoc]

end EventServer.Support

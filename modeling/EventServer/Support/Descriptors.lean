import Mathlib.Tactic

/-!
# The descriptors of a component

The table of open descriptors of a process, from the point of view of one
component: which numbers it has to close itself, which ones it has passed on,
and which ones belong to other threads.  A number that has been closed may be
given out again; a serial number tells the descriptors of one number apart.
-/

namespace EventServer.Support

/-- Who has to close an open descriptor. -/
inductive Owner where
  /-- The component. -/
  | self
  /-- Whoever the component has passed the descriptor to. -/
  | receiver
  | other (thread : ℕ)
  deriving DecidableEq, Repr

structure Descriptor where
  serial : ℕ
  owner : Owner
  deriving DecidableEq, Repr

/-- The answer of the kernel to a call that returns a descriptor. -/
inductive Answer where
  | descriptor (n : ℕ)
  | failed
  deriving DecidableEq, Repr

/-- The open descriptors, with the histories of the component by serial number:
the connections that it has accepted, what it has passed on, and what it has
closed.  `closes` has the number of each call of `close`, and the owner of the
descriptor at that moment. -/
structure Descriptors where
  entry : ℕ → Option Descriptor
  next : ℕ
  accepted : List ℕ
  passed : List ℕ
  closed : List ℕ
  closes : List (ℤ × Option Owner)

namespace Descriptors

/-- The component has to close the descriptor with this number. -/
def Owns (d : Descriptors) (n : ℕ) : Prop :=
  ∃ x, d.entry n = some x ∧ x.owner = .self

/-- The component has to close the descriptor with this serial number. -/
def Live (d : Descriptors) (serial : ℕ) : Prop :=
  ∃ n x, d.entry n = some x ∧ x.owner = .self ∧ x.serial = serial

/-! ## Calls -/

/-- A new descriptor with the number `n`. -/
def insert (d : Descriptors) (n : ℕ) (owner : Owner) : Descriptors :=
  { d with
    entry := Function.update d.entry n (some ⟨d.next, owner⟩)
    next := d.next + 1 }

/-- A call of the component that returns a descriptor, or `-1`.  The kernel
returns no number that is in use. -/
def obtain (d : Descriptors) (answer : Answer) : Option (Descriptors × ℤ) :=
  match answer with
  | .descriptor n =>
      if d.entry n = none then some (d.insert n .self, n) else none
  | .failed => some (d, -1)

/-- A call of `accept`. -/
def accept (d : Descriptors) (answer : Answer) : Option (Descriptors × ℤ) :=
  match answer with
  | .descriptor n =>
      if d.entry n = none
      then some ({ d.insert n .self with accepted := d.accepted ++ [d.next] }, n)
      else none
  | .failed => some (d, -1)

/-- A call of `close` by the component.  It fails on a number that is not in
use, and succeeds on any other one, whoever owns the descriptor. -/
def close (d : Descriptors) (fd : ℤ) : Descriptors :=
  match if 0 ≤ fd then d.entry fd.toNat else none with
  | none => { d with closes := d.closes ++ [(fd, none)] }
  | some x =>
      { d with
        entry := Function.update d.entry fd.toNat none
        closed := d.closed ++ [x.serial]
        closes := d.closes ++ [(fd, some x.owner)] }

/-- The component hands a descriptor to its receiver. -/
def pass (d : Descriptors) (fd : ℤ) : Descriptors :=
  match if 0 ≤ fd then d.entry fd.toNat else none with
  | none => d
  | some x =>
      { d with
        entry := Function.update d.entry fd.toNat (some ⟨x.serial, .receiver⟩)
        passed := d.passed ++ [x.serial] }

/-- Another thread opens a descriptor. -/
def otherOpen (d : Descriptors) (thread n : ℕ) : Option Descriptors :=
  if d.entry n = none then some (d.insert n (.other thread)) else none

/-- Another thread, or the receiver, closes a descriptor of its own. -/
def otherClose (d : Descriptors) (n : ℕ) : Option Descriptors :=
  match d.entry n with
  | none => none
  | some x =>
      if x.owner = .self then none
      else some { d with entry := Function.update d.entry n none }

/-! ## The invariant -/

/-- An accepted connection has been passed on or closed once and is no longer
owned, or neither and it is. -/
def Settled (d : Descriptors) (serial : ℕ) : Prop :=
  (d.passed.count serial + d.closed.count serial = 1 ∧ ¬ d.Live serial) ∨
    (d.passed.count serial + d.closed.count serial = 0 ∧ d.Live serial)

/-- The component owns exactly the numbers in `held`, apart from `-1`, and no
accepted connection among them but those in `inHand`. -/
structure Holds (d : Descriptors) (held inHand : List ℤ) : Prop where
  serial_lt : ∀ n x, d.entry n = some x → x.serial < d.next
  serial_inj : ∀ n m x y, d.entry n = some x → d.entry m = some y →
    x.serial = y.serial → n = m
  owns_iff : ∀ n : ℕ, d.Owns n ↔ (n : ℤ) ∈ held
  range : ∀ fd ∈ held, 0 ≤ fd ∨ fd = -1
  distinct : held.Pairwise fun a b => a = b → a = -1
  accepted_lt : ∀ serial ∈ d.accepted, serial < d.next
  passed_lt : ∀ serial ∈ d.passed, serial < d.next
  closed_lt : ∀ serial ∈ d.closed, serial < d.next
  settled : ∀ serial ∈ d.accepted, d.Settled serial
  mem_inHand : ∀ n x, d.entry n = some x → x.owner = .self →
    x.serial ∈ d.accepted → (n : ℤ) ∈ inHand
  closes_owned : ∀ call ∈ d.closes, call.1 = -1 ∨ call.2 = some .self

section Insert

variable {d : Descriptors} {n : ℕ} {owner : Owner}

@[simp] theorem insert_entry_self :
    (d.insert n owner).entry n = some ⟨d.next, owner⟩ := by
  simp [insert]

theorem insert_entry_of_ne {m : ℕ} (hne : m ≠ n) :
    (d.insert n owner).entry m = d.entry m := by
  simp [insert, hne]

theorem insert_entry_cases {m : ℕ} {x : Descriptor}
    (h : (d.insert n owner).entry m = some x) :
    (m = n ∧ x = ⟨d.next, owner⟩) ∨ (m ≠ n ∧ d.entry m = some x) := by
  by_cases hm : m = n
  · rw [hm, insert_entry_self] at h
    exact Or.inl ⟨hm, (Option.some.inj h).symm⟩
  · rw [insert_entry_of_ne hm] at h
    exact Or.inr ⟨hm, h⟩

theorem Holds.insert_serial_inj {held inHand : List ℤ}
    (h : d.Holds held inHand) :
    ∀ m m' x y, (d.insert n owner).entry m = some x →
      (d.insert n owner).entry m' = some y → x.serial = y.serial →
      m = m' := by
  intro m m' x y hx hy hserial
  rcases insert_entry_cases hx with ⟨hm, rfl⟩ | ⟨hm, hx⟩
  · rcases insert_entry_cases hy with ⟨hm', rfl⟩ | ⟨hm', hy⟩
    · exact hm.trans hm'.symm
    · have := h.serial_lt m' y hy
      simp only at hserial
      omega
  · rcases insert_entry_cases hy with ⟨hm', rfl⟩ | ⟨hm', hy⟩
    · have := h.serial_lt m x hx
      simp only at hserial
      omega
    · exact h.serial_inj m m' x y hx hy hserial

theorem Holds.insert_serial_lt {held inHand : List ℤ}
    (h : d.Holds held inHand) :
    ∀ m x, (d.insert n owner).entry m = some x →
      x.serial < (d.insert n owner).next := by
  intro m x hx
  have hnext : (d.insert n owner).next = d.next + 1 := rfl
  rcases insert_entry_cases hx with ⟨-, rfl⟩ | ⟨-, hx⟩
  · rw [hnext]
    exact Nat.lt_succ_self _
  · have := h.serial_lt m x hx
    omega

/-- A serial number that was given out before is owned exactly if it was
before. -/
theorem live_insert_iff (hfree : d.entry n = none) {serial : ℕ}
    (hserial : serial < d.next) :
    (d.insert n owner).Live serial ↔ d.Live serial := by
  constructor
  · rintro ⟨m, x, hx, howner, rfl⟩
    rcases insert_entry_cases hx with ⟨-, rfl⟩ | ⟨-, hx⟩
    · exact absurd hserial (lt_irrefl _)
    · exact ⟨m, x, hx, howner, rfl⟩
  · rintro ⟨m, x, hx, howner, rfl⟩
    have hm : m ≠ n := by
      rintro rfl
      rw [hfree] at hx
      cases hx
    exact ⟨m, x, (insert_entry_of_ne hm).trans hx, howner, rfl⟩

end Insert

section Preservation

variable {d : Descriptors} {held inHand : List ℤ}

/-! ## Calls that return a descriptor -/

theorem Holds.append_failed (h : d.Holds held inHand) :
    d.Holds (held ++ [-1]) inHand where
  serial_lt := h.serial_lt
  serial_inj := h.serial_inj
  owns_iff := by
    intro n
    have hne : (n : ℤ) ≠ -1 := by omega
    rw [h.owns_iff, List.mem_append, List.mem_singleton, or_iff_left hne]
  range := by
    intro fd hfd
    rcases List.mem_append.mp hfd with hfd | hfd
    · exact h.range fd hfd
    · exact Or.inr (List.mem_singleton.mp hfd)
  distinct := by
    rw [List.pairwise_append]
    refine ⟨h.distinct, List.pairwise_singleton _ _, ?_⟩
    intro a _ b hb hab
    rw [hab]
    exact List.mem_singleton.mp hb
  accepted_lt := h.accepted_lt
  passed_lt := h.passed_lt
  closed_lt := h.closed_lt
  settled := h.settled
  mem_inHand := h.mem_inHand
  closes_owned := h.closes_owned

theorem Holds.not_mem_of_free (h : d.Holds held inHand) {n : ℕ}
    (hfree : d.entry n = none) : (n : ℤ) ∉ held := by
  intro hmem
  obtain ⟨x, hx, -⟩ := (h.owns_iff n).mpr hmem
  rw [hfree] at hx
  cases hx

theorem Holds.settled_insert (h : d.Holds held inHand) {n : ℕ}
    (hfree : d.entry n = none) (owner : Owner) :
    ∀ serial ∈ d.accepted, (d.insert n owner).Settled serial := by
  intro serial hserial
  have hlt := h.accepted_lt serial hserial
  have hsettled := h.settled serial hserial
  unfold Settled at *
  rw [live_insert_iff hfree hlt]
  exact hsettled

theorem Holds.insert_self (h : d.Holds held inHand) {n : ℕ}
    (hfree : d.entry n = none) :
    (d.insert n .self).Holds (held ++ [(n : ℤ)]) inHand where
  serial_lt := h.insert_serial_lt
  serial_inj := h.insert_serial_inj
  owns_iff := by
    intro m
    rw [List.mem_append, List.mem_singleton, ← h.owns_iff]
    by_cases hm : m = n
    · subst hm
      simp [Owns]
    · have hcast : (m : ℤ) ≠ n := by exact_mod_cast hm
      simp [Owns, insert_entry_of_ne hm, hcast]
  range := by
    intro fd hfd
    rcases List.mem_append.mp hfd with hfd | hfd
    · exact h.range fd hfd
    · rw [List.mem_singleton.mp hfd]
      exact Or.inl (Int.natCast_nonneg n)
  distinct := by
    rw [List.pairwise_append]
    refine ⟨h.distinct, List.pairwise_singleton _ _, ?_⟩
    intro a ha b hb hab
    rw [hab, List.mem_singleton.mp hb] at ha
    exact absurd ha (h.not_mem_of_free hfree)
  accepted_lt := fun serial hs => Nat.lt_succ_of_lt (h.accepted_lt serial hs)
  passed_lt := fun serial hs => Nat.lt_succ_of_lt (h.passed_lt serial hs)
  closed_lt := fun serial hs => Nat.lt_succ_of_lt (h.closed_lt serial hs)
  settled := h.settled_insert hfree .self
  mem_inHand := by
    intro m x hx howner haccepted
    rcases insert_entry_cases hx with ⟨-, rfl⟩ | ⟨-, hx⟩
    · exact absurd (h.accepted_lt _ haccepted) (lt_irrefl _)
    · exact h.mem_inHand m x hx howner haccepted
  closes_owned := h.closes_owned

theorem Holds.obtain (h : d.Holds held inHand) {answer : Answer}
    {d' : Descriptors} {fd : ℤ} (hstep : d.obtain answer = some (d', fd)) :
    d'.Holds (held ++ [fd]) inHand := by
  cases answer with
  | failed =>
      cases hstep
      exact h.append_failed
  | descriptor n =>
      simp only [Descriptors.obtain] at hstep
      split at hstep
      · cases hstep
        exact h.insert_self ‹_›
      · cases hstep

theorem Holds.accept (h : d.Holds held []) {answer : Answer}
    {d' : Descriptors} {fd : ℤ} (hstep : d.accept answer = some (d', fd)) :
    d'.Holds (held ++ [fd]) [fd] := by
  cases answer with
  | failed =>
      cases hstep
      refine { h.append_failed with mem_inHand := ?_ }
      intro m x hx howner haccepted
      exact absurd (h.mem_inHand m x hx howner haccepted) List.not_mem_nil
  | descriptor n =>
      simp only [Descriptors.accept] at hstep
      split at hstep
      · rename_i hfree
        cases hstep
        have hnew := h.insert_self hfree
        have hcount : ∀ serials : List ℕ, (∀ serial ∈ serials, serial < d.next) →
            serials.count d.next = 0 := by
          intro serials hlt
          rw [List.count_eq_zero]
          exact fun hmem => lt_irrefl _ (hlt _ hmem)
        refine { hnew with accepted_lt := ?_, settled := ?_, mem_inHand := ?_ }
        · intro serial hserial
          rcases List.mem_append.mp hserial with hserial | hserial
          · exact hnew.accepted_lt serial hserial
          · rw [List.mem_singleton.mp hserial]
            exact Nat.lt_succ_self _
        · intro serial hserial
          rcases List.mem_append.mp hserial with hserial | hserial
          · exact hnew.settled serial hserial
          · rw [List.mem_singleton.mp hserial]
            refine Or.inr ⟨?_, n, ⟨d.next, .self⟩, insert_entry_self, rfl, rfl⟩
            have hpassed := hcount d.passed h.passed_lt
            have hclosed := hcount d.closed h.closed_lt
            simp only [Descriptors.insert]
            omega
        · intro m x hx howner haccepted
          rcases insert_entry_cases hx with ⟨rfl, -⟩ | ⟨-, hx⟩
          · exact List.mem_singleton_self _
          · rcases List.mem_append.mp haccepted with haccepted | haccepted
            · exact absurd (h.mem_inHand m x hx howner haccepted)
                List.not_mem_nil
            · have hlt := h.serial_lt m x hx
              rw [List.mem_singleton.mp haccepted] at hlt
              exact absurd hlt (lt_irrefl _)
      · cases hstep

/-! ## Calls that give a descriptor up -/

/-- From `d` to `d'` the component gives up the descriptor `x` with the number
`n`.  What is left of it belongs to somebody else. -/
structure GivesUp (d d' : Descriptors) (n : ℕ) (x : Descriptor) : Prop where
  entry_eq : d.entry n = some x
  owner_eq : x.owner = .self
  left_eq : ∀ y, d'.entry n = some y →
    y.serial = x.serial ∧ y.owner ≠ .self
  frame : ∀ m, m ≠ n → d'.entry m = d.entry m
  next_eq : d'.next = d.next
  accepted_eq : d'.accepted = d.accepted
  count_eq : ∀ serial, d'.passed.count serial + d'.closed.count serial =
    d.passed.count serial + d.closed.count serial +
      if serial = x.serial then 1 else 0

namespace GivesUp

variable {d' : Descriptors} {n : ℕ} {x : Descriptor}

theorem entry_cases (h : GivesUp d d' n x) {m : ℕ} {y : Descriptor}
    (hy : d'.entry m = some y) :
    (m = n ∧ y.serial = x.serial) ∨ (m ≠ n ∧ d.entry m = some y) := by
  by_cases hm : m = n
  · subst hm
    exact Or.inl ⟨rfl, (h.left_eq y hy).1⟩
  · rw [h.frame m hm] at hy
    exact Or.inr ⟨hm, hy⟩

/-- What is owned afterwards has another number, and was owned before. -/
theorem owned_before (h : GivesUp d d' n x) {m : ℕ} {y : Descriptor}
    (hy : d'.entry m = some y) (hself : y.owner = .self) :
    m ≠ n ∧ d.entry m = some y := by
  have hm : m ≠ n := by
    rintro rfl
    exact (h.left_eq y hy).2 hself
  exact ⟨hm, (h.frame m hm).symm.trans hy⟩

theorem serial_lt (h : GivesUp d d' n x) (hd : d.Holds held inHand) :
    ∀ m y, d'.entry m = some y → y.serial < d'.next := by
  intro m y hy
  rw [h.next_eq]
  rcases h.entry_cases hy with ⟨-, hserial⟩ | ⟨-, hy⟩
  · rw [hserial]
    exact hd.serial_lt n x h.entry_eq
  · exact hd.serial_lt m y hy

theorem serial_inj (h : GivesUp d d' n x) (hd : d.Holds held inHand) :
    ∀ m m' y y', d'.entry m = some y → d'.entry m' = some y' →
      y.serial = y'.serial → m = m' := by
  intro m m' y y' hy hy' hserial
  rcases h.entry_cases hy with ⟨hm, hx⟩ | ⟨-, hkept⟩
  · rcases h.entry_cases hy' with ⟨hm', -⟩ | ⟨-, hkept'⟩
    · exact hm.trans hm'.symm
    · rw [hx] at hserial
      exact hm.trans (hd.serial_inj _ _ x y' h.entry_eq hkept' hserial)
  · rcases h.entry_cases hy' with ⟨hm', hx⟩ | ⟨-, hkept'⟩
    · rw [hx] at hserial
      exact (hd.serial_inj _ _ y x hkept h.entry_eq hserial).trans hm'.symm
    · exact hd.serial_inj _ _ y y' hkept hkept' hserial

theorem live_iff (h : GivesUp d d' n x) (hd : d.Holds held inHand)
    (serial : ℕ) : d'.Live serial ↔ d.Live serial ∧ serial ≠ x.serial := by
  constructor
  · rintro ⟨m, y, hy, hself, rfl⟩
    obtain ⟨hm, hy⟩ := h.owned_before hy hself
    refine ⟨⟨m, y, hy, hself, rfl⟩, fun hserial => ?_⟩
    exact hm (hd.serial_inj m n y x hy h.entry_eq hserial)
  · rintro ⟨⟨m, y, hy, hself, rfl⟩, hserial⟩
    have hm : m ≠ n := by
      rintro rfl
      obtain rfl := Option.some.inj (hy.symm.trans h.entry_eq)
      exact hserial rfl
    exact ⟨m, y, (h.frame m hm).trans hy, hself, rfl⟩

/-- A serial number in the histories was given out before. -/
theorem count_lt (h : GivesUp d d' n x) (hd : d.Holds held inHand)
    {serial : ℕ}
    (hpos : 0 < d'.passed.count serial + d'.closed.count serial) :
    serial < d'.next := by
  rw [h.count_eq] at hpos
  rw [h.next_eq]
  by_cases hserial : serial = x.serial
  · rw [hserial]
    exact hd.serial_lt n x h.entry_eq
  · rw [if_neg hserial, Nat.add_zero] at hpos
    rcases Nat.add_pos_iff_pos_or_pos.mp hpos with hpassed | hclosed
    · exact hd.passed_lt serial (List.count_pos_iff.mp hpassed)
    · exact hd.closed_lt serial (List.count_pos_iff.mp hclosed)

theorem settled (h : GivesUp d d' n x) (hd : d.Holds held inHand) :
    ∀ serial ∈ d'.accepted, d'.Settled serial := by
  intro serial hserial
  rw [h.accepted_eq] at hserial
  have hsettled := hd.settled serial hserial
  unfold Settled at *
  rw [h.count_eq, h.live_iff hd]
  by_cases hself : serial = x.serial
  · have hlive : d.Live serial :=
      ⟨n, x, h.entry_eq, h.owner_eq, hself.symm⟩
    rcases hsettled with ⟨-, hnot⟩ | ⟨hzero, -⟩
    · exact absurd hlive hnot
    · refine Or.inl ⟨?_, fun hafter => hafter.2 hself⟩
      rw [hzero, if_pos hself]
  · rw [if_neg hself, Nat.add_zero, and_iff_left hself]
    exact hsettled

theorem owns_iff (h : GivesUp d d' n x)
    (hd : d.Holds (held ++ [(n : ℤ)]) inHand) (m : ℕ) :
    d'.Owns m ↔ (m : ℤ) ∈ held := by
  constructor
  · rintro ⟨y, hy, hself⟩
    obtain ⟨hm, hy⟩ := h.owned_before hy hself
    have hne : (m : ℤ) ≠ n := by exact_mod_cast hm
    have hmem := (hd.owns_iff m).mp ⟨y, hy, hself⟩
    rwa [List.mem_append, List.mem_singleton, or_iff_left hne] at hmem
  · intro hmem
    have hm : m ≠ n := by
      rintro rfl
      have hpair := (List.pairwise_append.mp hd.distinct).2.2 _ hmem _
        (List.mem_singleton_self _) rfl
      omega
    obtain ⟨y, hy, hself⟩ :=
      (hd.owns_iff m).mpr (List.mem_append_left _ hmem)
    exact ⟨y, (h.frame m hm).trans hy, hself⟩

end GivesUp

/-- Giving up the last of the owned numbers, when every accepted connection in
hand has that number. -/
theorem Holds.give_up {n : ℕ} (hd : d.Holds (held ++ [(n : ℤ)]) inHand)
    (hinHand : ∀ fd ∈ inHand, fd = n) {d' : Descriptors} {x : Descriptor}
    (h : GivesUp d d' n x)
    (hcloses : ∀ call ∈ d'.closes, call.1 = -1 ∨ call.2 = some .self) :
    d'.Holds held [] where
  serial_lt := h.serial_lt hd
  serial_inj := h.serial_inj hd
  owns_iff := h.owns_iff hd
  range := fun fd hfd => hd.range fd (List.mem_append_left _ hfd)
  distinct := (List.pairwise_append.mp hd.distinct).1
  accepted_lt := by
    rw [h.accepted_eq, h.next_eq]
    exact hd.accepted_lt
  passed_lt := fun _ hmem =>
    h.count_lt hd (Nat.add_pos_left (List.count_pos_iff.mpr hmem) _)
  closed_lt := fun _ hmem =>
    h.count_lt hd (Nat.add_pos_right _ (List.count_pos_iff.mpr hmem))
  settled := h.settled hd
  mem_inHand := by
    intro m y hy hself hmem
    obtain ⟨hm, hy⟩ := h.owned_before hy hself
    rw [h.accepted_eq] at hmem
    have hcast := hinHand _ (hd.mem_inHand m y hy hself hmem)
    exact absurd (by exact_mod_cast hcast) hm
  closes_owned := hcloses

theorem Holds.mem_append_self {n : ℕ}
    (h : d.Holds (held ++ [(n : ℤ)]) inHand) :
    ∃ x, d.entry n = some x ∧ x.owner = .self :=
  (h.owns_iff n).mpr (List.mem_append_right _ (List.mem_singleton_self _))

/-- Closing `-1` has no effect but the failed call. -/
theorem Holds.close_failed (h : d.Holds (held ++ [-1]) inHand)
    (hinHand : ∀ fd ∈ inHand, fd = -1) : (d.close (-1)).Holds held [] := by
  have hclose : d.close (-1) =
      { d with closes := d.closes ++ [(-1, none)] } := by
    simp [Descriptors.close]
  rw [hclose]
  refine
    { serial_lt := h.serial_lt
      serial_inj := h.serial_inj
      owns_iff := ?_
      range := fun fd hfd => h.range fd (List.mem_append_left _ hfd)
      distinct := (List.pairwise_append.mp h.distinct).1
      accepted_lt := h.accepted_lt
      passed_lt := h.passed_lt
      closed_lt := h.closed_lt
      settled := h.settled
      mem_inHand := ?_
      closes_owned := ?_ }
  · intro m
    have hne : (m : ℤ) ≠ -1 := by omega
    have howns := h.owns_iff m
    rw [List.mem_append, List.mem_singleton, or_iff_left hne] at howns
    exact howns
  · intro m y hy hself hmem
    have := hinHand _ (h.mem_inHand m y hy hself hmem)
    omega
  · intro call hcall
    rcases List.mem_append.mp hcall with hcall | hcall
    · exact h.closes_owned call hcall
    · rw [List.mem_singleton.mp hcall]
      exact Or.inl rfl

/-- The last of the owned numbers, or `-1`, is closed. -/
theorem Holds.close {fd : ℤ} (h : d.Holds (held ++ [fd]) inHand)
    (hinHand : ∀ fd' ∈ inHand, fd' = fd) : (d.close fd).Holds held [] := by
  rcases h.range fd (by simp) with hfd | rfl
  swap
  · exact h.close_failed hinHand
  obtain ⟨n, rfl⟩ := Int.eq_ofNat_of_zero_le hfd
  obtain ⟨x, hx, howner⟩ := h.mem_append_self
  have hclose : d.close n =
      { d with
        entry := Function.update d.entry n none
        closed := d.closed ++ [x.serial]
        closes := d.closes ++ [((n : ℤ), some .self)] } := by
    simp [Descriptors.close, hx, howner]
  have hgives : GivesUp d (d.close n) n x := by
    rw [hclose]
    refine ⟨hx, howner, ?_, fun m hm => Function.update_of_ne hm _ _, rfl,
      rfl, ?_⟩
    · intro y hy
      simp only [Function.update_self] at hy
      cases hy
    · intro serial
      simp only [List.count_append, List.count_singleton, beq_iff_eq,
        eq_comm (a := serial), Nat.add_assoc]
  refine h.give_up hinHand hgives ?_
  intro call hcall
  rw [hclose] at hcall
  rcases List.mem_append.mp hcall with hcall | hcall
  · exact h.closes_owned call hcall
  · rw [List.mem_singleton.mp hcall]
    exact Or.inr rfl

/-- The last of the owned numbers is passed on. -/
theorem Holds.pass {fd : ℤ} (h : d.Holds (held ++ [fd]) inHand)
    (hinHand : ∀ fd' ∈ inHand, fd' = fd) (hfd : 0 ≤ fd) :
    (d.pass fd).Holds held [] := by
  obtain ⟨n, rfl⟩ := Int.eq_ofNat_of_zero_le hfd
  obtain ⟨x, hx, howner⟩ := h.mem_append_self
  have hpass : d.pass n =
      { d with
        entry := Function.update d.entry n (some ⟨x.serial, .receiver⟩)
        passed := d.passed ++ [x.serial] } := by
    simp [Descriptors.pass, hx]
  have hgives : GivesUp d (d.pass n) n x := by
    rw [hpass]
    refine ⟨hx, howner, ?_, fun m hm => Function.update_of_ne hm _ _, rfl,
      rfl, ?_⟩
    · intro y hy
      simp only [Function.update_self] at hy
      obtain rfl := Option.some.inj hy
      exact ⟨rfl, Owner.noConfusion⟩
    · intro serial
      simp only [List.count_append, List.count_singleton, beq_iff_eq,
        eq_comm (a := serial), Nat.add_right_comm]
  refine h.give_up hinHand hgives ?_
  rw [hpass]
  exact h.closes_owned

/-! ## Other threads -/

theorem Holds.otherOpen (h : d.Holds held inHand) {thread n : ℕ}
    {d' : Descriptors} (hstep : d.otherOpen thread n = some d') :
    d'.Holds held inHand := by
  unfold Descriptors.otherOpen at hstep
  split at hstep
  · rename_i hfree
    cases hstep
    refine ⟨h.insert_serial_lt, h.insert_serial_inj, ?_, h.range, h.distinct,
      fun serial hs => Nat.lt_succ_of_lt (h.accepted_lt serial hs),
      fun serial hs => Nat.lt_succ_of_lt (h.passed_lt serial hs),
      fun serial hs => Nat.lt_succ_of_lt (h.closed_lt serial hs),
      h.settled_insert hfree _, ?_, h.closes_owned⟩
    · intro m
      rw [← h.owns_iff]
      by_cases hm : m = n
      · subst hm
        simp [Owns, hfree]
      · simp [Owns, insert_entry_of_ne hm]
    · intro m x hx howner haccepted
      rcases insert_entry_cases hx with ⟨-, rfl⟩ | ⟨-, hx⟩
      · cases howner
      · exact h.mem_inHand m x hx howner haccepted
  · cases hstep

theorem Holds.otherClose (h : d.Holds held inHand) {n : ℕ}
    {d' : Descriptors} (hstep : d.otherClose n = some d') :
    d'.Holds held inHand := by
  unfold Descriptors.otherClose at hstep
  split at hstep
  · cases hstep
  · rename_i x hx
    split at hstep
    · cases hstep
    · rename_i howner
      cases hstep
      have hkept : ∀ m y, Function.update d.entry n none m = some y →
          d.entry m = some y := by
        intro m y hy
        by_cases hm : m = n
        · subst hm
          rw [Function.update_self] at hy
          cases hy
        · rw [Function.update_of_ne hm] at hy
          exact hy
      have howned : ∀ m y, d.entry m = some y → y.owner = .self →
          Function.update d.entry n none m = some y := by
        intro m y hy hself
        have hm : m ≠ n := by
          rintro rfl
          rw [hx] at hy
          exact howner (Option.some.inj hy ▸ hself)
        rw [Function.update_of_ne hm, hy]
      refine ⟨fun m y hy => h.serial_lt m y (hkept m y hy),
        fun m m' y y' hy hy' => h.serial_inj m m' y y' (hkept m y hy)
          (hkept m' y' hy'),
        ?_, h.range, h.distinct, h.accepted_lt, h.passed_lt, h.closed_lt,
        ?_, fun m y hy => h.mem_inHand m y (hkept m y hy), h.closes_owned⟩
      · intro m
        rw [← h.owns_iff]
        exact ⟨fun ⟨y, hy, hself⟩ => ⟨y, hkept m y hy, hself⟩,
          fun ⟨y, hy, hself⟩ => ⟨y, howned m y hy hself, hself⟩⟩
      · intro serial hserial
        have hsettled := h.settled serial hserial
        have hlive : Live
            { d with entry := Function.update d.entry n none } serial ↔
            d.Live serial :=
          ⟨fun ⟨m, y, hy, hself⟩ => ⟨m, y, hkept m y hy, hself⟩,
            fun ⟨m, y, hy, hself, hs⟩ =>
              ⟨m, y, howned m y hy hself, hself, hs⟩⟩
        unfold Settled at *
        rw [hlive]
        exact hsettled

end Preservation

/-- A failed `accept` changes nothing. -/
theorem accept_of_neg {d d' : Descriptors} {answer : Answer} {fd : ℤ}
    (h : d.accept answer = some (d', fd)) (hfd : fd < 0) : d' = d := by
  cases answer with
  | failed =>
      cases h
      rfl
  | descriptor n =>
      simp only [accept] at h
      split at h
      · cases h
        omega
      · cases h

/-- The process before the component exists. -/
def initial : Descriptors where
  entry := fun _ => none
  next := 0
  accepted := []
  passed := []
  closed := []
  closes := []

theorem initial_holds : initial.Holds [] [] := by
  constructor <;> simp [initial, Owns]

end Descriptors

end EventServer.Support

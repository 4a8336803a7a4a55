import EventServer.Common.LatchLinearizability
import EventServer.Thread.ThreadObject

/-!
# The hand-over of a started thread

`start` returns only when the new thread has stored its id and has left the
latch for good.  From this it follows that the object is never used behind its
destruction, that nothing is freed twice, and that `start` always returns.
-/

namespace EventServer.Thread

open EventServer.Support EventServer.Common

/-- The new thread is behind the latch. -/
def ChildLine.past : ChildLine → Bool
  | .func | .deleteData | .ended => true
  | .writeTid | .callLatch | .inLatch => false

/-- How far the new thread is. -/
inductive Phase where
  | absent
  | alive
  | ended
  deriving DecidableEq, Repr

instance : Fintype Phase where
  elems := {.absent, .alive, .ended}
  complete := fun phase => by cases phase <;> simp

/-- What the members, the handle and the heap look like while the owner is at
the line. -/
def OwnerLine.books (line : OwnerLine) (started joined : Bool) (handle : Handle)
    (data : Bool) (phase : Phase) : Bool :=
  let unused := !started && !joined && handle == .none && phase == .absent
  let running := started && phase != .absent && data == (phase == .alive)
  match line with
  | .idle | .detach =>
      (unused && !data) || (running && !joined && handle == .joinable) ||
        (running && joined && handle == .joined && phase == .ended)
  | .members | .gone =>
      (unused && !data) || (running && !joined && handle == .detached) ||
        (running && joined && handle == .joined && phase == .ended)
  | .allocate =>
      started && !joined && handle == .none && phase == .absent && !data
  | .create | .undo =>
      started && !joined && handle == .none && phase == .absent && data
  | .deleteData => unused && data
  | .callLatch | .inLatch | .assertTid =>
      running && !joined && handle == .joinable
  | .joining => running && joined && handle == .joinable

/-! The statements of the owner, and the end of the new thread, in the table. -/

namespace OwnerLine

theorem books_start : ∀ joined handle data phase,
    books .idle false joined handle data phase = true →
      books .allocate true joined handle data phase = true := by decide

theorem books_join : ∀ handle data phase,
    books .idle true false handle data phase = true →
      books .joining true true handle data phase = true := by decide

theorem books_allocate : ∀ started joined handle data phase,
    books .allocate started joined handle data phase = true →
      books .create started joined handle true phase = true := by decide

theorem books_undo : ∀ started joined handle data phase,
    books .undo started joined handle data phase = true →
      books .deleteData false joined handle data phase = true := by decide

theorem books_deleteData : ∀ started joined handle data phase,
    books .deleteData started joined handle data phase = true →
      started = false ∧ data = true ∧
        books .idle started joined handle false phase = true := by decide

theorem books_create : ∀ started joined handle data phase,
    books .create started joined handle data phase = true →
      phase = .absent ∧
        books .callLatch started joined .joinable data .alive = true := by
  decide

theorem books_assertTid : ∀ started joined handle data phase,
    books .assertTid started joined handle data phase = true →
      books .idle started joined handle data phase = true := by decide

theorem books_join_end : ∀ started joined handle data,
    books .joining started joined handle data .ended = true →
      handle = .joinable ∧ started = true ∧
        books .idle started joined .joined data .ended = true := by decide

theorem books_detach : ∀ handle data phase,
    books .detach true false handle data phase = true →
      handle = .joinable ∧
        books .members true false .detached data phase = true := by decide

theorem books_members : ∀ started joined handle data phase,
    ¬ (started = true ∧ joined = false) →
      books .detach started joined handle data phase = true →
        books .members started joined handle data phase = true := by decide

theorem books_started : ∀ line started joined handle data phase,
    books line started joined handle data phase = true → phase ≠ .absent →
      line ≠ .idle ∧ line ≠ .detach ∧ line ≠ .members ∧ line ≠ .gone ∨
        started = true := by
  intro line
  cases line <;> decide

theorem books_inLatch : ∀ started joined handle data phase,
    books .inLatch started joined handle data phase = true →
      phase ≠ .absent := by decide

theorem books_gone : ∀ started joined handle data phase,
    books .gone started joined handle data phase = true →
      handle ≠ .joinable ∧ (phase ≠ .alive → data = false) := by decide

theorem books_end : ∀ line started joined handle data,
    books line started joined handle data .alive = true →
      data = true ∧ books line started joined handle false .ended = true := by
  intro line
  cases line <;> decide

end OwnerLine

namespace ThreadObject

/-! ## The latch -/

/-- Where the owner is in the latch. -/
def OwnerAt (s : ThreadObject) : Prop :=
  if s.ownerLine = .inLatch then
    s.latch_.line s.owner = .waitLoop ∨ s.latch_.line s.owner = .unlock none ∨
      s.latch_.line s.owner = .idle
  else s.Returned s.owner

/-- Where the new thread is in the latch. -/
def ChildAt (s : ThreadObject) (c : Child) : Prop :=
  if c.line = .inLatch then
    s.latch_.line c.id = .decrement ∨ s.latch_.line c.id = .test ∨
      s.latch_.line c.id = .notify ∨ s.latch_.line c.id = .unlock none ∨
      s.latch_.line c.id = .idle
  else s.Returned c.id

/-- The new thread has counted down. -/
def Counted (s : ThreadObject) : Prop :=
  ∃ c, s.child = some c ∧ (c.line.past = true ∨
    c.line = .inLatch ∧ s.latch_.line c.id ≠ .decrement)

/-- The new thread has left the latch. -/
def Through (s : ThreadObject) : Prop :=
  ∃ c, s.child = some c ∧ (c.line.past = true ∨
    c.line = .inLatch ∧ s.Returned c.id)

/-- The owner has been let through the latch. -/
def Passed (s : ThreadObject) : Prop :=
  match s.ownerLine with
  | .assertTid | .joining => True
  | .inLatch => s.latch_.line s.owner ≠ .waitLoop
  | .idle | .detach | .members | .gone => s.started_ = true
  | .allocate | .create | .undo | .deleteData | .callLatch => False

/-- The latch is used by these two threads only.  It is open when the new
thread has counted down, and the owner comes through behind it. -/
structure Gate (s : ThreadObject) : Prop where
  sound : s.latch_.Sound
  no_overflow : s.latch_.fault = none
  distinct : ∀ c, s.child = some c → c.id ≠ s.owner
  strangers : ∀ x, x ≠ s.owner → (∀ c, s.child = some c → x ≠ c.id) →
    s.Returned x
  owner : s.OwnerAt
  child : ∀ c, s.child = some c → s.ChildAt c
  count : (s.Counted ∧ s.latch_.count_ = 0) ∨
    ¬ s.Counted ∧ s.latch_.count_ = 1
  passed : s.Passed → s.Through

theorem create_gate (owner : Tid) : (create owner).Gate where
  sound := CountDownLatch.create_sound 1
  no_overflow := rfl
  distinct := fun _ h => by cases h
  strangers := fun _ _ _ => ⟨rfl, rfl⟩
  owner := ⟨rfl, rfl⟩
  child := fun _ h => by cases h
  count := by
    refine Or.inr ⟨?_, rfl⟩
    rintro ⟨c, h, -⟩
    cases h
  passed := fun h => by cases h

section Steps

variable {s s' : ThreadObject} {c : Child} {t : Tid}

theorem Through.counted (h : s.Through) : s.Counted := by
  obtain ⟨c, hc, hpast | ⟨hline, hreturned⟩⟩ := h
  · exact ⟨c, hc, Or.inl hpast⟩
  · refine ⟨c, hc, Or.inr ⟨hline, ?_⟩⟩
    rw [hreturned.1]
    exact nofun

namespace Gate

/-- Outside the latch the owner has returned from it. -/
theorem owner_returned (h : s.Gate) (hline : s.ownerLine ≠ .inLatch) :
    s.Returned s.owner := by
  have howner := h.owner
  rwa [OwnerAt, if_neg hline] at howner

theorem child_returned (h : s.Gate) (hc : s.child = some c)
    (hline : c.line ≠ .inLatch) : s.Returned c.id := by
  have hchild := h.child c hc
  rwa [ChildAt, if_neg hline] at hchild

/-- A step of the owner that is none of the latch. -/
theorem ownerMove (h : s.Gate) (hreturned : s.Returned s.owner)
    (hlatch : s'.latch_ = s.latch_) (howner : s'.owner = s.owner)
    (hchild : s'.child = s.child) (hline : s'.ownerLine ≠ .inLatch)
    (hpassed : s'.Passed → s.Through) : s'.Gate where
  sound := hlatch ▸ h.sound
  no_overflow := hlatch ▸ h.no_overflow
  distinct := by
    rw [hchild, howner]
    exact h.distinct
  strangers := by
    rw [hchild, howner]
    intro x hx hnot
    rw [Returned, hlatch]
    exact h.strangers x hx hnot
  owner := by
    rw [OwnerAt, if_neg hline, Returned, hlatch, howner]
    exact hreturned
  child := by
    rw [hchild]
    intro c hc
    rw [ChildAt, Returned, hlatch]
    exact h.child c hc
  count := by
    rw [Counted, hchild, hlatch]
    exact h.count
  passed := by
    rw [Through, hchild]
    simp only [Returned, hlatch]
    exact hpassed

/-- A step of the new thread that is none of the latch. -/
theorem childMove (h : s.Gate) (hc : s.child = some c) {line : ChildLine}
    (hreturned : s.Returned c.id) (hline : line ≠ .inLatch)
    (hlatch : s'.latch_ = s.latch_) (howner : s'.owner = s.owner)
    (hownerLine : s'.ownerLine = s.ownerLine)
    (hstarted : s'.started_ = s.started_)
    (hchild : s'.child = some ⟨c.id, line⟩)
    (hpast : line.past = true ↔ c.line.past = true ∨ c.line = .inLatch) :
    s'.Gate where
  sound := hlatch ▸ h.sound
  no_overflow := hlatch ▸ h.no_overflow
  distinct := by
    rw [hchild, howner]
    rintro _ ⟨⟩
    exact h.distinct c hc
  strangers := by
    rw [hchild, howner]
    intro x hx hnot
    rw [Returned, hlatch]
    refine h.strangers x hx fun d hd => ?_
    obtain rfl : c = d := Option.some_inj.mp (hc.symm.trans hd)
    exact hnot ⟨c.id, line⟩ rfl
  owner := by
    rw [OwnerAt, Returned, hlatch, howner, hownerLine]
    exact h.owner
  child := by
    rw [hchild]
    rintro _ ⟨⟩
    rw [ChildAt, if_neg hline, Returned, hlatch]
    exact hreturned
  count := by
    have hcounted : s'.Counted ↔ s.Counted := by
      rw [Counted, Counted, hchild, hc, hlatch]
      simp only [Option.some_inj, exists_eq_left', hline, false_and, or_false,
        hpast]
      refine or_congr_right (and_iff_left ?_).symm
      rw [hreturned.1]
      exact nofun
    rw [hcounted, hlatch]
    exact h.count
  passed := by
    rw [Passed, hownerLine, hstarted, hlatch, howner]
    intro hpassed
    obtain ⟨d, hd, hthrough⟩ := h.passed hpassed
    obtain rfl : c = d := Option.some_inj.mp (hc.symm.trans hd)
    exact ⟨_, hchild, Or.inl (hpast.mpr (hthrough.imp id And.left))⟩

/-- A step of the owner in the latch. -/
theorem ownerLatch (h : s.Gate) {a : CountDownLatch.Action}
    (hstep : s.latch_.step (s.owner, a) = some s'.latch_)
    (howner : s'.owner = s.owner) (hchild : s'.child = s.child)
    (hline : s'.ownerLine = .inLatch)
    (hat : s'.latch_.line s.owner = .waitLoop ∨
      s'.latch_.line s.owner = .unlock none ∨ s'.latch_.line s.owner = .idle)
    (hcount : s'.latch_.count_ = s.latch_.count_)
    (hfault : s'.latch_.fault = none)
    (hpassed : s'.latch_.line s.owner ≠ .waitLoop → s.Through) : s'.Gate := by
  have hreturned : ∀ x, x ≠ s.owner → (s'.Returned x ↔ s.Returned x) := by
    intro x hx
    obtain ⟨hl, hp⟩ := CountDownLatch.step_others hstep hx
    rw [Returned, Returned, hl, hp]
  have hlines : ∀ c, s.child = some c →
      s'.latch_.line c.id = s.latch_.line c.id :=
    fun c hc => (CountDownLatch.step_others hstep (h.distinct c hc)).1
  refine ⟨h.sound.step hstep, hfault, ?_, ?_, ?_, ?_, ?_, ?_⟩
  · rw [hchild, howner]
    exact h.distinct
  · rw [hchild, howner]
    exact fun x hx hnot => (hreturned x hx).mpr (h.strangers x hx hnot)
  · rw [OwnerAt, if_pos hline, howner]
    exact hat
  · rw [hchild]
    intro c hc
    rw [ChildAt, hlines c hc, hreturned c.id (h.distinct c hc)]
    exact h.child c hc
  · have hcounted : s'.Counted ↔ s.Counted := by
      rw [Counted, Counted, hchild]
      refine exists_congr fun c => and_congr_right fun hc => ?_
      rw [hlines c hc]
    rw [hcounted, hcount]
    exact h.count
  · rw [Passed, hline, howner]
    intro hpass
    obtain ⟨c, hc, hthrough⟩ := hpassed hpass
    refine ⟨c, hchild.trans hc, hthrough.imp id (And.imp_right ?_)⟩
    exact (hreturned c.id (h.distinct c hc)).mpr

/-- A step of the new thread in the latch. -/
theorem childLatch (h : s.Gate) (hc : s.child = some c)
    {a : CountDownLatch.Action}
    (hstep : s.latch_.step (c.id, a) = some s'.latch_)
    (howner : s'.owner = s.owner) (hline : s'.ownerLine = s.ownerLine)
    (hstarted : s'.started_ = s.started_)
    (hchild : s'.child = some ⟨c.id, .inLatch⟩)
    (hat : s'.ChildAt ⟨c.id, .inLatch⟩)
    (hfault : s'.latch_.fault = none)
    (hcount : if s'.latch_.line c.id = .decrement
      then s'.latch_.count_ = 1 else s'.latch_.count_ = 0)
    (hnot : ¬ s.Through) : s'.Gate := by
  have hne : s.owner ≠ c.id := (h.distinct c hc).symm
  refine ⟨h.sound.step hstep, hfault, ?_, ?_, ?_, ?_, ?_, ?_⟩
  · rw [hchild, howner]
    rintro _ ⟨⟩
    exact h.distinct c hc
  · rw [hchild, howner]
    intro x hx hnot
    have hother : x ≠ c.id := hnot ⟨c.id, .inLatch⟩ rfl
    obtain ⟨hl, hp⟩ := CountDownLatch.step_others hstep hother
    rw [Returned, hl, hp]
    refine h.strangers x hx fun d hd => ?_
    obtain rfl : c = d := Option.some_inj.mp (hc.symm.trans hd)
    exact hother
  · obtain ⟨hl, hp⟩ := CountDownLatch.step_others hstep hne
    rw [OwnerAt, Returned, howner, hline, hl, hp]
    exact h.owner
  · rw [hchild]
    rintro _ ⟨⟩
    exact hat
  · have hcounted : s'.Counted ↔ s'.latch_.line c.id ≠ .decrement := by
      rw [Counted, hchild]
      simp [ChildLine.past]
    rw [hcounted]
    split at hcount
    next hdecrement => exact Or.inr ⟨fun hn => hn hdecrement, hcount⟩
    next hdecrement => exact Or.inl ⟨hdecrement, hcount⟩
  · rw [Passed, hline, hstarted, howner,
      (CountDownLatch.step_others hstep hne).1]
    exact fun hpassed => absurd (h.passed hpassed) hnot

/-- The owner comes through the latch only behind the new thread. -/
theorem through_of_passes (h : s.Gate)
    (hin : s.latch_.mutex_.position s.owner = .inside)
    (hcount : ¬ 0 < s.latch_.count_) : s.Through := by
  rcases h.count with ⟨⟨c, hc, hpast | ⟨hline, hdone⟩⟩, -⟩ | ⟨-, hone⟩
  · exact ⟨c, hc, Or.inl hpast⟩
  · have hat := h.child c hc
    rw [ChildAt, if_pos hline] at hat
    have hother : ¬ (s.latch_.mutex_.position c.id).owns = true := by
      intro howns
      exact h.distinct c hc (h.sound.owned.owns_unique howns
        (MutexLock.owns_of_inside hin))
    have hfits := (h.sound.placed c.id).1
    have hidle : s.latch_.line c.id = .idle := by
      rcases hat with hl | hl | hl | hl | hl
      · exact absurd hl hdone
      all_goals
        rw [hl] at hfits
        first
          | exact hl
          | exact absurd (MutexLock.owns_of_inside hfits) hother
    refine ⟨c, hc, Or.inr ⟨hline, hidle, ?_⟩⟩
    rw [hidle] at hfits
    cases hpos : s.latch_.mutex_.position c.id with
    | outside => rfl
    | unlocking => exact absurd (by rw [hpos]; rfl) hother
    | _ =>
        rw [hpos] at hfits
        cases hfits
  · omega

theorem latchGoOn_cases {a : CountDownLatch.Action}
    (hstep : s.latchGoOn t a = some s') :
    (∀ f, a ≠ .call f) ∧ ∃ latch, s.latch_.step (t, a) = some latch ∧
      s' = { s with latch_ := latch } := by
  cases a with
  | call f => cases hstep
  | proceed a | execute =>
      obtain ⟨latch, hlatch, rfl⟩ := Option.map_eq_some_iff.mp hstep
      exact ⟨nofun, latch, hlatch, rfl⟩

theorem ownerGoOn (h : s.Gate) {a : CountDownLatch.Action}
    (hline : s.ownerLine = .inLatch)
    (hstep : s.latchGoOn s.owner a = some s') : s'.Gate := by
  obtain ⟨hcall, latch, hlatch, rfl⟩ := latchGoOn_cases hstep
  have hat := h.owner
  rw [OwnerAt, if_pos hline] at hat
  have hpassed : s.latch_.line s.owner ≠ .waitLoop → s.Through := by
    intro hne
    refine h.passed ?_
    rwa [Passed, hline]
  rcases CountDownLatch.step_cases hcall hlatch with
    ⟨-, hlines, hcount, hfault⟩ | ⟨hin, hlineStep⟩
  · refine h.ownerLatch hlatch rfl rfl hline ?_ hcount
      (hfault.trans h.no_overflow) ?_
    · simpa only [hlines] using hat
    · simpa only [hlines] using hpassed
  · generalize hl : s.latch_.line s.owner = l at hlineStep hat hpassed
    cases hlineStep with
    | waits hpos =>
        exact h.ownerLatch hlatch rfl rfl hline (Or.inl hl) rfl h.no_overflow
          fun hne => absurd hl hne
    | passes hpos =>
        have hafter : (s.latch_.goto s.owner (.unlock none)).line s.owner =
            .unlock none := by simp [CountDownLatch.goto]
        exact h.ownerLatch hlatch rfl rfl hline (Or.inr (Or.inl hafter)) rfl
          h.no_overflow fun _ => h.through_of_passes hin hpos
    | unlock value =>
        have hafter : (s.latch_.finish s.owner value).line s.owner =
            .idle := by
          simp [CountDownLatch.finish, CountDownLatch.leave,
            CountDownLatch.goto]
        exact h.ownerLatch hlatch rfl rfl hline (Or.inr (Or.inr hafter)) rfl
          h.no_overflow fun _ => hpassed (by simp)
    | decrement hint | overflow fault hint | zero hzero | nonzero hzero
    | notify | read => simp at hat

/-- How far the count is while the new thread is in the latch. -/
theorem count_of_inLatch (h : s.Gate) (hc : s.child = some c)
    (hline : c.line = .inLatch) :
    if s.latch_.line c.id = .decrement
      then s.latch_.count_ = 1 else s.latch_.count_ = 0 := by
  have hcounted : s.Counted ↔ s.latch_.line c.id ≠ .decrement := by
    rw [Counted, hc]
    simp [hline, ChildLine.past]
  have hcount := h.count
  rw [hcounted] at hcount
  split
  next hdecrement =>
    exact (hcount.resolve_left fun hn => hn.1 hdecrement).2
  next hdecrement =>
    exact (hcount.resolve_right fun hn => hn.1 hdecrement).2

theorem childGoOn (h : s.Gate) (hc : s.child = some c)
    {a : CountDownLatch.Action} (hline : c.line = .inLatch)
    (hnot : ¬ s.Returned c.id) (hstep : s.latchGoOn c.id a = some s') :
    s'.Gate := by
  obtain ⟨hcall, latch, hlatch, rfl⟩ := latchGoOn_cases hstep
  obtain ⟨id, _⟩ := c
  subst hline
  have hthrough : ¬ s.Through := by
    rintro ⟨d, hd, hpast⟩
    obtain rfl := Option.some_inj.mp (hc.symm.trans hd)
    rcases hpast with hpast | ⟨-, hreturned⟩
    · cases hpast
    · exact hnot hreturned
  have hat := h.child _ hc
  have hcount := h.count_of_inLatch hc rfl
  rcases CountDownLatch.step_cases hcall hlatch with
    ⟨-, hlines, hsame, hfault⟩ | ⟨hin, hlineStep⟩
  · refine h.childLatch hc hlatch rfl rfl rfl hc ?_
      (hfault.trans h.no_overflow) ?_ hthrough
    · simpa only [ChildAt, if_true, hlines] using hat
    · simpa only [hlines, hsame] using hcount
  · rw [ChildAt, if_pos rfl] at hat
    have hchild : ∀ {l : LatchLine},
        latch.line id = l → l = .test ∨ l = .notify ∨ l = .unlock none ∨
          l = .idle → latch.count_ = 0 → latch.fault = none →
        Gate { s with latch_ := latch } := by
      intro l hl hlater hzero hfault
      refine h.childLatch hc hlatch rfl rfl rfl hc ?_ hfault ?_ hthrough
      · rw [ChildAt, if_pos rfl]
        exact Or.inr (hl ▸ hlater)
      · have hne : latch.line id ≠ .decrement := by
          rw [hl]
          rintro rfl
          simp at hlater
        rwa [if_neg hne]
    generalize hl : s.latch_.line id = l at hlineStep hat hcount
    cases hlineStep with
    | waits hpos | passes hpos | read => simp at hat
    | decrement hint =>
        have hone : s.latch_.count_ = 1 := hcount
        refine hchild (l := .test) ?_ (Or.inl rfl) ?_ h.no_overflow
        · simp [CountDownLatch.goto]
        · simp [hone]
    | overflow fault hint =>
        have hone : s.latch_.count_ = 1 := hcount
        exact absurd (by rw [hone]; decide) hint
    | zero hzero =>
        refine hchild (l := .notify) ?_ (Or.inr (Or.inl rfl)) hcount
          h.no_overflow
        simp [CountDownLatch.goto]
    | nonzero hzero | notify =>
        refine hchild (l := .unlock none) ?_ (Or.inr (Or.inr (Or.inl rfl)))
          hcount h.no_overflow
        simp [CountDownLatch.goto, CountDownLatch.broadcast]
    | unlock value =>
        refine hchild (l := .idle) ?_ (Or.inr (Or.inr (Or.inr rfl))) ?_
          h.no_overflow
        · simp [CountDownLatch.finish, CountDownLatch.leave,
            CountDownLatch.goto]
        · rwa [if_neg (by simp)] at hcount

/-- The owner enters the latch. -/
theorem ownerCall (h : s.Gate)
    (hstep : { s with ownerLine := .inLatch }.latchStep s.owner
      (.call .wait) = some s') : s'.Gate := by
  obtain ⟨latch, hlatch, rfl⟩ := Option.map_eq_some_iff.mp hstep
  have hcall := hlatch
  obtain ⟨-, hcall⟩ := Option.ite_none_right_eq_some.mp hcall
  obtain ⟨-, -, rfl⟩ := CountDownLatch.call_cases hcall
  have hat : (s.latch_.begin s.owner .wait).line s.owner = .waitLoop := by
    simp [CountDownLatch.begin, CountDownLatch.goto, LatchFunction.entry]
  exact h.ownerLatch hlatch rfl rfl rfl (Or.inl hat) rfl h.no_overflow
    fun hne => absurd hat hne

/-- The new thread enters the latch. -/
theorem childCall (h : s.Gate) (hc : s.child = some c)
    (hline : c.line = .callLatch)
    (hstep : (s.setChild c.id .inLatch).latchStep c.id (.call .countDown) =
      some s') : s'.Gate := by
  obtain ⟨latch, hlatch, rfl⟩ := Option.map_eq_some_iff.mp hstep
  have hcall := hlatch
  obtain ⟨-, hcall⟩ := Option.ite_none_right_eq_some.mp hcall
  obtain ⟨-, -, rfl⟩ := CountDownLatch.call_cases hcall
  have hat : (s.latch_.begin c.id .countDown).line c.id = .decrement := by
    simp [CountDownLatch.begin, CountDownLatch.goto, LatchFunction.entry]
  have hnotCounted : ¬ s.Counted := by
    rintro ⟨d, hd, hpast⟩
    obtain rfl := Option.some_inj.mp (hc.symm.trans hd)
    simp [hline, ChildLine.past] at hpast
  refine h.childLatch hc hlatch rfl rfl rfl rfl ?_ h.no_overflow ?_
    fun hthrough => hnotCounted hthrough.counted
  · rw [ChildAt, if_pos rfl]
    exact Or.inl hat
  · exact (if_pos hat).mpr (h.count.resolve_left fun hn => hnotCounted hn.1).2

/-- `pthread_create` starts the new thread. -/
theorem created (h : s.Gate) (hchild : s.child = none)
    (hline : s.ownerLine ≠ .inLatch) {id : Tid} (hid : id ≠ s.owner)
    (hlatch : s'.latch_ = s.latch_) (howner : s'.owner = s.owner)
    (hownerLine : s'.ownerLine = .callLatch)
    (hafter : s'.child = some ⟨id, .writeTid⟩) : s'.Gate where
  sound := hlatch ▸ h.sound
  no_overflow := hlatch ▸ h.no_overflow
  distinct := by
    rw [hafter, howner]
    rintro _ ⟨⟩
    exact hid
  strangers := by
    rw [howner]
    intro x hx _
    rw [Returned, hlatch]
    exact h.strangers x hx fun c hc => by simp [hchild] at hc
  owner := by
    rw [OwnerAt, hownerLine, if_neg (by simp), Returned, hlatch, howner]
    exact h.owner_returned hline
  child := by
    rw [hafter]
    rintro _ ⟨⟩
    rw [ChildAt, if_neg (by simp), Returned, hlatch]
    exact h.strangers id hid fun c hc => by simp [hchild] at hc
  count := by
    have hbefore : ¬ s.Counted := by
      rintro ⟨c, hc, -⟩
      simp [hchild] at hc
    have hnot : ¬ s'.Counted := by
      rw [Counted, hafter]
      simp [ChildLine.past]
    refine Or.inr ⟨hnot, ?_⟩
    rw [hlatch]
    exact (h.count.resolve_left fun hn => hbefore hn.1).2
  passed := by
    rw [Passed, hownerLine]
    exact False.elim

end Gate

end Steps

/-! ## The other members -/

def phase (s : ThreadObject) : Phase :=
  match s.child with
  | none => .absent
  | some child => if child.line = .ended then .ended else .alive

/-- The members agree with the statements of the two threads. -/
structure Books (s : ThreadObject) : Prop where
  no_fault : s.fault = none
  books : s.ownerLine.books s.started_ s.joined_ s.pthreadId_ s.dataLive
    s.phase = true
  tid : ∀ c, s.child = some c → c.line ≠ .writeTid → s.tid_ = c.id

theorem create_books (owner : Tid) : (create owner).Books where
  no_fault := rfl
  books := rfl
  tid := fun _ h => by cases h

section Books

variable {s s' : ThreadObject} {c : Child}

namespace Books

/-- A step of the owner that does not touch the new thread. -/
theorem ownerMove (h : s.Books) (hfault : s'.fault = s.fault)
    (hchild : s'.child = s.child) (htid : s'.tid_ = s.tid_)
    (hbooks : ∀ phase,
      s.ownerLine.books s.started_ s.joined_ s.pthreadId_ s.dataLive phase =
        true →
      s'.ownerLine.books s'.started_ s'.joined_ s'.pthreadId_ s'.dataLive
        phase = true) : s'.Books where
  no_fault := hfault.trans h.no_fault
  books := by
    rw [phase, hchild]
    exact hbooks _ h.books
  tid := by
    rw [hchild, htid]
    exact h.tid

/-- A step of the new thread that does not end it. -/
theorem childMove (h : s.Books) (hc : s.child = some c) {line : ChildLine}
    (hbefore : c.line ≠ .ended) (hafter : line ≠ .ended)
    (hfault : s'.fault = s.fault) (hchild : s'.child = some ⟨c.id, line⟩)
    (hline : s'.ownerLine = s.ownerLine) (hstarted : s'.started_ = s.started_)
    (hjoined : s'.joined_ = s.joined_) (hhandle : s'.pthreadId_ = s.pthreadId_)
    (hdata : s'.dataLive = s.dataLive) (htid : s'.tid_ = c.id) :
    s'.Books where
  no_fault := hfault.trans h.no_fault
  books := by
    have hphase : s'.phase = s.phase := by
      simp [phase, hchild, hc, hbefore, hafter]
    rw [hphase, hline, hstarted, hjoined, hhandle, hdata]
    exact h.books
  tid := by
    rw [hchild]
    rintro _ ⟨⟩ -
    exact htid

end Books

end Books

/-! ## The steps -/

/-- The invariant. -/
structure Sound (s : ThreadObject) : Prop where
  gate : s.Gate
  books : s.Books

theorem create_sound (owner : Tid) : (create owner).Sound :=
  ⟨create_gate owner, create_books owner⟩

section Steps

variable {s s' : ThreadObject} {c : Child}

/-- The program has ended at an assertion about the caller, or all is well. -/
def Fine (s : ThreadObject) : Prop := s.fault = some .misuse ∨ s.Sound

namespace Sound

/-- The phase of the new thread, as the members tell it. -/
theorem books_at (h : s.Sound) {line : OwnerLine} (hline : s.ownerLine = line) :
    line.books s.started_ s.joined_ s.pthreadId_ s.dataLive s.phase = true :=
  hline ▸ h.books.books

/-- A step of the owner that touches neither the latch nor the new thread. -/
theorem ownerMove (h : s.Sound) (hbefore : s.ownerLine ≠ .inLatch)
    (hlatch : s'.latch_ = s.latch_) (howner : s'.owner = s.owner)
    (hchild : s'.child = s.child) (hfault : s'.fault = s.fault)
    (htid : s'.tid_ = s.tid_) (hafter : s'.ownerLine ≠ .inLatch)
    (hbooks : ∀ phase,
      s.ownerLine.books s.started_ s.joined_ s.pthreadId_ s.dataLive phase =
        true →
      s'.ownerLine.books s'.started_ s'.joined_ s'.pthreadId_ s'.dataLive
        phase = true)
    (hpassed : s'.Passed → s.Through) : s'.Sound :=
  ⟨h.gate.ownerMove (h.gate.owner_returned hbefore) hlatch howner hchild
      hafter hpassed,
    h.books.ownerMove hfault hchild htid hbooks⟩

theorem start (h : s.Sound) (hstep : s.start = some s') : s'.Fine := by
  obtain ⟨hline, hstep⟩ := Option.ite_none_right_eq_some.mp hstep
  obtain rfl := Option.some_inj.mp hstep
  unfold check
  split
  next hstarted =>
    refine Or.inr (h.ownerMove (by simp [hline]) rfl rfl rfl rfl rfl (by simp)
      ?_ False.elim)
    rw [hline, hstarted]
    exact OwnerLine.books_start _ _ _
  next => exact Or.inl rfl

theorem join (h : s.Sound) (hstep : s.join = some s') : s'.Fine := by
  obtain ⟨hline, hstep⟩ := Option.ite_none_right_eq_some.mp hstep
  obtain rfl := Option.some_inj.mp hstep
  unfold check
  split
  next hrunning =>
    obtain ⟨hstarted, hjoined⟩ := hrunning
    refine Or.inr (h.ownerMove (by simp [hline]) rfl rfl rfl rfl rfl (by simp)
      ?_ fun _ => h.gate.passed ?_)
    · rw [hline, hstarted, hjoined]
      exact OwnerLine.books_join _ _
    · rw [Passed, hline]
      exact hstarted
  next => exact Or.inl rfl

theorem destroy (h : s.Sound) (hstep : s.destroy = some s') : s'.Sound := by
  obtain ⟨hline, hstep⟩ := Option.ite_none_right_eq_some.mp hstep
  obtain rfl := Option.some_inj.mp hstep
  refine h.ownerMove (by simp [hline]) rfl rfl rfl rfl rfl (by simp)
    (fun phase => ?_) fun hpassed => h.gate.passed ?_
  · rw [hline]
    exact id
  · rw [Passed, hline]
    exact hpassed

/-! ## The statements of the owner -/

theorem allocate (h : s.Sound) (hline : s.ownerLine = .allocate) :
    Sound { s with dataLive := true, ownerLine := .create } := by
  refine h.ownerMove (by simp [hline]) rfl rfl rfl rfl rfl (by simp)
    (fun phase => ?_) False.elim
  rw [hline]
  exact OwnerLine.books_allocate _ _ _ _ phase

theorem undo (h : s.Sound) (hline : s.ownerLine = .undo) :
    Sound { s with started_ := false, ownerLine := .deleteData } := by
  refine h.ownerMove (by simp [hline]) rfl rfl rfl rfl rfl (by simp)
    (fun phase => ?_) False.elim
  rw [hline]
  exact OwnerLine.books_undo _ _ _ _ phase

theorem deleteData (h : s.Sound) (hline : s.ownerLine = .deleteData) :
    (s.check (s.dataLive = true) .useAfterFree
      { s with dataLive := false, ownerLine := .idle }).Sound := by
  obtain ⟨hstarted, hdata, -⟩ :=
    OwnerLine.books_deleteData _ _ _ _ _ (h.books_at hline)
  rw [check, if_pos hdata]
  refine h.ownerMove (by simp [hline]) rfl rfl rfl rfl rfl (by simp)
    (fun phase => ?_) fun hpassed => ?_
  · rw [hline]
    exact fun hbooks => (OwnerLine.books_deleteData _ _ _ _ phase hbooks).2.2
  · have hyes : s.started_ = true := hpassed
    rw [hstarted] at hyes
    cases hyes

theorem pthreadCreate (h : s.Sound) (hline : s.ownerLine = .create)
    {id : Option Tid} (hstep : s.pthreadCreate id = some s') : s'.Sound := by
  obtain ⟨hphase, hbooks⟩ :=
    OwnerLine.books_create _ _ _ _ _ (h.books_at hline)
  cases id with
  | none =>
      obtain rfl := Option.some_inj.mp hstep
      refine h.ownerMove (by simp [hline]) rfl rfl rfl rfl rfl (by simp)
        (fun phase => ?_) False.elim
      rw [hline]
      exact id
  | some id =>
      obtain ⟨hid, ⟨⟩⟩ := Option.ite_none_right_eq_some.mp hstep
      have hchild : s.child = none := by
        unfold phase at hphase
        split at hphase
        next hnone => exact hnone
        next => split at hphase <;> cases hphase
      refine ⟨h.gate.created hchild (by simp [hline]) hid rfl rfl rfl rfl,
        h.books.no_fault, hbooks, ?_⟩
      rintro _ ⟨⟩ hne
      exact absurd rfl hne

theorem inLatch (h : s.Sound) (hline : s.ownerLine = .inLatch)
    (hreturned : s.Returned s.owner) :
    Sound { s with ownerLine := .assertTid } := by
  refine ⟨h.gate.ownerMove hreturned rfl rfl rfl (by simp) fun _ => ?_,
    h.books.ownerMove rfl rfl rfl fun phase => ?_⟩
  · refine h.gate.passed ?_
    rw [Passed, hline]
    rw [hreturned.1]
    exact nofun
  · rw [hline]
    exact id

/-- `assert(tid_ > 0)`. -/
theorem assertTid (h : s.Sound) (hline : s.ownerLine = .assertTid) :
    (s.check (0 < s.tid_) .assertion { s with ownerLine := .idle }).Sound := by
  have hthrough : s.Through := by
    refine h.gate.passed ?_
    rw [Passed, hline]
    trivial
  have htid : 0 < s.tid_ := by
    obtain ⟨c, hc, hpast⟩ := hthrough
    have hne : c.line ≠ .writeTid := by
      intro hl
      simp [hl, ChildLine.past] at hpast
    rw [h.books.tid c hc hne]
    exact c.id.2
  rw [check, if_pos htid]
  refine h.ownerMove (by simp [hline]) rfl rfl rfl rfl rfl (by simp)
    (fun phase => ?_) fun _ => hthrough
  rw [hline]
  exact OwnerLine.books_assertTid _ _ _ _ phase

theorem pthreadJoin (h : s.Sound) (hline : s.ownerLine = .joining)
    (hstep : s.pthreadJoin = some s') : s'.Sound := by
  obtain ⟨hended, hstep⟩ := Option.ite_none_right_eq_some.mp hstep
  obtain rfl := Option.some_inj.mp hstep
  have hphase : s.phase = .ended := by
    obtain ⟨c, hc, hl⟩ := (Option.any_eq_true _ _).mp hended
    simp [phase, hc, of_decide_eq_true hl]
  have hbooks := h.books_at hline
  rw [hphase] at hbooks
  obtain ⟨hhandle, -, hafter⟩ := OwnerLine.books_join_end _ _ _ _ hbooks
  rw [check, if_pos hhandle]
  refine ⟨h.gate.ownerMove (h.gate.owner_returned (by simp [hline])) rfl rfl
    rfl (by simp) fun _ => h.gate.passed ?_, h.books.no_fault, ?_, h.books.tid⟩
  · rw [Passed, hline]
    trivial
  · have hsame : phase { s with pthreadId_ := .joined, ownerLine := .idle } =
        .ended := hphase
    rw [hsame]
    exact hafter

theorem pthreadDetach (h : s.Sound) (hline : s.ownerLine = .detach) :
    s.pthreadDetach.Sound := by
  have hpassed : s.started_ = true → s.Through := by
    intro hstarted
    refine h.gate.passed ?_
    rw [Passed, hline]
    exact hstarted
  have hbooks := h.books_at hline
  unfold ThreadObject.pthreadDetach
  split
  next hrunning =>
    obtain ⟨hstarted, hjoined⟩ := hrunning
    rw [hstarted, hjoined] at hbooks
    obtain ⟨hhandle, -⟩ := OwnerLine.books_detach _ _ _ hbooks
    rw [check, if_pos hhandle]
    refine h.ownerMove (by simp [hline]) rfl rfl rfl rfl rfl (by simp)
      (fun phase hb => ?_) fun _ => hpassed hstarted
    rw [hline, hstarted, hjoined] at hb
    simp only [hstarted, hjoined]
    exact (OwnerLine.books_detach _ _ _ hb).2
  next hnot =>
    refine h.ownerMove (by simp [hline]) rfl rfl rfl rfl rfl (by simp)
      (fun phase hb => ?_) hpassed
    rw [hline] at hb
    exact OwnerLine.books_members _ _ _ _ phase hnot hb

/-- Behind `start`, or without it, nobody is in the latch. -/
theorem returned_all (h : s.Sound) (hline : s.ownerLine = .members) (x : Tid) :
    s.Returned x := by
  by_cases hx : x = s.owner
  · rw [hx]
    exact h.gate.owner_returned (by simp [hline])
  · by_cases hchild : ∃ c, s.child = some c ∧ x = c.id
    · obtain ⟨c, hc, rfl⟩ := hchild
      have hphase : s.phase ≠ .absent := by
        simp only [phase, hc]
        split <;> simp
      have hstarted : s.started_ = true := by
        rcases OwnerLine.books_started _ _ _ _ _ _ (h.books_at hline) hphase
          with hnot | hyes
        · exact absurd rfl hnot.2.2.1
        · exact hyes
      obtain ⟨d, hd, hpast⟩ : s.Through := by
        refine h.gate.passed ?_
        rw [Passed, hline]
        exact hstarted
      obtain rfl := Option.some_inj.mp (hc.symm.trans hd)
      rcases hpast with hpast | ⟨-, hreturned⟩
      · refine h.gate.child_returned hc fun hl => ?_
        rw [hl] at hpast
        cases hpast
      · exact hreturned
    · exact h.gate.strangers x hx fun c hc heq => hchild ⟨c, hc, heq⟩

theorem destroyMembers (h : s.Sound) (hline : s.ownerLine = .members) :
    s.destroyMembers.Sound := by
  have hout : ∀ x, s.latch_.mutex_.position x = .outside :=
    fun x => (h.returned_all hline x).2
  have hholder : s.latch_.mutex_.holder_ = 0 :=
    h.gate.sound.owned.holder_eq_zero fun x => by simp [hout x]
  have hmutex : s.latch_.mutex_.mutex_ = none := by
    cases hm : s.latch_.mutex_.mutex_ with
    | none => rfl
    | some x =>
        have howns := (h.gate.sound.owned.mutex_iff x).mp hm
        rw [hout x] at howns
        cases howns
  have hblocked : (s.latch_.mutex_.conditions ()).blocked = [] := by
    refine List.eq_nil_iff_forall_not_mem.mpr fun x hx => ?_
    have hpos := (h.gate.sound.waiters () x).mp hx
    rw [hout x] at hpos
    cases hpos
  unfold ThreadObject.destroyMembers
  rw [check, if_pos hholder, check, if_pos ⟨hmutex, hblocked⟩]
  refine h.ownerMove (by simp [hline]) rfl rfl rfl rfl rfl (by simp)
    (fun phase => ?_) fun hpassed => h.gate.passed ?_
  · rw [hline]
    exact id
  · rw [Passed, hline]
    exact hpassed

theorem ownerStep (h : s.Sound) {id : Option Tid} {a : CountDownLatch.Action}
    (hstep : s.ownerStep id a = some s') : s'.Sound := by
  unfold ThreadObject.ownerStep at hstep
  split at hstep
  next => cases hstep
  next => cases hstep
  next hline => exact Option.some_inj.mp hstep ▸ h.allocate hline
  next hline => exact h.pthreadCreate hline hstep
  next hline => exact Option.some_inj.mp hstep ▸ h.undo hline
  next hline => exact Option.some_inj.mp hstep ▸ h.deleteData hline
  next hline =>
    refine ⟨h.gate.ownerCall hstep, ?_⟩
    obtain ⟨latch, -, rfl⟩ := Option.map_eq_some_iff.mp hstep
    refine h.books.ownerMove rfl rfl rfl fun phase => ?_
    rw [hline]
    exact fun hbooks => hbooks
  next hline =>
    split at hstep
    next hreturned =>
      exact Option.some_inj.mp hstep ▸ h.inLatch hline hreturned
    next =>
      refine ⟨h.gate.ownerGoOn hline hstep, ?_⟩
      obtain ⟨-, latch, -, rfl⟩ := Gate.latchGoOn_cases hstep
      exact h.books.ownerMove rfl rfl rfl fun _ => fun hbooks => hbooks
  next hline => exact Option.some_inj.mp hstep ▸ h.assertTid hline
  next hline => exact h.pthreadJoin hline hstep
  next hline => exact Option.some_inj.mp hstep ▸ h.pthreadDetach hline
  next hline => exact Option.some_inj.mp hstep ▸ h.destroyMembers hline

/-! ## The statements of the new thread -/

/-- Until it has left the latch the new thread still finds the object. -/
theorem exists_of_child (h : s.Sound) (hc : s.child = some c)
    (hpast : c.line.past = false)
    (hnot : c.line = .inLatch → ¬ s.Returned c.id) : s.Exists := by
  intro hline
  have hphase : s.phase ≠ .absent := by
    simp only [phase, hc]
    split <;> simp
  have hstarted : s.started_ = true := by
    rcases OwnerLine.books_started _ _ _ _ _ _ (h.books_at hline) hphase
      with hother | hyes
    · exact absurd rfl hother.2.2.2
    · exact hyes
  obtain ⟨d, hd, hthrough⟩ : s.Through := by
    refine h.gate.passed ?_
    rw [Passed, hline]
    exact hstarted
  obtain rfl := Option.some_inj.mp (hc.symm.trans hd)
  rcases hthrough with hyes | ⟨hl, hreturned⟩
  · rw [hpast] at hyes
    cases hyes
  · exact hnot hl hreturned

theorem useObject_eq (h : s.Sound) (hc : s.child = some c)
    (hpast : c.line.past = false)
    (hnot : c.line = .inLatch → ¬ s.Returned c.id)
    (next : Option ThreadObject) : s.useObject next = next :=
  if_pos (h.exists_of_child hc hpast hnot)

/-- `delete data;`, and the end of the thread. -/
theorem childEnd (h : s.Sound) (hc : s.child = some c)
    (hline : c.line = .deleteData) :
    (s.check (s.dataLive = true) .useAfterFree
      { s.setChild c.id .ended with dataLive := false }).Sound := by
  have hphase : s.phase = .alive := by simp [phase, hc, hline]
  have hbooks := h.books.books
  rw [hphase] at hbooks
  obtain ⟨hdata, hafter⟩ := OwnerLine.books_end _ _ _ _ _ hbooks
  rw [check, if_pos hdata]
  refine ⟨h.gate.childMove hc (h.gate.child_returned hc (by simp [hline]))
    (by simp) rfl rfl rfl rfl rfl (by simp [hline, ChildLine.past]),
    h.books.no_fault, hafter, ?_⟩
  rintro _ ⟨⟩ -
  exact h.books.tid c hc (by simp [hline])

theorem funcReturns (h : s.Sound) (hc : s.child = some c)
    (hline : c.line = .func) : (s.setChild c.id .deleteData).Sound :=
  ⟨h.gate.childMove hc (h.gate.child_returned hc (by simp [hline]))
      (by simp) rfl rfl rfl rfl rfl (by simp [hline, ChildLine.past]),
    h.books.childMove hc (by simp [hline]) (by simp) rfl rfl rfl rfl rfl rfl
      rfl (h.books.tid c hc (by simp [hline]))⟩

theorem childStep (h : s.Sound) (hc : s.child = some c)
    {a : CountDownLatch.Action} (hstep : s.childStep c a = some s') :
    s'.Sound := by
  unfold ThreadObject.childStep at hstep
  split at hstep
  next hline =>
    rw [h.useObject_eq hc (by rw [hline]; rfl) (by simp [hline])] at hstep
    obtain rfl := Option.some_inj.mp hstep
    refine ⟨h.gate.childMove hc (h.gate.child_returned hc (by simp [hline]))
      (by simp) rfl rfl rfl rfl rfl (by simp [hline, ChildLine.past]),
      h.books.childMove hc (by simp [hline]) (by simp) rfl rfl rfl rfl rfl rfl
        rfl rfl⟩
  next hline =>
    rw [h.useObject_eq hc (by rw [hline]; rfl) (by simp [hline])] at hstep
    refine ⟨h.gate.childCall hc hline hstep, ?_⟩
    obtain ⟨latch, -, rfl⟩ := Option.map_eq_some_iff.mp hstep
    exact h.books.childMove hc (by simp [hline]) (by simp) rfl rfl rfl rfl rfl
      rfl rfl (h.books.tid c hc (by simp [hline]))
  next hline =>
    have htid : s.tid_ = c.id := h.books.tid c hc (by simp [hline])
    split at hstep
    next hreturned =>
      obtain rfl := Option.some_inj.mp hstep
      exact ⟨h.gate.childMove hc hreturned (by simp) rfl rfl rfl rfl rfl
          (by simp [hline, ChildLine.past]),
        h.books.childMove hc (by simp [hline]) (by simp) rfl rfl rfl rfl rfl
          rfl rfl htid⟩
    next hnot =>
      rw [h.useObject_eq hc (by rw [hline]; rfl) fun _ => hnot] at hstep
      refine ⟨h.gate.childGoOn hc hline hnot hstep, ?_⟩
      obtain ⟨-, latch, -, rfl⟩ := Gate.latchGoOn_cases hstep
      refine h.books.childMove hc (by simp [hline]) (by simp [hline]) rfl hc
        rfl rfl rfl rfl rfl htid
  next => cases hstep
  next => cases hstep
  next hline => exact Option.some_inj.mp hstep ▸ h.childEnd hc hline

/-- A step goes well, or the caller is at fault. -/
theorem step (h : s.Sound) {act : Action} (hstep : s.step act = some s') :
    s'.Fine := by
  obtain ⟨-, hstep⟩ := Option.ite_none_right_eq_some.mp hstep
  cases act with
  | start => exact h.start hstep
  | join => exact h.join hstep
  | destroy => exact Or.inr (h.destroy hstep)
  | owner id a => exact Or.inr (h.ownerStep hstep)
  | child a =>
      obtain ⟨c, hc, hstep⟩ := Option.bind_eq_some_iff.mp hstep
      exact Or.inr (h.childStep hc hstep)
  | funcReturns =>
      obtain ⟨c, hc, hstep⟩ := Option.bind_eq_some_iff.mp hstep
      obtain ⟨hline, ⟨⟩⟩ := Option.ite_none_right_eq_some.mp hstep
      exact Or.inr (h.funcReturns hc hline)

end Sound

theorem run_fine {owner : Tid} {acts : List Action}
    (hrun : run step (create owner) acts = some s) : s.Fine := by
  refine run_invariant (I := Fine) (fun s act s' h hstep => ?_)
    (Or.inr (create_sound owner)) hrun
  rcases h with hmisuse | hsound
  · simp [step, hmisuse] at hstep
  · exact hsound.step hstep

/-! ## Nobody waits for ever -/

variable (s) in
/-- Some thread can take its next step.  Calls of the owner, the return of
`func_` and wake-ups without a signal do not count. -/
def CanGoOn : Prop :=
  ∃ a : CountDownLatch.Action, a.goesOn = true ∧
    ((∃ id, (s.step (.owner id a)).isSome = true) ∨
      (s.step (.child a)).isSome = true)

variable (s) in
/-- The new thread has ended, or it is inside `func_`. -/
def ChildRests : Prop :=
  ∀ c, s.child = some c → c.line = .func ∨ c.line = .ended

variable (s) in
/-- The owner is in no function of the object, or it waits in `join` for a
thread that is inside `func_`. -/
def OwnerRests : Prop :=
  s.ownerLine = .idle ∨ s.ownerLine = .gone ∨
    s.ownerLine = .joining ∧ ∃ c, s.child = some c ∧ c.line = .func

namespace Sound

theorem canGoOn_of_owner (h : s.Sound) (id : Option Tid)
    (hsome : (s.ownerStep id .execute).isSome = true) : s.CanGoOn :=
  ⟨.execute, rfl, Or.inl ⟨id, by
    simpa [ThreadObject.step, h.books.no_fault] using hsome⟩⟩

theorem canGoOn_of_child (h : s.Sound) (hc : s.child = some c)
    {a : CountDownLatch.Action} (ha : a.goesOn = true)
    (hsome : (s.childStep c a).isSome = true) : s.CanGoOn :=
  ⟨a, ha, Or.inr (by
    simpa [ThreadObject.step, h.books.no_fault, hc] using hsome)⟩

theorem call_isSome (h : s.Sound) {t : Tid} (hreturned : s.Returned t)
    (f : LatchFunction) : (s.latch_.step (t, .call f)).isSome = true := by
  simp [CountDownLatch.step, h.gate.no_overflow, CountDownLatch.call,
    hreturned.1, CountDownLatch.lockStep, CountDownLatch.goto, MutexLock.step,
    hreturned.2]

/-- When the latch can go on, one of the two threads can. -/
theorem canGoOn_of_latch (h : s.Sound) (hgo : s.latch_.CanGoOn) :
    s.CanGoOn := by
  obtain ⟨t, a, ha, hsome⟩ := hgo
  obtain ⟨latch, hlatch⟩ := Option.isSome_iff_exists.mp hsome
  have hcall : ∀ f, a ≠ .call f := by
    rintro f rfl
    cases ha
  have hnot : ¬ s.Returned t := by
    rintro ⟨-, hpos⟩
    rcases CountDownLatch.step_cases hcall hlatch with ⟨hout, -⟩ | ⟨hin, -⟩
    · exact hout hpos
    · rw [hpos] at hin
      cases hin
  have hgoOn : (s.latchGoOn t a).isSome = true := by
    cases a with
    | call f => exact absurd rfl (hcall f)
    | proceed a | execute => simpa [latchGoOn, latchStep] using hsome
  by_cases ht : t = s.owner
  · subst ht
    have hline : s.ownerLine = .inLatch := by
      by_contra hother
      exact hnot (h.gate.owner_returned hother)
    refine ⟨a, ha, Or.inl ⟨none, ?_⟩⟩
    simpa [ThreadObject.step, h.books.no_fault, ThreadObject.ownerStep, hline,
      hnot] using hgoOn
  · obtain ⟨c, hc, rfl⟩ : ∃ c, s.child = some c ∧ t = c.id := by
      by_contra hother
      exact hnot (h.gate.strangers t ht
        fun c hc heq => hother ⟨c, hc, heq⟩)
    have hline : c.line = .inLatch := by
      by_contra hother
      exact hnot (h.gate.child_returned hc hother)
    refine h.canGoOn_of_child hc ha ?_
    have huse := h.useObject_eq hc (by rw [hline]; rfl) fun _ => hnot
    simpa [ThreadObject.childStep, hline, hnot, huse] using hgoOn

theorem childRests (h : s.Sound) (hstuck : ¬ s.CanGoOn) : s.ChildRests := by
  intro c hc
  have hgo : ∀ {a : CountDownLatch.Action}, a.goesOn = true →
      (s.childStep c a).isSome = true → False :=
    fun ha hsome => hstuck (h.canGoOn_of_child hc ha hsome)
  cases hline : c.line with
  | func => exact Or.inl rfl
  | ended => exact Or.inr rfl
  | writeTid =>
      refine (hgo (a := .execute) rfl ?_).elim
      have huse := h.useObject_eq hc (by rw [hline]; rfl) (by simp [hline])
      simp [ThreadObject.childStep, hline, huse]
  | callLatch =>
      refine (hgo (a := .execute) rfl ?_).elim
      have huse := h.useObject_eq hc (by rw [hline]; rfl) (by simp [hline])
      have hreturned := h.gate.child_returned hc (by simp [hline])
      have hcall := h.call_isSome hreturned .countDown
      simpa [ThreadObject.childStep, hline, huse, latchStep, setChild]
        using hcall
  | deleteData =>
      refine (hgo (a := .execute) rfl ?_).elim
      simp [ThreadObject.childStep, hline]
  | inLatch =>
      have hreturned : s.Returned c.id := by
        rcases h.gate.sound.stuck h.gate.no_overflow
          (fun hlatch => hstuck (h.canGoOn_of_latch hlatch)) c.id
          with hyes | ⟨hwait, -⟩
        · exact hyes
        · have hat := h.gate.child c hc
          rw [ChildAt, if_pos hline, hwait] at hat
          simp at hat
      refine (hgo (a := .execute) rfl ?_).elim
      simp [ThreadObject.childStep, hline, hreturned]

/-- The owner does not hang in the latch: the new thread opens it. -/
theorem not_inLatch_of_stuck (h : s.Sound) (hstuck : ¬ s.CanGoOn) :
    s.ownerLine ≠ .inLatch := by
  intro hline
  rcases h.gate.sound.stuck h.gate.no_overflow
    (fun hlatch => hstuck (h.canGoOn_of_latch hlatch)) s.owner
    with hreturned | ⟨-, -, hpos⟩
  · have hreturned : s.Returned s.owner := hreturned
    refine hstuck (h.canGoOn_of_owner none ?_)
    simp [ThreadObject.ownerStep, hline, hreturned]
  · have hphase := OwnerLine.books_inLatch _ _ _ _ _ (h.books_at hline)
    obtain ⟨c, hc⟩ : ∃ c, s.child = some c := by
      cases hchild : s.child with
      | none => exact absurd (by simp [phase, hchild]) hphase
      | some c => exact ⟨c, rfl⟩
    have hcounted : s.Counted := by
      refine ⟨c, hc, Or.inl ?_⟩
      rcases h.childRests hstuck c hc with hl | hl
      · rw [hl]
        rfl
      · rw [hl]
        rfl
    have hzero := (h.gate.count.resolve_right fun hn => hn.1 hcounted).2
    omega

theorem ownerRests (h : s.Sound) (hstuck : ¬ s.CanGoOn) : s.OwnerRests := by
  have hgo : (s.ownerStep none .execute).isSome = true → False :=
    fun hsome => hstuck (h.canGoOn_of_owner none hsome)
  have hchild := h.childRests hstuck
  cases hline : s.ownerLine with
  | idle => exact Or.inl hline
  | gone => exact Or.inr (Or.inl hline)
  | allocate | undo | deleteData | assertTid | detach | members =>
      refine (hgo ?_).elim
      simp [ThreadObject.ownerStep, hline]
  | create =>
      refine (hgo ?_).elim
      simp [ThreadObject.ownerStep, hline, ThreadObject.pthreadCreate]
  | callLatch =>
      refine (hgo ?_).elim
      have hreturned := h.gate.owner_returned (by simp [hline])
      have hcall := h.call_isSome hreturned .wait
      simpa [ThreadObject.ownerStep, hline, latchStep] using hcall
  | inLatch => exact absurd hline (h.not_inLatch_of_stuck hstuck)
  | joining =>
      obtain ⟨c, hc⟩ : ∃ c, s.child = some c := by
        obtain ⟨c, hc, -⟩ : s.Through := by
          refine h.gate.passed ?_
          rw [Passed, hline]
          trivial
        exact ⟨c, hc⟩
      rcases hchild c hc with hfunc | hended
      · exact Or.inr (Or.inr ⟨hline, c, hc, hfunc⟩)
      · refine (hgo ?_).elim
        simp [ThreadObject.ownerStep, hline, ThreadObject.pthreadJoin, hc,
          hended]

end Sound

/-! ## The result -/

namespace Sound

/-- Behind `start` the id of the new thread is in the object. -/
theorem tid_eq (h : s.Sound) (hline : s.ownerLine = .idle)
    (hstarted : s.started_ = true) :
    ∃ c, s.child = some c ∧ s.tid_ = c.id ∧ (c.line.past = true ∨
      s.Returned c.id) := by
  obtain ⟨c, hc, hpast⟩ : s.Through := by
    refine h.gate.passed ?_
    rw [Passed, hline]
    exact hstarted
  refine ⟨c, hc, h.books.tid c hc fun hl => ?_, hpast.imp id And.right⟩
  simp [hl, ChildLine.past] at hpast

/-- Nothing is left behind by a destroyed object. -/
theorem nothing_left (h : s.Sound) (hline : s.ownerLine = .gone) :
    s.pthreadId_ ≠ .joinable ∧
      ((∀ c, s.child = some c → c.line = .ended) → s.dataLive = false) := by
  have hbooks := h.books_at hline
  refine ⟨(OwnerLine.books_gone _ _ _ _ _ hbooks).1, fun hended => ?_⟩
  refine (OwnerLine.books_gone _ _ _ _ _ hbooks).2 fun halive => ?_
  unfold phase at halive
  split at halive
  next => cases halive
  next c hc =>
    rw [if_pos (hended c hc)] at halive
    cases halive

end Sound

end Steps

/-- The hand-over is safe.  Whatever the order of the steps of the two
threads, and whether or not the creation succeeds: only a call of the owner
against the assertions fails; behind `start` the object holds the id of the new
thread; a destroyed object leaves neither a joinable thread nor, once the new
thread has ended, anything on the heap; and `start` and `join` never hang but
for `func_`. -/
theorem handover_safe (owner : Tid) (acts : List Action) (s : ThreadObject)
    (hrun : run step (create owner) acts = some s) :
    (s.fault = none ∨ s.fault = some .misuse) ∧ (s.fault = none →
      (s.ownerLine = .idle → s.started_ = true →
        ∃ c, s.child = some c ∧ s.tid_ = c.id ∧
          (c.line.past = true ∨ s.Returned c.id)) ∧
      (s.ownerLine = .gone → s.pthreadId_ ≠ .joinable ∧
        ((∀ c, s.child = some c → c.line = .ended) → s.dataLive = false)) ∧
      (¬ s.CanGoOn → s.OwnerRests ∧ s.ChildRests)) := by
  rcases run_fine hrun with hmisuse | hsound
  · refine ⟨Or.inr hmisuse, fun hnone => ?_⟩
    rw [hmisuse] at hnone
    cases hnone
  · exact ⟨Or.inl hsound.books.no_fault, fun _ => ⟨hsound.tid_eq,
      hsound.nothing_left,
      fun hstuck => ⟨hsound.ownerRests hstuck, hsound.childRests hstuck⟩⟩⟩

/-! ## A thread that is started and let go -/

def mainThread : Tid := ⟨21, by decide⟩

def newThread : Tid := ⟨22, by decide⟩

/-- The owner waits, the new thread opens the latch, and the owner destroys the
object while the new thread is still inside `func_`. -/
def letGo : List Action :=
  let owner := Action.owner (some newThread)
  [.start, owner .execute, owner .execute, owner .execute,
    owner (.proceed .acquire), owner (.proceed .assign), owner .execute,
    owner (.proceed (.block ())), .child .execute, .child .execute,
    .child (.proceed .acquire), .child (.proceed .assign), .child .execute,
    .child .execute, .child .execute, .child .execute,
    .child (.proceed .release), owner (.proceed (.resume ())),
    owner (.proceed .unguard), owner .execute, owner .execute,
    owner (.proceed .release), owner .execute, .child .execute,
    owner .execute, .destroy, owner .execute, owner .execute,
    .funcReturns, .child .execute]

theorem handover_safe_letGo :
    ∃ s, run step (create mainThread) letGo = some s ∧ s.ownerLine = .gone ∧
      s.fault = none ∧ s.tid_ = newThread ∧ s.pthreadId_ ≠ .joinable := by
  obtain ⟨s, hrun, hline, hfault, htid⟩ :
      ∃ s, run step (create mainThread) letGo = some s ∧
        s.ownerLine = .gone ∧ s.fault = none ∧ s.tid_ = newThread :=
    exists_run_of_eval (by decide)
  have hsafe := (handover_safe mainThread letGo s hrun).2 hfault
  exact ⟨s, hrun, hline, hfault, htid, (hsafe.2.1 hline).1⟩

end ThreadObject

end EventServer.Thread

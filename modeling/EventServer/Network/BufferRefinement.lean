import EventServer.Support.Run
import EventServer.Network.BufferRegions

/-!
# The buffer refines a deque of bytes

A program works on a family of buffers: it calls operations of single buffers
and swaps two of them.  The abstract side of the refinement is a family of
byte sequences to which bytes are added, and from which they are taken, at
both ends.  As long as the preconditions that the source asserts hold and no
size reaches `2 ^ 63`, no call fails and the readable bytes of every buffer are
the abstract ones.
-/

namespace EventServer.Network

open EventServer.Support

/-- One call on a buffer.  The pointer passed to `retrieveUntil` is
`peek() + offset`, and `store` is a store at `beginWrite()` followed by
`hasWritten`. -/
inductive BufferOp where
  | append (data : List UInt8)
  | prepend (data : List UInt8)
  | ensureWritableBytes (len : ℕ)
  | store (data : List UInt8)
  | unwrite (len : ℕ)
  | retrieve (len : ℕ)
  | retrieveUntil (offset : ℕ)
  | retrieveAll
  | retrieveAsString (len : ℕ)
  | readFd (result : ReadvResult)

/-- What a call hands back to its caller. -/
inductive BufferOutput where
  | nothing
  | string (bytes : List UInt8)
  | count (n : ℤ) (savedErrno : Option Errno)
  deriving DecidableEq

namespace BufferOp

/-! ## The concrete and the abstract meaning of one call -/

/-- Run the call on a buffer. -/
def exec : BufferOp → Buffer → Except Fault (Buffer × BufferOutput)
  | .append data, b => do return (← b.append data, .nothing)
  | .prepend data, b => do return (← b.prepend data, .nothing)
  | .ensureWritableBytes len, b => do
      return (← b.ensureWritableBytes len, .nothing)
  | .store data, b => do
      return (← (b.storeAtBeginWrite data).hasWritten data.length, .nothing)
  | .unwrite len, b => do return (← b.unwrite len, .nothing)
  | .retrieve len, b => do return (← b.retrieve len, .nothing)
  | .retrieveUntil offset, b => do
      return (← b.retrieveUntil (b.readerIndex_ + offset), .nothing)
  | .retrieveAll, b => return (b.retrieveAll, .nothing)
  | .retrieveAsString len, b => do
      let (b, result) ← b.retrieveAsString len
      return (b, .string result)
  | .readFd result, b => do
      let (b, n, savedErrno) ← b.readFd result
      return (b, .count n savedErrno)

/-- The effect of the call on a deque of bytes. -/
def abstract : BufferOp → List UInt8 → List UInt8 × BufferOutput
  | .append data, c => (c ++ data, .nothing)
  | .prepend data, c => (data ++ c, .nothing)
  | .ensureWritableBytes _, c => (c, .nothing)
  | .store data, c => (c ++ data, .nothing)
  | .unwrite len, c => (c.take (c.length - len), .nothing)
  | .retrieve len, c => (c.drop len, .nothing)
  | .retrieveUntil offset, c => (c.drop offset, .nothing)
  | .retrieveAll, _ => ([], .nothing)
  | .retrieveAsString len, c => (c.drop len, .string (c.take len))
  | .readFd (.stored bytes), c => (c ++ bytes, .count bytes.length none)
  | .readFd (.failed errno), c => (c, .count (-1) (some errno))

/-- What the source asserts of the arguments of the call, or assumes of the
kernel, and that the size which the call asks for stays below `2 ^ 63`. -/
def Pre : BufferOp → Buffer → Prop
  | .append data, b => b.writerIndex_ + data.length < 2 ^ 63
  | .prepend data, b => data.length ≤ b.prependableBytes
  | .ensureWritableBytes len, b => b.writerIndex_ + len < 2 ^ 63
  | .store data, b => data.length ≤ b.writableBytes
  | .unwrite len, b => len ≤ b.readableBytes
  | .retrieve len, b => len ≤ b.readableBytes
  | .retrieveUntil offset, b => b.readerIndex_ + offset ≤ b.writerIndex_
  | .retrieveAll, _ => True
  | .retrieveAsString len, b => len ≤ b.readableBytes
  | .readFd (.stored bytes), b =>
      bytes.length ≤ b.iovCapacity ∧ b.writerIndex_ + bytes.length < 2 ^ 63
  | .readFd (.failed _), _ => True

instance (op : BufferOp) (b : Buffer) : Decidable (op.Pre b) := by
  cases op with
  | readFd result => cases result <;> unfold Pre <;> infer_instance
  | _ => unfold Pre; infer_instance

/-- What a call promises about the buffer beyond its content. -/
def Post : BufferOp → Buffer → Buffer → Prop
  | .ensureWritableBytes len, _, after => len ≤ after.writableBytes
  | .readFd (.failed _), before, after => after = before
  | _, _, _ => True

/-- One call simulates its abstract counterpart. -/
theorem exec_spec {op : BufferOp} {b : Buffer} (hb : b.Valid)
    (hpre : op.Pre b) :
    ∃ b', op.exec b = .ok (b', (op.abstract b.content).2) ∧ b'.Valid ∧
      b'.content = (op.abstract b.content).1 ∧ op.Post b b' := by
  cases op with
  | append data =>
      obtain ⟨b', heq, hvalid, hcontent⟩ := Buffer.append_spec hb hpre
      exact ⟨b', by simp [exec, heq, abstract], hvalid, hcontent, trivial⟩
  | prepend data =>
      obtain ⟨b', heq, hvalid, hcontent⟩ := Buffer.prepend_spec hb hpre
      exact ⟨b', by simp [exec, heq, abstract], hvalid, hcontent, trivial⟩
  | ensureWritableBytes len =>
      obtain ⟨b', heq, hvalid, hcontent, hroom⟩ :=
        Buffer.ensureWritableBytes_spec hb hpre
      exact ⟨b', by simp [exec, heq, abstract], hvalid, hcontent, hroom⟩
  | store data =>
      obtain ⟨b', heq, hvalid, hcontent⟩ :=
        Buffer.storeAtBeginWrite_hasWritten_spec hb hpre
      exact ⟨b', by simp [exec, heq, abstract], hvalid, hcontent, trivial⟩
  | unwrite len =>
      obtain ⟨b', heq, hvalid, hcontent⟩ := Buffer.unwrite_spec hb hpre
      exact ⟨b', by simp [exec, heq, abstract], hvalid, hcontent, trivial⟩
  | retrieve len =>
      obtain ⟨b', heq, hvalid, hcontent⟩ := Buffer.retrieve_spec hb hpre
      exact ⟨b', by simp [exec, heq, abstract], hvalid, hcontent, trivial⟩
  | retrieveUntil offset =>
      obtain ⟨b', heq, hvalid, hcontent⟩ :=
        Buffer.retrieveUntil_spec hb (Nat.le_add_right _ offset) hpre
      rw [Nat.add_sub_cancel_left] at hcontent
      exact ⟨b', by simp [exec, heq, abstract], hvalid, hcontent, trivial⟩
  | retrieveAll =>
      exact ⟨b.retrieveAll, rfl, Buffer.retrieveAll_valid hb,
        Buffer.retrieveAll_content b, trivial⟩
  | retrieveAsString len =>
      obtain ⟨b', heq, hvalid, hcontent⟩ :=
        Buffer.retrieveAsString_spec hb hpre
      exact ⟨b', by simp [exec, heq, abstract], hvalid, hcontent, trivial⟩
  | readFd result =>
      cases result with
      | stored bytes =>
          obtain ⟨b', heq, hvalid, hcontent⟩ :=
            Buffer.readFd_stored_spec hb hpre.1 hpre.2
          exact ⟨b', by simp [exec, heq, abstract], hvalid, hcontent,
            trivial⟩
      | failed errno =>
          exact ⟨b, by simp [exec, Buffer.readFd_failed, abstract], hb, rfl,
            rfl⟩

end BufferOp

/-! ## Families of buffers -/

/-- One step of a program that owns a family of buffers. -/
inductive StoreOp (ι : Type) where
  | on (i : ι) (op : BufferOp)
  | swap (i j : ι)

namespace StoreOp

variable {ι : Type} [DecidableEq ι]

def exec (s : ι → Buffer) : StoreOp ι →
    Except Fault ((ι → Buffer) × BufferOutput)
  | .on i op => do
      let (b, output) ← op.exec (s i)
      return (Function.update s i b, output)
  | .swap i j =>
      let (left, right) := (s i).swap (s j)
      return (Function.update (Function.update s i left) j right, .nothing)

def abstract (c : ι → List UInt8) : StoreOp ι →
    (ι → List UInt8) × BufferOutput
  | .on i op =>
      (Function.update c i (op.abstract (c i)).1, (op.abstract (c i)).2)
  | .swap i j =>
      (Function.update (Function.update c i (c j)) j (c i), .nothing)

def Pre (s : ι → Buffer) : StoreOp ι → Prop
  | .on i op => op.Pre (s i)
  | .swap _ _ => True

instance (s : ι → Buffer) (op : StoreOp ι) : Decidable (op.Pre s) := by
  cases op <;> unfold Pre <;> infer_instance

def Post (s t : ι → Buffer) : StoreOp ι → Prop
  | .on i op => op.Post (s i) (t i)
  | .swap _ _ => True

/-- The step function of the program; a call that fails has no next state. -/
def step (s : ι → Buffer) (op : StoreOp ι) : Option (ι → Buffer) :=
  match op.exec s with
  | .ok (t, _) => some t
  | .error _ => none

/-- The abstract contents after a sequence of calls. -/
def abstractRun (c : ι → List UInt8) (ops : List (StoreOp ι)) :
    ι → List UInt8 :=
  ops.foldl (fun c op => (op.abstract c).1) c

/-- The call returns, hands back what the deques hand back, keeps every buffer
valid and changes the contents as the deques change. -/
def Simulated (s : ι → Buffer) (op : StoreOp ι) : Prop :=
  ∃ t, op.exec s = .ok (t, (op.abstract fun i => (s i).content).2) ∧
    (∀ i, (t i).Valid) ∧
    (∀ i, (t i).content = (op.abstract fun i => (s i).content).1 i) ∧
    op.Post s t

theorem simulated_of_pre {s : ι → Buffer} {op : StoreOp ι}
    (hs : ∀ i, (s i).Valid) (hpre : op.Pre s) : op.Simulated s := by
  cases op with
  | on i op =>
      obtain ⟨b', heq, hvalid, hcontent, hpost⟩ :=
        BufferOp.exec_spec (hs i) hpre
      refine ⟨Function.update s i b', ?_, ?_, ?_, ?_⟩
      · simp [exec, heq, abstract]
      · intro j
        by_cases hj : j = i
        · subst hj
          simpa using hvalid
        · simpa [hj] using hs j
      · intro j
        by_cases hj : j = i
        · subst hj
          simpa [abstract] using hcontent
        · simp [abstract, hj]
      · simpa [Post] using hpost
  | swap i j =>
      refine ⟨_, rfl, ?_, ?_, trivial⟩
      · intro k
        by_cases hj : k = j
        · subst hj
          simpa [Buffer.swap] using hs i
        · by_cases hi : k = i
          · subst hi
            simpa [Buffer.swap, hj] using hs j
          · simpa [hi, hj] using hs k
      · intro k
        by_cases hj : k = j
        · subst hj
          simp [abstract, Buffer.content]
        · by_cases hi : k = i
          · subst hi
            simp [abstract, Buffer.content, hj]
          · simp [abstract, hi, hj]

theorem step_eq_some_of_simulated {s : ι → Buffer} {op : StoreOp ι}
    (h : op.Simulated s) :
    ∃ t, step s op = some t ∧ (∀ i, (t i).Valid) ∧
      ∀ i, (t i).content = (op.abstract fun i => (s i).content).1 i := by
  obtain ⟨t, heq, hvalid, hcontent, -⟩ := h
  exact ⟨t, by simp [step, heq], hvalid, hcontent⟩

/-- A run whose calls meet their preconditions, from buffers with the contents
`c`, simulates the run of the deques from `c`. -/
theorem run_simulates {s : ι → Buffer} {ops : List (StoreOp ι)}
    (hs : ∀ i, (s i).Valid)
    (hguard : Guarded step Pre s ops) :
    Guarded step (fun s op => Simulated s op) s ops ∧
      ∃ t, run step s ops = some t ∧ ∀ i, (t i).Valid ∧
        (t i).content = abstractRun (fun i => (s i).content) ops i := by
  induction ops generalizing s with
  | nil => exact ⟨trivial, s, rfl, fun i => ⟨hs i, rfl⟩⟩
  | cons op ops ih =>
      have hsim : op.Simulated s := simulated_of_pre hs hguard.1
      obtain ⟨next, hstep, hvalid, hcontent⟩ :=
        step_eq_some_of_simulated hsim
      obtain ⟨hrest, t, hrun, ht⟩ := ih hvalid (hguard.2 next hstep)
      have habs : (fun i => (next i).content) =
          (op.abstract fun i => (s i).content).1 := funext hcontent
      refine ⟨⟨hsim, ?_⟩, t, ?_, ?_⟩
      · intro other hother
        have heq : other = next := by simpa [hstep] using hother.symm
        exact heq ▸ hrest
      · exact run_cons_eq_some_iff.mpr ⟨next, hstep, hrun⟩
      · rw [habs] at ht
        exact ht

/-- Every family of newly built buffers refines a family of empty deques: along
every run whose calls meet their preconditions no call fails, every call does
what the deques do, and afterwards every buffer is valid and holds the bytes of
its deque. -/
theorem buffers_refine_deques (initialSize : ι → ℕ)
    (ops : List (StoreOp ι))
    (hsize : ∀ i, Buffer.kCheapPrepend + initialSize i < 2 ^ 63)
    (hpre : Guarded step Pre (fun i => Buffer.fresh (initialSize i)) ops) :
    (∀ i, Buffer.create (initialSize i) =
        .ok (Buffer.fresh (initialSize i))) ∧
      Guarded step (fun s op => Simulated s op)
        (fun i => Buffer.fresh (initialSize i)) ops ∧
      ∃ t, run step (fun i => Buffer.fresh (initialSize i)) ops = some t ∧
        ∀ i, (t i).Valid ∧ (t i).content = abstractRun (fun _ => []) ops i := by
  have hvalid : ∀ i, (Buffer.fresh (initialSize i)).Valid :=
    fun i => (Buffer.fresh_regions (hsize i)).valid
  have hempty : (fun i => (Buffer.fresh (initialSize i)).content) =
      fun _ => [] :=
    funext fun i => (Buffer.fresh_regions (hsize i)).content_eq
  obtain ⟨hsim, t, hrun, ht⟩ := run_simulates hvalid hpre
  rw [hempty] at ht
  exact ⟨fun i => Buffer.create_eq_fresh (hsize i), hsim, t, hrun, ht⟩

/-- Two buffers of size 4, one of which grows, is read into beyond its end, and
is then swapped with the other one. -/
theorem buffers_refine_deques_of_two_small_buffers :
    ∃ t, run step (fun _ : Bool => Buffer.fresh 4)
        [.on true (.append [1, 2, 3]), .on true (.prepend [0]),
          .on true (.retrieve 2), .on true (.ensureWritableBytes 7),
          .on true (.readFd (.stored [4, 5, 6, 7, 8, 9, 10, 11])),
          .on true (.unwrite 1), .swap true false,
          .on true (.readFd (.failed .EWOULDBLOCK)),
          .on false (.retrieveUntil 3)] = some t ∧
      ∀ i, (t i).Valid ∧ (t i).content = abstractRun (fun _ => [])
        [.on true (.append [1, 2, 3]), .on true (.prepend [0]),
          .on true (.retrieve 2), .on true (.ensureWritableBytes 7),
          .on true (.readFd (.stored [4, 5, 6, 7, 8, 9, 10, 11])),
          .on true (.unwrite 1), .swap true false,
          .on true (.readFd (.failed .EWOULDBLOCK)),
          .on false (.retrieveUntil 3)] i :=
  (buffers_refine_deques (fun _ => 4) _ (by decide) (by decide)).2.2

end StoreOp

end EventServer.Network

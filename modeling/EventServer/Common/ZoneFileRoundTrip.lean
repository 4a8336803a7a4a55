import EventServer.Common.ZoneEncoding

/-!
# Reading an encoded zone

Reading the encoding of a zone, in either version, gives the zone back, as long
as its counts fit into the signed integers that the program reads them into.
-/

namespace EventServer.Common

open EventServer.Support EventServer.Support.ByteReader File

variable {d : Data} {rest : List UInt8}

/-! ## Headers -/

/-- The flag that `readDataBlock` gets. -/
def Version.v1 : Version → Bool
  | .one => true
  | .two _ => false

/-- The counts as the program reads them. -/
def Counts.read (c : Counts) : Counters where
  isutccnt := wrapInt c.isutcnt
  isstdcnt := wrapInt c.isstdcnt
  leapcnt := wrapInt c.leapcnt
  timecnt := wrapInt c.timecnt
  typecnt := wrapInt c.typecnt
  charcnt := wrapInt c.charcnt

/-- The counts have four bytes. -/
structure Counts.Encodable (c : Counts) : Prop where
  isutcnt : c.isutcnt < 2 ^ 32
  isstdcnt : c.isstdcnt < 2 ^ 32
  leapcnt : c.leapcnt < 2 ^ 32
  timecnt : c.timecnt < 2 ^ 32
  typecnt : c.typecnt < 2 ^ 32
  charcnt : c.charcnt < 2 ^ 32

theorem reads_readCounters {c : Counts} (hc : c.Encodable) :
    Reads readCounters d c.bytes rest c.read d := by
  unfold readCounters Counts.bytes
  refine Reads.bind (reads_readInt32_unsigned hc.isutcnt) ?_
  refine Reads.bind (reads_readInt32_unsigned hc.isstdcnt) ?_
  refine Reads.bind (reads_readInt32_unsigned hc.leapcnt) ?_
  refine Reads.bind (reads_readInt32_unsigned hc.timecnt) ?_
  refine Reads.bind (reads_readInt32_unsigned hc.typecnt) ?_
  refine Reads.bind_last (reads_readInt32_unsigned hc.charcnt) ?_
  exact Reads.pure _ _ _

/-! ## The sections of a block -/

theorem reads_times {z : Zone} {v1 : Bool} {timeSize : ℕ}
    (htime : ∀ tr ∈ z.transitions, ∀ d rest,
      Reads (if v1 then File.readInt32 else File.readInt64) d
        (signedBigEndian timeSize tr.time) rest tr.time d) :
    Reads (loop (readTime v1) z.transitions.length []) d
      (z.transitions.flatMap fun tr => signedBigEndian timeSize tr.time) rest
      (z.transitions.map ZoneTransition.time) d := by
  apply Reads.loop _ _ z.transitions (List.map ZoneTransition.time) (fun _ => d)
  intro read tr later rest hitems
  have hmem : tr ∈ z.transitions := by simp [hitems]
  have hread := htime tr hmem d ([] ++ rest)
  rw [List.map_append]
  cases v1 with
  | true => exact Reads.bind_last hread (Reads.pure _ _ _)
  | false => exact Reads.bind_last hread (Reads.pure _ _ _)

theorem reads_indices (trs : List ZoneTransition) :
    Reads (loop readIndex trs.length []) d (trs.flatMap fun tr => [tr.type])
      rest (trs.map fun tr => (tr.type.toNat : ℤ)) d := by
  apply Reads.loop _ _ trs (List.map fun tr => (tr.type.toNat : ℤ)) (fun _ => d)
  intro read tr later rest hitems
  rw [List.map_append]
  exact Reads.bind_last (reads_readUInt8 tr.type) (Reads.pure _ _ _)

theorem reads_readLocalTime (ty : ZoneType) :
    Reads (readLocalTime ()) d ty.bytes rest ()
      { d with localtimes := d.localtimes ++ [ty.localTime] } := by
  have hdst : decide ((((if ty.isDst then 1 else 0 : UInt8).toNat : ℕ) : ℤ) ≠
      0) = ty.isDst := by
    cases ty.isDst
    · decide
    · decide
  refine Reads.bind (reads_readInt32 ty.offset_isInt) ?_
  refine Reads.bind (reads_readUInt8 _) ?_
  refine Reads.bind_last (reads_readUInt8 _) ?_
  rw [hdst]
  exact reads_modifyData _ _ _

theorem reads_types (types : List ZoneType) :
    Reads (loop readLocalTime types.length ()) d
      (types.flatMap ZoneType.bytes) rest ()
      { d with localtimes :=
          d.localtimes ++ types.map ZoneType.localTime } := by
  have hloop := Reads.loop readLocalTime ZoneType.bytes types (fun _ => ())
    (fun read => { d with localtimes :=
      d.localtimes ++ read.map ZoneType.localTime }) ?_ rest
  · rw [List.map_nil, List.append_nil] at hloop
    exact hloop
  intro read ty later rest hitems
  rw [List.map_append, ← List.append_assoc]
  exact reads_readLocalTime ty

/-- The transition that the type with the index in the file makes. -/
theorem reads_storeTransition {z : Zone} {read later : List ZoneTransition}
    {tr : ZoneTransition} (htrs : z.transitions = read ++ tr :: later)
    (hlocal : d.localtimes = z.types.map ZoneType.localTime) :
    Reads (storeTransition (z.transitions.map ZoneTransition.time)
        (z.transitions.map fun tr => (tr.type.toNat : ℤ)) read.length)
      d [] rest (read.length + 1)
      { d with transitions := d.transitions ++ [z.transition tr] } := by
  have hget : z.transitions[read.length]? = some tr := by simp [htrs]
  have hindex := z.type_lt tr (List.mem_of_getElem? hget)
  obtain ⟨ty, hty⟩ : ∃ ty, z.types[tr.type.toNat]? = some ty :=
    ⟨_, List.getElem?_eq_getElem hindex⟩
  have htime : IsInt64 (tr.time + ty.utcOffset) := by
    have hoffset := ty.offset_isInt
    have htr := abs_le.mp tr.time_le
    unfold IsInt at hoffset
    unfold IsInt64
    omega
  have htransition : z.transition tr =
      ⟨tr.time, tr.time + ty.utcOffset, tr.type.toNat⟩ := by
    simp [Zone.transition, List.getD_eq_getElem?_getD, hty]
  rw [htransition]
  refine Reads.bind_nil
    (reads_checked (vectorAt_natCast (x := (tr.type.toNat : ℤ)) ?_)) ?_
  · simp [hget]
  refine Reads.bind_nil
    (reads_checked (vectorAt_natCast (x := tr.time) ?_)) ?_
  · simp [hget]
  have htype : vectorAt d.localtimes (tr.type.toNat : ℤ) =
      .ok ty.localTime := by
    apply vectorAt_natCast
    simp [hlocal, hty]
  exact Reads.bind_nil (reads_addTransition htype htime) (Reads.pure _ _ _)

theorem reads_transitions {z : Zone}
    (hlocal : d.localtimes = z.types.map ZoneType.localTime) :
    Reads (loop (storeTransition (z.transitions.map ZoneTransition.time)
        (z.transitions.map fun tr => (tr.type.toNat : ℤ)))
          z.transitions.length 0) d [] rest z.transitions.length
      { d with transitions :=
          d.transitions ++ z.transitions.map z.transition } := by
  have hloop := Reads.loop
    (storeTransition (z.transitions.map ZoneTransition.time)
      (z.transitions.map fun tr => (tr.type.toNat : ℤ)))
    (fun _ => []) z.transitions List.length
    (fun read => { d with transitions :=
      d.transitions ++ read.map z.transition }) ?_ rest
  · have hnil : z.transitions.flatMap (fun _ => ([] : List UInt8)) = [] := by
      simp
    rw [hnil, List.map_nil, List.append_nil] at hloop
    exact hloop
  intro read tr later rest hitems
  rw [List.map_append, ← List.append_assoc, List.length_append]
  exact reads_storeTransition hitems hlocal

/-! ## A whole block -/

/-- The counts fit into the `int32_t` that they are read into. -/
structure Zone.Countable (z : Zone) : Prop where
  transitions : z.transitions.length < 2 ^ 31
  types : z.types.length < 2 ^ 31
  designations : z.designations.length < 2 ^ 31

namespace Zone

variable {z : Zone} {v : Version}

theorem Countable.isstd (h : z.Countable) : z.isstd.length < 2 ^ 31 := by
  have hm := h.types
  rcases z.isstd_length with hnil | hlen
  · simp [hnil]
  · omega

theorem Countable.isut (h : z.Countable) : z.isut.length < 2 ^ 31 := by
  have hm := h.types
  rcases z.isut_length with hnil | hlen
  · simp [hnil]
  · omega

theorem Countable.encodable (h : z.Countable) : z.counts.Encodable where
  isutcnt := lt_trans h.isut (by decide)
  isstdcnt := lt_trans h.isstd (by decide)
  leapcnt := Nat.two_pow_pos 32
  timecnt := lt_trans h.transitions (by decide)
  typecnt := lt_trans h.types (by decide)
  charcnt := lt_trans h.designations (by decide)

theorem wrapInt_natCast {n : ℕ} (hn : n < 2 ^ 31) : wrapInt n = n :=
  wrapInt_eq (by omega) (by omega)

/-- The program reads the counts as they are. -/
theorem Countable.read_eq (h : z.Countable) :
    z.counts.read = ⟨z.isut.length, z.isstd.length, 0, z.transitions.length,
      z.types.length, z.designations.length⟩ := by
  simp only [Counts.read, counts, wrapInt_natCast h.isut,
    wrapInt_natCast h.isstd, wrapInt_natCast h.transitions,
    wrapInt_natCast h.types, wrapInt_natCast h.designations]
  rfl

theorem reads_time (hz : z.Fits v) :
    ∀ tr ∈ z.transitions, ∀ d rest,
      Reads (if v.v1 then File.readInt32 else File.readInt64) d
        (signedBigEndian v.timeSize tr.time) rest tr.time d := by
  intro tr htr d rest
  cases v with
  | one => exact reads_readInt32 (hz tr htr)
  | two block =>
      have htime := abs_le.mp tr.time_le
      exact reads_readInt64 ⟨by omega, by omega⟩

/-- An array of indicators is empty or has an element for each type. -/
theorem indicators_check {n m : ℕ} (h : n = 0 ∨ n = m) :
    ¬ (wrapInt n ≠ 0 ∧ wrapInt n ≠ wrapInt m) := by
  rintro ⟨hne, hlen⟩
  rcases h with rfl | rfl
  · exact hne (by decide)
  · exact hlen rfl

theorem isut_check (z : Zone) :
    ¬ (z.counts.read.isutccnt ≠ 0 ∧
      z.counts.read.isutccnt ≠ z.counts.read.typecnt) := by
  simp only [Counts.read, counts]
  exact indicators_check (z.isut_length.imp_left (congrArg List.length))

theorem isstd_check (z : Zone) :
    ¬ (z.counts.read.isstdcnt ≠ 0 ∧
      z.counts.read.isstdcnt ≠ z.counts.read.typecnt) := by
  simp only [Counts.read, counts]
  exact indicators_check (z.isstd_length.imp_left (congrArg List.length))

theorem leap_check (z : Zone) : ¬ z.counts.read.leapcnt ≠ 0 := by
  simp only [Counts.read, counts]
  decide

theorem reads_reserve_length {α : Type} {elementSize : ℕ} {xs : List α}
    (hlen : xs.length < 2 ^ 31)
    (hsize : 2 ^ 31 ≤ vectorMaxSize / elementSize) :
    Reads (reserve elementSize xs.length) d [] rest () d :=
  reads_reserve (by omega) (by omega) (by omega)

section Times

variable {α : Type} {k : List ℤ → List ℤ → Reading α} {stack : ℕ}
  {xs : List UInt8} {a : α} {d' : Data} {e : ReadError}

/-- The times and the types of the transitions, in front of the rest of a
block. -/
theorem reads_timesAndIndices (hz : z.Fits v)
    (hlen : z.transitions.length < 2 ^ 31)
    (hk : Reads (k (z.transitions.map ZoneTransition.time)
      (z.transitions.map fun tr => (tr.type.toNat : ℤ))) d xs rest a d') :
    Reads (do
      reserve 8 z.transitions.length
      let trans ← loop (readTime v.v1) z.transitions.length []
      reserve 4 z.transitions.length
      let localtimes ← loop readIndex z.transitions.length []
      k trans localtimes) d
      (z.transitions.flatMap (fun tr => signedBigEndian v.timeSize tr.time) ++
        (z.transitions.flatMap (fun tr => [tr.type]) ++ xs)) rest a d' := by
  refine Reads.bind_nil (reads_reserve_length hlen (by decide)) ?_
  refine Reads.bind (reads_times (reads_time hz)) ?_
  refine Reads.bind_nil (reads_reserve_length hlen (by decide)) ?_
  exact Reads.bind (reads_indices z.transitions) hk

theorem throws_timesAndIndices (hz : z.Fits v)
    (hlen : z.transitions.length < 2 ^ 31)
    (hk : Throws (k (z.transitions.map ZoneTransition.time)
      (z.transitions.map fun tr => (tr.type.toNat : ℤ))) d xs e d') :
    Throws (do
      reserve 8 z.transitions.length
      let trans ← loop (readTime v.v1) z.transitions.length []
      reserve 4 z.transitions.length
      let localtimes ← loop readIndex z.transitions.length []
      k trans localtimes) d
      (z.transitions.flatMap (fun tr => signedBigEndian v.timeSize tr.time) ++
        (z.transitions.flatMap (fun tr => [tr.type]) ++ xs)) e d' := by
  refine Reads.bind_nil_throws (reads_reserve_length hlen (by decide)) ?_
  refine Reads.bind_throws (reads_times (reads_time hz)) ?_
  refine Reads.bind_nil_throws (reads_reserve_length hlen (by decide)) ?_
  exact Reads.bind_throws (reads_indices z.transitions) hk

end Times

/-- A block of version 1 may be followed by more bytes. -/
theorem reads_readDataBlock (h : z.Countable) (hz : z.Fits v) {stack : ℕ}
    (hstack : z.designations.length ≤ stack) (hrest : v = .one ∨ rest = []) :
    Reads (readDataBlock stack v.v1) .empty
      (z.counts.bytes ++ (z.dataBlock v.timeSize ++ z.trailer v)) rest true
      (z.data v) := by
  unfold readDataBlock Zone.dataBlock
  simp only [List.append_assoc]
  refine Reads.bind (reads_readCounters h.encodable) ?_
  rw [if_neg z.leap_check, if_neg z.isut_check, if_neg z.isstd_check,
    h.read_eq]
  simp only [Int.toNat_natCast]
  refine reads_timesAndIndices hz h.transitions ?_
  refine Reads.bind_nil (reads_reserve_length h.types (by decide)) ?_
  refine Reads.bind (reads_types z.types) ?_
  refine Reads.bind_nil (reads_transitions rfl) ?_
  refine Reads.bind (reads_readBytes rfl hstack) ?_
  refine Reads.bind_nil (reads_modifyData _ _ _) ?_
  rw [zero_mul]
  refine Reads.bind_nil (reads_checked (if_pos (by decide))) ?_
  refine Reads.bind_nil (reads_skip rfl _ _) ?_
  refine Reads.bind (reads_skip rfl _ _) ?_
  refine Reads.bind (reads_skip rfl _ _) ?_
  cases v with
  | one => exact Reads.pure _ _ _
  | two block =>
      obtain rfl : rest = [] := hrest.resolve_left (by simp)
      refine Reads.bind_last reads_readToEnd ?_
      exact Reads.bind_nil (reads_modifyData _ _ _) (Reads.pure _ _ _)

end Zone

/-! ## The block in front -/

/-- Each count of a block is at most its size. -/
theorem FirstBlock.counts_lt (b : FirstBlock) :
    b.counts.isutcnt < 2 ^ 31 ∧ b.counts.isstdcnt < 2 ^ 31 ∧
      b.counts.leapcnt < 2 ^ 31 ∧ b.counts.timecnt < 2 ^ 31 ∧
      b.counts.typecnt < 2 ^ 31 ∧ b.counts.charcnt < 2 ^ 31 := by
  have hlen := b.length_body
  have hlt := b.length_lt
  unfold Counts.blockSize at hlen
  omega

theorem FirstBlock.encodable (b : FirstBlock) : b.counts.Encodable := by
  obtain ⟨hisut, hisstd, hleap, htime, htype, hchar⟩ := b.counts_lt
  constructor
  all_goals omega

theorem FirstBlock.read_eq (b : FirstBlock) :
    b.counts.read = ⟨b.counts.isutcnt, b.counts.isstdcnt, b.counts.leapcnt,
      b.counts.timecnt, b.counts.typecnt, b.counts.charcnt⟩ := by
  obtain ⟨hisut, hisstd, hleap, htime, htype, hchar⟩ := b.counts_lt
  simp only [Counts.read, Zone.wrapInt_natCast hisut,
    Zone.wrapInt_natCast hisstd, Zone.wrapInt_natCast hleap,
    Zone.wrapInt_natCast htime, Zone.wrapInt_natCast htype,
    Zone.wrapInt_natCast hchar]

/-- The program computes the size of a block whose two products on `int` do
not overflow. -/
theorem Counts.skipSize_eq (c : Counts) (htype : 6 * c.typecnt < 2 ^ 31)
    (hleap : 8 * c.leapcnt < 2 ^ 31) (hsize : c.blockSize < 2 ^ 64) :
    skipSize ⟨c.isutcnt, c.isstdcnt, c.leapcnt, c.timecnt, c.typecnt,
      c.charcnt⟩ = .ok (c.blockSize : ℤ) := by
  unfold Counts.blockSize at *
  unfold skipSize
  dsimp only
  rw [int_of (by omega) (by omega), ok_bind, int_of (by omega) (by omega),
    ok_bind, pure_eq_ok, Except.ok.injEq, Int.emod_eq_of_lt]
  · omega
  · omega
  · omega

theorem FirstBlock.skipSize_eq (b : FirstBlock) :
    skipSize b.counts.read = .ok (b.body.length : ℤ) := by
  have hlen : b.body.length = b.counts.blockSize := b.length_body
  have hlt := b.length_lt
  have hparts : b.counts.blockSize < 2 ^ 31 := hlen ▸ hlt
  unfold Counts.blockSize at hparts
  rw [b.read_eq, hlen]
  exact b.counts.skipSize_eq (by omega) (by omega) (by omega)

/-! ## What the version leads to -/

theorem Counts.bytes_length (c : Counts) : c.bytes.length = 24 := by
  simp [Counts.bytes]

section Header

variable {c : Counts} {version : UInt8} {stack : ℕ} {body block : List UInt8}
  {result : Bool} {d' : Data} {e : ReadError}

/-- The version and the reserved bytes of a header, in front of its counts. -/
theorem reads_header {α : Type} {k : List UInt8 → Reading α} {a : α}
    {xs : List UInt8} (hstack : 15 ≤ stack)
    (hk : Reads (k [version]) d (c.bytes ++ xs) rest a d') :
    Reads (do
      readHead stack
      let version ← readBytes stack 1
      let _ ← readBytes stack 15
      k version) d (header version c ++ xs) rest a d' := by
  unfold header
  simp only [List.append_assoc]
  refine Reads.bind (reads_readHead (by omega)) ?_
  refine Reads.bind (reads_readBytes rfl (by simp; omega)) ?_
  exact Reads.bind (reads_readBytes (by simp) (by simpa)) hk

theorem throws_header {α : Type} {k : List UInt8 → Reading α}
    {xs : List UInt8} (hstack : 15 ≤ stack)
    (hk : Throws (k [version]) d (c.bytes ++ xs) e d') :
    Throws (do
      readHead stack
      let version ← readBytes stack 1
      let _ ← readBytes stack 15
      k version) d (header version c ++ xs) e d' := by
  unfold header
  simp only [List.append_assoc]
  refine Reads.bind_throws (reads_readHead (by omega)) ?_
  refine Reads.bind_throws (reads_readBytes rfl (by simp; omega)) ?_
  exact Reads.bind_throws (reads_readBytes (by simp) (by simpa)) hk

/-- Behind a header of another version than 2 the first block is read. -/
theorem reads_readOpened_first (hversion : version ≠ 0x32)
    (hc : c.Encodable) (hstack : 15 ≤ stack)
    (hblock : Reads (readDataBlock stack true) d (c.bytes ++ block) rest
      result d') :
    Reads (readOpened stack) d (header version c ++ block) rest result d' := by
  have hne : ¬ ([version] : List UInt8) = [0x32] := by simpa using hversion
  refine reads_header hstack ?_
  simp only [if_neg hne]
  exact Reads.rewind (by simp [c.bytes_length]) (reads_readCounters hc) hblock

theorem throws_readOpened_first (hversion : version ≠ 0x32)
    (hc : c.Encodable) (hstack : 15 ≤ stack)
    (hblock : Throws (readDataBlock stack true) d (c.bytes ++ block) e d') :
    Throws (readOpened stack) d (header version c ++ block) e d' := by
  have hne : ¬ ([version] : List UInt8) = [0x32] := by simpa using hversion
  refine throws_header hstack ?_
  simp only [if_neg hne]
  exact Throws.rewind (by simp [c.bytes_length]) (reads_readCounters hc) hblock

/-- The program computes the size of the first block, as it is. -/
structure Counts.Skips (c : Counts) (body : List UInt8) : Prop where
  encodable : c.Encodable
  skipSize_eq : skipSize c.read = .ok (body.length : ℤ)
  length_lt : body.length < 2 ^ 63

theorem Counts.Skips.skip_eq (h : c.Skips body) :
    (body.length : ℤ).bmod (2 ^ 64) = body.length := by
  have hlt := h.length_lt
  exact Int.bmod_eq_of_le (by omega) (by omega)

/-- Behind a header of version 2 the second block is read. -/
theorem reads_readOpened_second (h : c.Skips body) (hstack : 15 ≤ stack)
    {c' : Counts} (hblock : Reads (readDataBlock stack false) d
      (c'.bytes ++ block) rest result d') :
    Reads (readOpened stack) d (header 0x32 c ++ (body ++
      (header version c' ++ block))) rest result d' := by
  refine reads_header hstack ?_
  refine Reads.bind (reads_readCounters h.encodable) ?_
  rw [if_pos rfl]
  unfold header
  simp only [List.append_assoc]
  refine Reads.bind_nil (reads_checked h.skipSize_eq) ?_
  rw [h.skip_eq]
  refine Reads.bind (reads_skip rfl _ _) ?_
  refine Reads.bind (reads_readHead (by omega)) ?_
  rw [← List.append_assoc [_] (List.replicate 15 0)]
  exact Reads.bind (reads_skip (by simp) _ _) hblock

theorem throws_readOpened_second (h : c.Skips body) (hstack : 15 ≤ stack)
    {c' : Counts} (hblock : Throws (readDataBlock stack false) d
      (c'.bytes ++ block) e d') :
    Throws (readOpened stack) d (header 0x32 c ++ (body ++
      (header version c' ++ block))) e d' := by
  refine throws_header hstack ?_
  refine Reads.bind_throws (reads_readCounters h.encodable) ?_
  rw [if_pos rfl]
  unfold header
  simp only [List.append_assoc]
  refine Reads.bind_nil_throws (reads_checked h.skipSize_eq) ?_
  rw [h.skip_eq]
  refine Reads.bind_throws (reads_skip rfl _ _) ?_
  refine Reads.bind_throws (reads_readHead (by omega)) ?_
  rw [← List.append_assoc [_] (List.replicate 15 0)]
  exact Reads.bind_throws (reads_skip (by simp) _ _) hblock

/-- The reserved bytes of a header have to fit on the stack. -/
theorem throws_readOpened_small (hstack : stack < 15) :
    Throws (readOpened stack) d (header version c ++ block)
      (.fault .stackOverflow) d := by
  unfold readOpened
  by_cases hhead : 4 ≤ stack
  · unfold header
    simp only [List.append_assoc]
    refine Reads.bind_throws (reads_readHead hhead) ?_
    refine Reads.bind_throws (reads_readBytes rfl (by simp; omega)) ?_
    exact Throws.bind (throws_readBytes_large (by omega))
  · exact Throws.bind (Throws.bind (throws_readBytes_large (by omega)))

/-- The size of the first block overflows. -/
theorem throws_readOpened_size (hc : c.Encodable) (hstack : 15 ≤ stack)
    {fault : Fault} (hsize : skipSize c.read = .error fault) :
    Throws (readOpened stack) d (header 0x32 c ++ block) (.fault fault) d := by
  refine throws_header hstack ?_
  refine Reads.bind_throws (reads_readCounters hc) ?_
  rw [if_pos rfl]
  exact Throws.bind (throws_checked hsize)

end Header

theorem FirstBlock.skips (b : FirstBlock) : b.counts.Skips b.body where
  encodable := b.encodable
  skipSize_eq := b.skipSize_eq
  length_lt := lt_trans b.length_lt (by decide)

/-! ## A whole file -/

namespace Zone

variable {z : Zone} {v : Version}

theorem reads_readOpened_one (h : z.Countable) (hz : z.Fits .one) {stack : ℕ}
    (hstack : 15 ≤ stack) (hdesig : z.designations.length ≤ stack)
    {version : UInt8} (hversion : version ≠ 0x32) :
    Reads (readOpened stack) .empty (header version z.counts ++ z.dataBlock 4)
      rest true (z.data .one) := by
  have hblock : Reads (readDataBlock stack true) .empty
      (z.counts.bytes ++ (z.dataBlock 4 ++ z.trailer .one)) rest true
      (z.data .one) :=
    reads_readDataBlock h hz hdesig (Or.inl rfl)
  rw [show z.trailer .one = [] from rfl, List.append_nil] at hblock
  exact reads_readOpened_first hversion h.encodable hstack hblock

theorem reads_readOpened_two (h : z.Countable) (block : FirstBlock)
    {stack : ℕ} (hstack : 15 ≤ stack)
    (hdesig : z.designations.length ≤ stack) :
    Reads (readOpened stack) .empty (z.encode (.two block)) [] true
      (z.data (.two block)) := by
  have hblock := reads_readDataBlock (v := .two block) h trivial hdesig
    (Or.inr rfl)
  exact reads_readOpened_second block.skips hstack hblock

theorem readTimeZoneFile_of_reads {stack : ℕ} {bytes : List UInt8}
    {d d' : Data} {result : Bool}
    (h : Reads (readOpened stack) d bytes rest result d') :
    readTimeZoneFile stack (some (bytes ++ rest)) d = .ok result d' := by
  have hstart : (readOpened stack).run (⟨bytes ++ rest, 0⟩, d) =
      .ok result (.between ([] ++ bytes) rest, d') := h []
  simp only [readTimeZoneFile, hstart]

end Zone

/-- Reading the encoding of a zone gives the zone back, if its counts fit into
`int32_t`. -/
theorem readTimeZoneFile_encode {z : Zone} {v : Version} {stack : ℕ}
    (hcounts : z.Countable) (htimes : z.Fits v) (hstack : 15 ≤ stack)
    (hdesig : z.designations.length ≤ stack) :
    readTimeZoneFile stack (some (z.encode v)) .empty = .ok true (z.data v) := by
  rw [← List.append_nil (z.encode v)]
  apply Zone.readTimeZoneFile_of_reads
  cases v with
  | one =>
      exact Zone.reads_readOpened_one hcounts htimes hstack hdesig (by decide)
  | two block => exact Zone.reads_readOpened_two hcounts block hstack hdesig

/-- The last transitions of China. -/
def prcZone : Zone where
  transitions := [⟨621968400, 0, by decide⟩, ⟨640116000, 1, by decide⟩,
    ⟨653418000, 0, by decide⟩, ⟨671565600, 1, by decide⟩,
    ⟨684867600, 0, by decide⟩]
  types := [⟨28800, false, 0, by decide⟩, ⟨32400, true, 4, by decide⟩]
  designations := [0x43, 0x53, 0x54, 0, 0x43, 0x44, 0x54, 0]
  isstd := [0, 0]
  isut := []
  footer := [0x0a, 0x43, 0x53, 0x54, 0x2d, 0x38, 0x0a]
  types_ne := by decide
  type_lt := by decide
  designations_ne := by decide
  isstd_length := by decide
  isut_length := by decide

/-- A block with a leap second, a type and its designation. -/
def leapBlock : FirstBlock where
  counts := ⟨0, 0, 1, 0, 1, 1⟩
  body := List.replicate 15 0
  length_body := by decide
  length_lt := by decide

theorem prcZone_read :
    readTimeZoneFile 4096 (some (prcZone.encode .one)) .empty =
        .ok true (prcZone.data .one) ∧
      readTimeZoneFile 4096 (some (prcZone.encode (.two leapBlock))) .empty =
        .ok true (prcZone.data (.two leapBlock)) := by
  have hcounts : prcZone.Countable := ⟨by decide, by decide, by decide⟩
  have htimes : ∀ tr ∈ prcZone.transitions, IsInt tr.time := by decide
  constructor
  · exact readTimeZoneFile_encode hcounts htimes (by decide) (by decide)
  · exact readTimeZoneFile_encode hcounts trivial (by decide) (by decide)

/-! ## Counts that do not fit -/

namespace Zone

variable {z : Zone} {v : Version} {stack : ℕ} {xs : List UInt8}

theorem wrapInt_large_natCast {n : ℕ} (hlow : 2 ^ 31 ≤ n) (hhigh : n < 2 ^ 32) :
    -2 ^ 31 ≤ wrapInt n ∧ wrapInt n < 0 := by
  rw [wrapInt_of_large (by omega) (by omega)]
  omega

theorem read_timecnt (z : Zone) :
    z.counts.read.timecnt = wrapInt z.transitions.length := by
  simp only [Counts.read, counts]

theorem read_typecnt (z : Zone) :
    z.counts.read.typecnt = wrapInt z.types.length := by
  simp only [Counts.read, counts]

theorem read_charcnt (z : Zone) :
    z.counts.read.charcnt = wrapInt z.designations.length := by
  simp only [Counts.read, counts]

/-- From `2 ^ 31` on the number of transitions is read as a negative one. -/
theorem throws_many_transitions (hcounts : z.counts.Encodable)
    (hlow : 2 ^ 31 ≤ z.transitions.length) :
    Throws (readDataBlock stack v.v1) d (z.counts.bytes ++ xs) .logicError
      d := by
  have htime := wrapInt_large_natCast hlow hcounts.timecnt
  unfold readDataBlock
  refine Reads.bind_throws (reads_readCounters hcounts) ?_
  rw [if_neg z.leap_check, if_neg z.isut_check, if_neg z.isstd_check,
    z.read_timecnt]
  exact Throws.bind (throws_reserve htime.1 htime.2)

theorem throws_many_types (hcounts : z.counts.Encodable) (hz : z.Fits v)
    (htrans : z.transitions.length < 2 ^ 31)
    (hlow : 2 ^ 31 ≤ z.types.length) :
    Throws (readDataBlock stack v.v1) d
      (z.counts.bytes ++ (z.dataBlock v.timeSize ++ xs)) .logicError d := by
  have htype := wrapInt_large_natCast hlow hcounts.typecnt
  have htime : z.counts.read.timecnt = z.transitions.length :=
    z.read_timecnt.trans (wrapInt_natCast htrans)
  unfold readDataBlock dataBlock
  simp only [List.append_assoc]
  refine Reads.bind_throws (reads_readCounters hcounts) ?_
  rw [if_neg z.leap_check, if_neg z.isut_check, if_neg z.isstd_check, htime]
  simp only [Int.toNat_natCast]
  refine throws_timesAndIndices hz htrans ?_
  rw [z.read_typecnt]
  exact Throws.bind (throws_reserve htype.1 htype.2)

/-- The reading of the designation bytes fails. -/
theorem throws_designations (hcounts : z.counts.Encodable) (hz : z.Fits v)
    (htrans : z.transitions.length < 2 ^ 31)
    (htypes : z.types.length < 2 ^ 31) {e : ReadError}
    (hread : ∀ d xs, Throws (File.readBytes stack
      (wrapInt z.designations.length)) d xs e d) :
    Throws (readDataBlock stack v.v1) .empty
      (z.counts.bytes ++ (z.dataBlock v.timeSize ++ xs)) e
      ⟨z.transitions.map z.transition, z.types.map ZoneType.localTime, [],
        []⟩ := by
  have htime : z.counts.read.timecnt = z.transitions.length :=
    z.read_timecnt.trans (wrapInt_natCast htrans)
  have htype : z.counts.read.typecnt = z.types.length :=
    z.read_typecnt.trans (wrapInt_natCast htypes)
  unfold readDataBlock dataBlock
  simp only [List.append_assoc]
  refine Reads.bind_throws (reads_readCounters hcounts) ?_
  rw [if_neg z.leap_check, if_neg z.isut_check, if_neg z.isstd_check, htime,
    htype]
  simp only [Int.toNat_natCast]
  refine throws_timesAndIndices hz htrans ?_
  refine Reads.bind_nil_throws (reads_reserve_length htypes (by decide)) ?_
  refine Reads.bind_throws (reads_types z.types) ?_
  refine Reads.bind_nil_throws (reads_transitions rfl) ?_
  rw [z.read_charcnt]
  exact Throws.bind (hread _ _)

/-- From `2 ^ 31` on the number of designation bytes is read as a negative
length of an array. -/
theorem throws_many_designations (hcounts : z.counts.Encodable)
    (hz : z.Fits v) (htrans : z.transitions.length < 2 ^ 31)
    (htypes : z.types.length < 2 ^ 31)
    (hlow : 2 ^ 31 ≤ z.designations.length) :
    Throws (readDataBlock stack v.v1) .empty
      (z.counts.bytes ++ (z.dataBlock v.timeSize ++ xs)) (.fault .stackArray)
      ⟨z.transitions.map z.transition, z.types.map ZoneType.localTime, [],
        []⟩ := by
  have hchar := wrapInt_large_natCast hlow hcounts.charcnt
  exact throws_designations hcounts hz htrans htypes
    fun _ _ => throws_readBytes hchar.2

/-- More designation bytes than the stack has room for. -/
theorem throws_large_designations (h : z.Countable) (hz : z.Fits v)
    (hlarge : stack < z.designations.length) :
    Throws (readDataBlock stack v.v1) .empty
      (z.counts.bytes ++ (z.dataBlock v.timeSize ++ xs)) (.fault .stackOverflow)
      ⟨z.transitions.map z.transition, z.types.map ZoneType.localTime, [],
        []⟩ := by
  have hchar : (stack : ℤ) < wrapInt z.designations.length := by
    rw [wrapInt_natCast h.designations]
    exact_mod_cast hlarge
  exact throws_designations h.encodable hz h.transitions h.types
    fun _ _ => throws_readBytes_large hchar

theorem throws_readOpened {block : FirstBlock} {e : ReadError} {d' : Data}
    (hstack : 15 ≤ stack)
    (hblock : Throws (readDataBlock stack false) d
      (z.counts.bytes ++ (z.dataBlock 8 ++ z.footer)) e d') :
    Throws (readOpened stack) d (z.encode (.two block)) e d' :=
  throws_readOpened_second block.skips hstack hblock

theorem readTimeZoneFile_of_logicError {bytes : List UInt8} {d d' : Data}
    (h : Throws (readOpened stack) d bytes .logicError d') :
    readTimeZoneFile stack (some bytes) d = .ok false d' := by
  obtain ⟨f, hrun⟩ := h []
  have hstart : (readOpened stack).run (⟨bytes, 0⟩, d) =
      .error .logicError (f, d') := hrun
  simp only [readTimeZoneFile, hstart]

theorem readTimeZoneFile_of_fault {bytes : List UInt8} {d d' : Data}
    {fault : Fault} (h : Throws (readOpened stack) d bytes (.fault fault) d') :
    readTimeZoneFile stack (some bytes) d = .error fault d' := by
  obtain ⟨f, hrun⟩ := h []
  have hstart : (readOpened stack).run (⟨bytes, 0⟩, d) =
      .error (.fault fault) (f, d') := hrun
  simp only [readTimeZoneFile, hstart]

/-- `n` transitions, each at the start of the epoch, to the first of `m` types
with `c` designation bytes. -/
def uniform (n m c : ℕ) (hm : m ≠ 0) (hc : c ≠ 0) : Zone where
  transitions := List.replicate n ⟨0, 0, by decide⟩
  types := List.replicate m ⟨0, false, 0, by decide⟩
  designations := List.replicate c 0
  isstd := []
  isut := []
  footer := []
  types_ne := by simpa using hm
  type_lt := by
    intro tr htr
    rw [List.eq_of_mem_replicate htr, List.length_replicate]
    exact Nat.pos_of_ne_zero hm
  designations_ne := by simpa using hc
  isstd_length := Or.inl rfl
  isut_length := Or.inl rfl

theorem uniform_encodable {n m c : ℕ} {hm : m ≠ 0} {hc : c ≠ 0}
    (hn : n < 2 ^ 32) (hm' : m < 2 ^ 32) (hc' : c < 2 ^ 32) :
    (uniform n m c hm hc).counts.Encodable := by
  constructor
  all_goals
    simp only [uniform, counts, List.length_replicate, List.length_nil]
    omega

end Zone

/-- Zones with `2 ^ 31` transitions or types are rejected; with as many
designation bytes the behaviour is undefined. -/
theorem large_counts_not_read :
    readTimeZoneFile (2 ^ 31) (some ((Zone.uniform (2 ^ 31) 1 1
        (by decide) (by decide)).encode (.two leapBlock))) .empty =
      .ok false .empty ∧
    readTimeZoneFile (2 ^ 31) (some ((Zone.uniform 0 (2 ^ 31) 1
        (by decide) (by decide)).encode (.two leapBlock))) .empty =
      .ok false .empty ∧
    ∃ data, readTimeZoneFile (2 ^ 31) (some ((Zone.uniform 0 1 (2 ^ 31)
        (by decide) (by decide)).encode (.two leapBlock))) .empty =
      .error .stackArray data := by
  refine ⟨?_, ?_, ?_⟩
  · apply Zone.readTimeZoneFile_of_logicError
    apply Zone.throws_readOpened (by decide)
    apply Zone.throws_many_transitions (v := .two leapBlock)
      (Zone.uniform_encodable (by decide) (by decide) (by decide))
    exact List.length_replicate.ge
  · apply Zone.readTimeZoneFile_of_logicError
    apply Zone.throws_readOpened (by decide)
    apply Zone.throws_many_types (v := .two leapBlock)
      (Zone.uniform_encodable (by decide) (by decide) (by decide)) trivial
    · exact List.length_replicate.trans_lt (by decide)
    · exact List.length_replicate.ge
  · refine ⟨_, Zone.readTimeZoneFile_of_fault
      (Zone.throws_readOpened (by decide)
        (Zone.throws_many_designations (v := .two leapBlock)
          (Zone.uniform_encodable (by decide) (by decide) (by decide)) trivial
          ?_ ?_ ?_))⟩
    · exact List.length_replicate.trans_lt (by decide)
    · exact List.length_replicate.trans_lt (by decide)
    · exact List.length_replicate.ge

end EventServer.Common

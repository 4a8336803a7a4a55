import EventServer.Common.TimeZone
import EventServer.Support.BigEndian
import EventServer.Support.ByteReader

/-!
# Zone files

The reading of a compiled zone file in `TimeZone.cc`.  `fread` delivers what is
left of the file, `fseek` may go beyond its end, and a program on `int` fails
where it overflows.  Memory is unbounded, the stack is not.
-/

namespace EventServer.Common

open EventServer.Support EventServer.Support.ByteReader

/-- Why the reading of a zone file stops. -/
inductive ReadError where
  /-- A `std::logic_error`, or one of the classes derived from it, such as
  `std::length_error` and `std::out_of_range`. -/
  | logicError
  /-- Anything that is not caught. -/
  | fault (fault : Fault)
  deriving DecidableEq, Repr

/-- A program on the file and the zone that is read. -/
abbrev Reading := ByteReader ReadError Data

/-- An operation on `int` or on a vector inside a program. -/
def checked {α : Type} : Except Fault α → Reading α
  | .ok a => return a
  | .error fault => throw (.fault fault)

/-! ## The file -/

namespace File

/-- `readBytes`, whose buffer is an array on a stack of the given size. -/
def readBytes (stack : ℕ) (n : ℤ) : Reading (List UInt8) := do
  if n < 0 then throw (.fault .stackArray)
  else if stack < n then throw (.fault .stackOverflow)
  else
    let buf ← fread n.toNat
    if buf.length ≠ n.toNat then throw .logicError else return buf

/-- The rounds of `readToEnd`.  Each but the last one consumes bytes. -/
def readToEndLoop : (fuel : ℕ) → List UInt8 → Reading (List UInt8)
  | 0, result => return result
  | fuel + 1, result => do
      let buf ← fread 4096
      if buf.length > 0 then readToEndLoop fuel (result ++ buf)
      else return result

def readToEnd : Reading (List UInt8) := do
  let (f, _) ← get
  readToEndLoop (f.bytes.length + 1) []

def readInt64 : Reading ℤ := do
  let x ← fread 8
  if x.length ≠ 8 then throw .logicError else return signedValue x

def readInt32 : Reading ℤ := do
  let x ← fread 4
  if x.length ≠ 4 then throw .logicError else return signedValue x

def readUInt8 : Reading ℤ := do
  let x ← fread 1
  if x.length ≠ 1 then throw .logicError else return bigEndianValue x

def skip (bytes : ℤ) : Reading ℤ := fseek bytes

end File

/-! ## The zone -/

namespace Data

/-- A zone without any data. -/
def empty : Data := ⟨[], [], [], []⟩

def addLocalTime (utcOffset : ℤ) (isDst : Bool) (desigIdx : ℤ) :
    Reading Unit :=
  modifyData fun d =>
    { d with localtimes := d.localtimes ++ [⟨utcOffset, isDst, desigIdx⟩] }

/-- `addTransition`; `localtimes.at` throws. -/
def addTransition (utcTime localtimeIdx : ℤ) : Reading Unit := do
  let d ← getData
  match vectorAt d.localtimes localtimeIdx with
  | .error _ => throw .logicError
  | .ok lt =>
      let localtime ← checked (int64 (utcTime + lt.utcOffset))
      modifyData fun d => { d with
        transitions := d.transitions ++ [⟨utcTime, localtime, localtimeIdx⟩] }

end Data

/-! ## The format -/

open File

/-- The counters of a header. -/
structure Counters where
  isutccnt : ℤ
  isstdcnt : ℤ
  leapcnt : ℤ
  timecnt : ℤ
  typecnt : ℤ
  charcnt : ℤ
  deriving DecidableEq, Repr

def readCounters : Reading Counters := do
  let isutccnt ← readInt32
  let isstdcnt ← readInt32
  let leapcnt ← readInt32
  let timecnt ← readInt32
  let typecnt ← readInt32
  let charcnt ← readInt32
  return ⟨isutccnt, isstdcnt, leapcnt, timecnt, typecnt, charcnt⟩

/-- `std::vector::reserve` with elements of the given size; the argument is
converted to `size_t`. -/
def reserve (elementSize : ℕ) (n : ℤ) : Reading Unit := do
  if vectorMaxSize / elementSize < (n % 2 ^ 64).toNat then throw .logicError
  else return ()

/-- A round of the loop over the times of the transitions. -/
def readTime (v1 : Bool) (trans : List ℤ) : Reading (List ℤ) :=
  if v1 then do return trans ++ [← readInt32]
  else do return trans ++ [← readInt64]

/-- A round of the loop over the types of the transitions. -/
def readIndex (localtimes : List ℤ) : Reading (List ℤ) := do
  return localtimes ++ [← readUInt8]

/-- A round of the loop over the local time types. -/
def readLocalTime (_ : Unit) : Reading Unit := do
  let gmtoff ← readInt32
  let isdst ← readUInt8
  let abbrind ← readUInt8
  Data.addLocalTime gmtoff (decide (isdst ≠ 0)) abbrind

/-- A round of the loop that stores the transitions. -/
def storeTransition (trans localtimes : List ℤ) (i : ℕ) : Reading ℕ := do
  let localIdx ← checked (vectorAt localtimes i)
  let time ← checked (vectorAt trans i)
  Data.addTransition time localIdx
  return i + 1

def readDataBlock (stack : ℕ) (v1 : Bool) : Reading Bool := do
  let time_size : ℤ := if v1 then 4 else 8
  let c ← readCounters
  if c.leapcnt ≠ 0 then
    return false
  if c.isutccnt ≠ 0 ∧ c.isutccnt ≠ c.typecnt then
    return false
  if c.isstdcnt ≠ 0 ∧ c.isstdcnt ≠ c.typecnt then
    return false
  reserve 8 c.timecnt
  let trans ← loop (readTime v1) c.timecnt.toNat []
  reserve 4 c.timecnt
  let localtimes ← loop readIndex c.timecnt.toNat []
  reserve 12 c.typecnt
  loop readLocalTime c.typecnt.toNat ()
  let _ ← loop (storeTransition trans localtimes) c.timecnt.toNat 0
  let abbreviation ← readBytes stack c.charcnt
  modifyData fun d => { d with abbreviation := abbreviation }
  let _ ← skip (← checked (int (c.leapcnt * (time_size + 4))))
  let _ ← skip c.isstdcnt
  let _ ← skip c.isutccnt
  if !v1 then
    let tzstring ← readToEnd
    modifyData fun d => { d with tzstring := tzstring }
  return true

/-- `"TZif"`. -/
def magic : List UInt8 := [0x54, 0x5a, 0x69, 0x66]

/-- The test of the first bytes of a header. -/
def readHead (stack : ℕ) : Reading Unit := do
  let head ← readBytes stack 4
  if head ≠ magic then throw .logicError else return ()

/-- The size of the first block, in `size_t`, except for two products of
`int`. -/
def skipSize (c : Counters) : Except Fault ℤ := do
  let typeBytes ← int (6 * c.typecnt)
  let leapBytes ← int (8 * c.leapcnt)
  return (4 * c.timecnt + c.timecnt + typeBytes + c.charcnt + leapBytes +
    c.isstdcnt + c.isutccnt) % 2 ^ 64

/-- The body of the `try` block of `readTimeZoneFile`. -/
def readOpened (stack : ℕ) : Reading Bool := do
  readHead stack
  let version ← readBytes stack 1
  let _ ← readBytes stack 15
  let c ← readCounters
  if version = [0x32] then
    let bytes ← checked (skipSize c)
    -- `skip` takes a signed argument.
    let _ ← skip (bytes.bmod (2 ^ 64))
    readHead stack
    let _ ← skip 16
    readDataBlock stack false
  else
    let _ ← skip (-4 * 6)
    readDataBlock stack true

/-- `readTimeZoneFile`; without a file the opening has failed. -/
def readTimeZoneFile (stack : ℕ) (zonefile : Option (List UInt8))
    (data : Data) : EStateM.Result Fault Data Bool :=
  match zonefile with
  | none => .ok false data
  | some bytes =>
      match (readOpened stack).run (⟨bytes, 0⟩, data) with
      | .ok result (_, data) => .ok result data
      | .error .logicError (_, data) => .ok false data
      | .error (.fault fault) (_, data) => .error fault data

/-- `TimeZone::loadZoneFile`. -/
def TimeZone.loadZoneFile (stack : ℕ) (zonefile : Option (List UInt8)) :
    Except Fault TimeZone :=
  match readTimeZoneFile stack zonefile .empty with
  | .ok true data => .ok ⟨some data⟩
  | .ok false _ => .ok ⟨none⟩
  | .error fault _ => .error fault

/-! ## What the functions make of the bytes in front of them -/

variable {d : Data} {rest : List UInt8}

theorem reads_checked {α : Type} {x : Except Fault α} {a : α}
    (hx : x = .ok a) : Reads (checked x) d [] rest a d := by
  subst hx
  exact Reads.pure _ _ _

theorem throws_checked {α : Type} {x : Except Fault α} {fault : Fault}
    {xs : List UInt8} (hx : x = .error fault) :
    Throws (checked x) d xs (.fault fault) d := by
  subst hx
  exact Throws.throw _ _ _

theorem reads_readBytes {stack : ℕ} {n : ℤ} {xs : List UInt8}
    (hn : n = xs.length) (hstack : xs.length ≤ stack) :
    Reads (readBytes stack n) d xs rest xs d := by
  have hnat : n.toNat = xs.length := by omega
  unfold readBytes
  rw [if_neg (by omega), if_neg (by omega), hnat]
  refine Reads.bind_last (reads_fread rfl _ _) ?_
  rw [if_neg (not_not.mpr rfl)]
  exact Reads.pure _ _ _

theorem throws_readBytes {stack : ℕ} {n : ℤ} {xs : List UInt8}
    (hn : n < 0) :
    Throws (readBytes stack n) d xs (.fault .stackArray) d := by
  unfold readBytes
  rw [if_pos hn]
  exact Throws.throw _ _ _

theorem throws_readBytes_large {stack : ℕ} {n : ℤ} {xs : List UInt8}
    (hn : stack < n) :
    Throws (readBytes stack n) d xs (.fault .stackOverflow) d := by
  unfold readBytes
  rw [if_neg (by omega), if_pos hn]
  exact Throws.throw _ _ _

theorem reads_readHead {stack : ℕ} (hstack : 4 ≤ stack) :
    Reads (readHead stack) d magic rest () d := by
  unfold readHead
  refine Reads.bind_last (reads_readBytes rfl hstack) ?_
  rw [if_neg (not_not.mpr rfl)]
  exact Reads.pure _ _ _

theorem reads_readInt64 {z : ℤ} (hz : IsInt64 z) :
    Reads readInt64 d (signedBigEndian 8 z) rest z d := by
  have hvalue : signedValue (signedBigEndian 8 z) = z := by
    unfold IsInt64 at hz
    exact signedValue_signedBigEndian (by omega) (by omega)
  unfold readInt64
  refine Reads.bind_last (reads_fread (by simp) _ _) ?_
  rw [if_neg (by simp), hvalue]
  exact Reads.pure _ _ _

theorem reads_readInt32 {z : ℤ} (hz : IsInt z) :
    Reads readInt32 d (signedBigEndian 4 z) rest z d := by
  have hvalue : signedValue (signedBigEndian 4 z) = z := by
    unfold IsInt at hz
    exact signedValue_signedBigEndian (by omega) (by omega)
  unfold readInt32
  refine Reads.bind_last (reads_fread (by simp) _ _) ?_
  rw [if_neg (by simp), hvalue]
  exact Reads.pure _ _ _

/-- An unsigned number read as an `int32_t` wraps around. -/
theorem reads_readInt32_unsigned {n : ℕ} (hn : n < 2 ^ 32) :
    Reads readInt32 d (bigEndian 4 n) rest (wrapInt n) d := by
  have hvalue : signedValue (bigEndian 4 n) = wrapInt n :=
    signedValue_bigEndian (by omega)
  unfold readInt32
  refine Reads.bind_last (reads_fread (by simp) _ _) ?_
  rw [if_neg (by simp), hvalue]
  exact Reads.pure _ _ _

theorem reads_readUInt8 (b : UInt8) :
    Reads readUInt8 d [b] rest b.toNat d := by
  unfold readUInt8
  refine Reads.bind_last (reads_fread rfl _ _) ?_
  rw [if_neg (by simp)]
  have hvalue : bigEndianValue [b] = b.toNat := by simp [bigEndianValue]
  rw [hvalue]
  exact Reads.pure _ _ _

theorem readToEndLoop_eq (fuel : ℕ) (front xs result : List UInt8)
    (hfuel : xs.length < fuel) :
    readToEndLoop fuel result (.between front xs, d) =
      .ok (result ++ xs) (.between (front ++ xs) [], d) := by
  induction fuel generalizing front xs result with
  | zero => omega
  | succ fuel ih =>
      unfold readToEndLoop
      rw [bind_of_ok (fread_apply _ _ _), ByteFile.fread_between_le]
      dsimp only
      by_cases hnil : xs = []
      · subst hnil
        rw [if_neg (by simp)]
        simp only [List.take_nil, List.drop_nil, List.append_nil]
        rfl
      · have hpos := List.length_pos_iff.mpr hnil
        rw [if_pos (by simp [hpos]), ih]
        · simp only [List.append_assoc, List.take_append_drop]
        · simp only [List.length_drop]
          omega

theorem reads_readToEnd {xs : List UInt8} :
    Reads readToEnd d xs [] xs d := by
  intro front
  rw [List.append_nil]
  refine (readToEndLoop_eq _ front xs [] ?_).trans (by rw [List.nil_append])
  simp only [ByteFile.between, List.length_append]
  omega

theorem reads_addTransition {t i : ℤ} {lt : LocalTime}
    (htype : vectorAt d.localtimes i = .ok lt)
    (htime : IsInt64 (t + lt.utcOffset)) :
    Reads (Data.addTransition t i) d [] rest () { d with
      transitions := d.transitions ++ [⟨t, t + lt.utcOffset, i⟩] } := by
  unfold Data.addTransition
  refine Reads.bind_nil (reads_getData _ _) ?_
  rw [htype]
  exact Reads.bind_nil (reads_checked (if_pos htime)) (reads_modifyData _ _ _)

theorem reads_reserve {elementSize : ℕ} {n : ℤ} (hn : 0 ≤ n)
    (hfits : n ≤ vectorMaxSize / elementSize) (hmax : n < 2 ^ 64) :
    Reads (reserve elementSize n) d [] rest () d := by
  unfold reserve
  rw [Int.emod_eq_of_lt hn hmax, if_neg (by omega)]
  exact Reads.pure _ _ _

/-- A negative argument is a number of elements that no vector holds. -/
theorem throws_reserve {elementSize : ℕ} {n : ℤ} (hlow : -2 ^ 31 ≤ n)
    (hneg : n < 0) {xs : List UInt8} :
    Throws (reserve elementSize n) d xs .logicError d := by
  have hwrapped : (n % 2 ^ 64).toNat = (n + 2 ^ 64).toNat := by omega
  have hmax : vectorMaxSize / elementSize ≤ vectorMaxSize :=
    Nat.div_le_self _ _
  have hlarge : vectorMaxSize < (n + 2 ^ 64).toNat := by
    unfold vectorMaxSize
    omega
  unfold reserve
  rw [hwrapped, if_pos (by omega)]
  exact Throws.throw _ _ _

end EventServer.Common

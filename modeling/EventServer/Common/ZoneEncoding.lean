import EventServer.Common.ZoneFile

/-!
# Zones and their encoding

A zone as the format of compiled zone files describes it, and the bytes of its
two encodings.  Version 1 has times of four bytes.  Version 2 puts a whole
block of version 1 in front, has times of eight bytes, and ends with a footer.
-/

namespace EventServer.Common

open EventServer.Support

/-! ## Zones -/

/-- A local time type. -/
structure ZoneType where
  utcOffset : ℤ
  isDst : Bool
  desigIdx : UInt8
  offset_isInt : IsInt utcOffset

/-- A transition to the type with the given index. -/
structure ZoneTransition where
  time : ℤ
  type : UInt8
  time_le : |time| ≤ 2 ^ 62

/-- A zone without leap seconds. -/
structure Zone where
  transitions : List ZoneTransition
  types : List ZoneType
  designations : List UInt8
  isstd : List UInt8
  isut : List UInt8
  footer : List UInt8
  types_ne : types ≠ []
  type_lt : ∀ tr ∈ transitions, tr.type.toNat < types.length
  designations_ne : designations ≠ []
  isstd_length : isstd = [] ∨ isstd.length = types.length
  isut_length : isut = [] ∨ isut.length = types.length

/-! ## Encodings -/

/-- The counts of a header, in its order. -/
structure Counts where
  isutcnt : ℕ
  isstdcnt : ℕ
  leapcnt : ℕ
  timecnt : ℕ
  typecnt : ℕ
  charcnt : ℕ
  deriving DecidableEq, Repr

/-- Each count is a number of four bytes without a sign. -/
def Counts.bytes (c : Counts) : List UInt8 :=
  bigEndian 4 c.isutcnt ++ (bigEndian 4 c.isstdcnt ++ (bigEndian 4 c.leapcnt ++
    (bigEndian 4 c.timecnt ++ (bigEndian 4 c.typecnt ++
      bigEndian 4 c.charcnt))))

/-- The size of a block of version 1.  A leap second has a time and a count of
four bytes each. -/
def Counts.blockSize (c : Counts) : ℕ :=
  4 * c.timecnt + c.timecnt + 6 * c.typecnt + c.charcnt + 8 * c.leapcnt +
    c.isstdcnt + c.isutcnt

def header (version : UInt8) (c : Counts) : List UInt8 :=
  magic ++ ([version] ++ (List.replicate 15 0 ++ c.bytes))

def ZoneType.bytes (ty : ZoneType) : List UInt8 :=
  signedBigEndian 4 ty.utcOffset ++ ([if ty.isDst then 1 else 0] ++
    [ty.desigIdx])

/-- The block of version 1 in a file of version 2. -/
structure FirstBlock where
  counts : Counts
  body : List UInt8
  length_body : body.length = counts.blockSize
  length_lt : body.length < 2 ^ 31

/-- The versions of the format, with what comes in front of the zone. -/
inductive Version where
  | one
  | two (block : FirstBlock)

def Version.timeSize : Version → ℕ
  | .one => 4
  | .two _ => 8

namespace Zone

def counts (z : Zone) : Counts where
  isutcnt := z.isut.length
  isstdcnt := z.isstd.length
  leapcnt := 0
  timecnt := z.transitions.length
  typecnt := z.types.length
  charcnt := z.designations.length

/-- The sections of the block, with times of the given size. -/
def dataBlock (z : Zone) (timeSize : ℕ) : List UInt8 :=
  z.transitions.flatMap (fun tr => signedBigEndian timeSize tr.time) ++
    (z.transitions.flatMap (fun tr => [tr.type]) ++
      (z.types.flatMap ZoneType.bytes ++
        (z.designations ++ (z.isstd ++ z.isut))))

/-- What follows the block. -/
def trailer (z : Zone) : Version → List UInt8
  | .one => []
  | .two _ => z.footer

def encode (z : Zone) : Version → List UInt8
  | .one => header 0 z.counts ++ z.dataBlock 4
  | .two block => header 0x32 block.counts ++ (block.body ++
      (header 0x32 z.counts ++ (z.dataBlock 8 ++ z.footer)))

/-- The times fit into the size of the version. -/
def Fits (z : Zone) : Version → Prop
  | .one => ∀ tr ∈ z.transitions, IsInt tr.time
  | .two _ => True

end Zone

/-! ## The zone in memory -/

def ZoneType.localTime (ty : ZoneType) : LocalTime :=
  ⟨ty.utcOffset, ty.isDst, ty.desigIdx.toNat⟩

namespace Zone

/-- The transition at a time, at its local time, to its type. -/
def transition (z : Zone) (tr : ZoneTransition) : Transition where
  utctime := tr.time
  localtime := tr.time +
    (z.types.map ZoneType.utcOffset).getD tr.type.toNat 0
  localtimeIdx := tr.type.toNat

def data (z : Zone) (v : Version) : Data where
  transitions := z.transitions.map z.transition
  localtimes := z.types.map ZoneType.localTime
  abbreviation := z.designations
  tzstring := z.trailer v

end Zone

end EventServer.Common

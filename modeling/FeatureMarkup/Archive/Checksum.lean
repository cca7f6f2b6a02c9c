/-! Cyclic redundancy checks with one polynomial of degree 32, the bits of an octet
being taken from the lowest on or from the highest on. -/
namespace FeatureMarkup.Archive

/-- The polynomial, without its leading term, lowest degree first. -/
def polynomial : UInt32 := 0xEDB88320

/-- Divides so many bits. -/
def divideBits : Nat → UInt32 → UInt32
  | 0, remainder => remainder
  | bits + 1, remainder =>
    divideBits bits (if remainder &&& 1 = 1 then (remainder >>> 1) ^^^ polynomial else remainder >>> 1)

/-- The checksum of a run of octets, the lowest bit of each first. -/
def checksum (bytes : List UInt8) : UInt32 :=
  (bytes.foldl (fun remainder b => divideBits 8 (remainder ^^^ b.toUInt32)) 0xFFFFFFFF) ^^^ 0xFFFFFFFF

/-- The polynomial, without its leading term, highest degree first. -/
def polynomialFromHighest : UInt32 := 0x04C11DB7

/-- Divides so many bits from the highest on. -/
def divideFromHighest : Nat → UInt32 → UInt32
  | 0, remainder => remainder
  | bits + 1, remainder =>
    divideFromHighest bits
      (if remainder &&& 0x80000000 = 0 then remainder <<< 1
      else (remainder <<< 1) ^^^ polynomialFromHighest)

/-- The checksum of a run of octets, the highest bit of each first. -/
def checksumFromHighest (bytes : List UInt8) : UInt32 :=
  let divide (remainder : UInt32) (b : UInt8) : UInt32 :=
    divideFromHighest 8 (remainder ^^^ (b.toUInt32 <<< 24))
  bytes.foldl divide 0xFFFFFFFF ^^^ 0xFFFFFFFF

end FeatureMarkup.Archive

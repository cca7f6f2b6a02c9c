/-! Records of an archive: numbers, runs of octets, and the marks that records begin
with. -/
namespace FeatureMarkup.Archive

/-- The number that octets stand for, the lowest first. -/
def numberOf (bytes : List UInt8) : Nat :=
  bytes.foldr (fun b high => b.toNat + 256 * high) 0

/-- The octets of a stretch, fewer where the input ends. -/
def octetsAt (bytes : ByteArray) (place length : Nat) : List UInt8 :=
  (bytes.extract place (min (place + length) bytes.size)).toList

/-- A number of so many octets at a place. -/
def numberAt? (bytes : ByteArray) (place width : Nat) : Option Nat :=
  if place + width ≤ bytes.size then some (numberOf (octetsAt bytes place width)) else none

/-- The mark of an entry's record in the directory. -/
def entryMark : Nat := 0x02014B50

/-- The mark of what stands before an entry's data. -/
def dataMark : Nat := 0x04034B50

/-- The mark of the end record. -/
def endMark : Nat := 0x06054B50

/-- The mark of the wide end record, for archives that need larger numbers. -/
def wideEndMark : Nat := 0x06064B50

/-- The mark of what tells where the wide end record stands. -/
def locatorMark : Nat := 0x07064B50

/-- The places of a mark between two places, from the first on. -/
def marksBetween (bytes : ByteArray) (mark first limit : Nat) : List Nat :=
  ((List.range (limit - first)).map (first + ·)).filter fun place =>
    place + 4 ≤ limit ∧ numberAt? bytes place 4 = some mark

end FeatureMarkup.Archive

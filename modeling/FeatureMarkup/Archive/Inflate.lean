import FeatureMarkup.Archive.PrefixCode

/-! Compressed data: blocks of literals and of repetitions of what came before.

The data is looked at as a list of bits, the lowest bit of each octet first. Codes
have to be complete, except that one code of one bit may stand alone. What a
repetition finds before the first octet counts as zeros. A wide form of the data has
longer repetitions from further back. Every step takes a bit, so the number of bits
bounds the number of steps. -/
namespace FeatureMarkup.Archive

/-! ### Repetitions -/

/-- How far repetitions go: the least value and the number of further bits of each
symbol for a length, from 257 on, and of each symbol for a distance. -/
structure Reach where
  lengths : Array (Nat × Nat)
  distances : Array (Nat × Nat)

/-- The lengths that both forms have. -/
def Reach.commonLengths : Array (Nat × Nat) :=
  #[(3, 0), (4, 0), (5, 0), (6, 0), (7, 0), (8, 0), (9, 0), (10, 0), (11, 1), (13, 1), (15, 1),
    (17, 1), (19, 2), (23, 2), (27, 2), (31, 2), (35, 3), (43, 3), (51, 3), (59, 3), (67, 4),
    (83, 4), (99, 4), (115, 4), (131, 5), (163, 5), (195, 5), (227, 5)]

/-- The distances that both forms have. -/
def Reach.commonDistances : Array (Nat × Nat) :=
  #[(1, 0), (2, 0), (3, 0), (4, 0), (5, 1), (7, 1), (9, 2), (13, 2), (17, 3), (25, 3), (33, 4),
    (49, 4), (65, 5), (97, 5), (129, 6), (193, 6), (257, 7), (385, 7), (513, 8), (769, 8),
    (1025, 9), (1537, 9), (2049, 10), (3073, 10), (4097, 11), (6145, 11), (8193, 12), (12289, 12),
    (16385, 13), (24577, 13)]

/-- Repetitions of 258 octets at most, from 32768 octets back at most. -/
def Reach.standard : Reach :=
  ⟨commonLengths ++ #[(258, 0)], commonDistances⟩

/-- Repetitions of 65538 octets at most, from 81920 octets back at most. -/
def Reach.wide : Reach :=
  ⟨commonLengths ++ #[(3, 16)], commonDistances ++ #[(49153, 14), (65537, 14)]⟩

/-- The value of a symbol that a table lists, with its further bits. -/
def takeFromTable (table : Array (Nat × Nat)) (symbol : Nat) (bits : List Bool) :
    Option (Nat × List Bool) := do
  let (least, width) ← table[symbol]?
  let (more, bits) ← takeNumber width bits
  return (least + more, bits)

/-- The octet at a distance back, zero before the first. -/
def octetBack (out : Array UInt8) (distance : Nat) : UInt8 :=
  if distance ≤ out.size then out.getD (out.size - distance) 0 else 0

/-- The output with so many octets more, each the one at a distance back. -/
def repeatBack (distance : Nat) : Nat → Array UInt8 → Array UInt8
  | 0, out => out
  | length + 1, out => repeatBack distance length (out.push (octetBack out distance))

/-- The output of a block of literals and repetitions, in so many steps at most. -/
def inflateSymbols (reach : Reach) (literals distances : PrefixCode) :
    Nat → Array UInt8 → List Bool → Option (Array UInt8 × List Bool)
  | 0, _, _ => none
  | steps + 1, out, bits => do
    let (symbol, bits) ← literals.next bits
    if symbol < 256 then
      inflateSymbols reach literals distances steps (out.push (UInt8.ofNat symbol)) bits
    else if symbol = 256 then
      return (out, bits)
    else
      let (length, bits) ← takeFromTable reach.lengths (symbol - 257) bits
      let (symbol, bits) ← distances.next bits
      let (distance, bits) ← takeFromTable reach.distances symbol bits
      inflateSymbols reach literals distances steps (repeatBack distance length out) bits

/-! ### Blocks -/

/-- The code of literals and lengths that needs no description. -/
def fixedLiterals : PrefixCode :=
  .ofLengths (List.replicate 144 8 ++ List.replicate 112 9 ++ List.replicate 24 7 ++ List.replicate 8 8)

/-- The code of distances that needs no description. -/
def fixedDistances (reach : Reach) : PrefixCode :=
  .ofLengths (List.replicate reach.distances.size 5)

/-- The order in which the lengths of the codes of lengths are given. -/
def lengthOrder : List Nat :=
  [16, 17, 18, 0, 8, 7, 9, 6, 10, 5, 11, 4, 12, 3, 13, 2, 14, 1, 15]

/-- So many numbers of three bits. -/
def takeLengths : Nat → List Bool → Option (List Nat × List Bool)
  | 0, bits => some ([], bits)
  | count + 1, bits => do
    let (length, bits) ← takeNumber 3 bits
    let (lengths, bits) ← takeLengths count bits
    return (length :: lengths, bits)

/-- So many code lengths, in so many steps at most, those read held back to front. -/
def inflateLengths (code : PrefixCode) (count : Nat) :
    Nat → List Nat → List Bool → Option (List Nat × List Bool)
  | 0, _, _ => none
  | steps + 1, lengths, bits =>
    if count ≤ lengths.length then
      if count = lengths.length then some (lengths.reverse, bits) else none
    else do
      let (symbol, bits) ← code.next bits
      if symbol < 16 then
        inflateLengths code count steps (symbol :: lengths) bits
      else if symbol = 16 then
        let (more, bits) ← takeNumber 2 bits
        let previous ← lengths.head?
        inflateLengths code count steps (List.replicate (3 + more) previous ++ lengths) bits
      else if symbol = 17 then
        let (more, bits) ← takeNumber 3 bits
        inflateLengths code count steps (List.replicate (3 + more) 0 ++ lengths) bits
      else
        let (more, bits) ← takeNumber 7 bits
        inflateLengths code count steps (List.replicate (11 + more) 0 ++ lengths) bits

/-- A code that may be used: a complete one, or a single code. -/
def PrefixCode.usable? (c : PrefixCode) : Option PrefixCode :=
  if c.isComplete || c.isSingle then some c else none

/-- The two codes that a block describes. There are no more symbols than the reach has
values for, and the code of the lengths is complete. -/
def takeCodes (reach : Reach) (bits : List Bool) : Option (PrefixCode × PrefixCode × List Bool) := do
  let (literals, bits) ← takeNumber 5 bits
  let (distances, bits) ← takeNumber 5 bits
  let (given, bits) ← takeNumber 4 bits
  let literals := literals + 257
  let distances := distances + 1
  let (lengths, bits) ← takeLengths (given + 4) bits
  let lengthOf (symbol : Nat) : Nat :=
    ((lengthOrder.zip lengths).find? (·.1 = symbol)).elim 0 (·.2)
  let code := PrefixCode.ofLengths ((List.range 19).map lengthOf)
  if literals ≤ 257 + reach.lengths.size ∧ distances ≤ reach.distances.size ∧ code.isComplete then
    let (lengths, bits) ← inflateLengths code (literals + distances) (bits.length + 1) [] bits
    let literalCode ← (PrefixCode.ofLengths (lengths.take literals)).usable?
    let distanceCode ← (PrefixCode.ofLengths (lengths.drop literals)).usable?
    return (literalCode, distanceCode, bits)
  else
    none

/-- The output with so many octets more, taken as they are. -/
def copyOctets : Nat → Array UInt8 → List Bool → Option (Array UInt8 × List Bool)
  | 0, out, bits => some (out, bits)
  | count + 1, out, bits => do
    let (b, bits) ← takeNumber 8 bits
    copyOctets count (out.push (UInt8.ofNat b)) bits

/-- The output of a block that is not compressed; it begins with an octet. -/
def inflateStored (out : Array UInt8) (bits : List Bool) : Option (Array UInt8 × List Bool) := do
  let bits := bits.drop (bits.length % 8)
  let (length, bits) ← takeNumber 16 bits
  let (complement, bits) ← takeNumber 16 bits
  if length + complement = 0xFFFF then copyOctets length out bits else none

/-- The output of one block, by its kind. -/
def inflateBlock (reach : Reach) (kind : Nat) (out : Array UInt8) (bits : List Bool) :
    Option (Array UInt8 × List Bool) :=
  match kind with
  | 0 => inflateStored out bits
  | 1 => inflateSymbols reach fixedLiterals (fixedDistances reach) (bits.length + 1) out bits
  | 2 => do
    let (literals, distances, bits) ← takeCodes reach bits
    inflateSymbols reach literals distances (bits.length + 1) out bits
  | _ => none

/-- The output of the blocks up to the one marked as the last, so many at most. -/
def inflateBlocks (reach : Reach) : Nat → Array UInt8 → List Bool → Option (Array UInt8)
  | 0, _, _ => none
  | blocks + 1, out, bits => do
    let (last, bits) ← takeNumber 1 bits
    let (kind, bits) ← takeNumber 2 bits
    let (out, bits) ← inflateBlock reach kind out bits
    if last = 1 then return out else inflateBlocks reach blocks out bits

/-- The octets that compressed data stands for. -/
def inflate? (reach : Reach) (bytes : List UInt8) : Option (List UInt8) :=
  let bits := bitsOf bytes
  (inflateBlocks reach bits.length #[] bits).map (·.toList)

end FeatureMarkup.Archive

import FeatureMarkup.Archive.Checksum
import FeatureMarkup.Archive.PrefixCode

/-! Compressed data: blocks that are sorted.

The octets of a block, long runs being shortened, are arranged by what follows each
of them, round the block. The arrangement is written as places in a list of octets
from which each octet met moves to the front; how often the first place comes in a
row is told in digits of its own. All this stands in codes, of which one is chosen
for every fifty symbols.

Bits are taken from the highest of each octet on. A block and the whole of the data
have a checksum each. Every step takes a symbol or a bit, or gives an octet. -/
namespace FeatureMarkup.Archive

/-! ### The arrangement -/

/-- The item at a place, and the list with that item at the front. -/
def toFront? (items : List α) (place : Nat) : Option (α × List α) :=
  items[place]?.map fun item => (item, item :: items.eraseIdx place)

/-- The octets that the symbols of a block stand for. The first two symbols are digits
of the number `count` of times that the first octet comes in a row, `weight` being
the weight of the next digit; symbol `n` above them is the octet at place `n - 1`.
There are no more octets than the limit. -/
def arrangement (limit : Nat) :
    List UInt8 → (count weight : Nat) → List Nat → Array UInt8 → Option (Array UInt8)
  | octets, count, weight, symbol :: symbols, out =>
    if limit < out.size + count then
      none
    else if symbol ≤ 1 then
      arrangement limit octets (count + weight * (symbol + 1)) (2 * weight) symbols out
    else if out.size + count < limit then do
      let first ← octets.head?
      let out := out ++ Array.replicate count first
      let (octet, octets) ← toFront? octets (symbol - 1)
      arrangement limit octets 0 1 symbols (out.push octet)
    else
      none
  | octets, count, _, [], out =>
    if out.size + count ≤ limit then
      octets.head?.map fun first => out ++ Array.replicate count first
    else
      none

/-- The places of an arrangement in the order of the octets in them, of equal octets
in the order of the places. -/
def placesInOrder (arranged : Array UInt8) : Array Nat :=
  let octets := arranged.toList.zipIdx.mergeSort fun a b => decide (a.1 ≤ b.1)
  (octets.map (·.2)).toArray

/-- So many octets, each followed by the one at the place that the order leads to. -/
def followOrder (arranged : Array UInt8) (order : Array Nat) :
    Nat → (place : Nat) → Array UInt8 → Array UInt8
  | 0, _, out => out
  | count + 1, place, out =>
    let place := order.getD place 0
    followOrder arranged order count place (out.push (arranged.getD place 0))

/-- The octets that were arranged, from the one at a place in the order on. -/
def rearrange (arranged : Array UInt8) (place : Nat) : Array UInt8 :=
  followOrder arranged (placesInOrder arranged) arranged.size place #[]

/-- The octets with runs as long as they were: after four equal ones an octet tells how
many more there are. `run` is the number of equal octets that came last. -/
def lengthenRuns : (previous : UInt8) → (run : Nat) → List UInt8 → Array UInt8 → Array UInt8
  | _, _, [], out => out
  | previous, run, b :: rest, out =>
    if run = 4 then lengthenRuns previous 0 rest (out ++ Array.replicate b.toNat previous)
    else if run ≠ 0 ∧ b = previous then lengthenRuns previous (run + 1) rest (out.push b)
    else lengthenRuns b 1 rest (out.push b)

/-! ### Symbols -/

/-- The numbers, counted from one on, of the bits that are set among sixteen. -/
def takeSet (bits : List Bool) : Option (List Nat × List Bool) := do
  let (set, bits) ← takeFromHighest 16 bits
  return ((List.range 16).filter fun i => set.testBit (15 - i), bits)

/-- The octets with one of some high halves that occur in a block. -/
def takeOctets : List Nat → List Bool → Option (List UInt8 × List Bool)
  | [], bits => some ([], bits)
  | high :: rest, bits => do
    let (lows, bits) ← takeSet bits
    let (later, bits) ← takeOctets rest bits
    return (lows.map (fun low => UInt8.ofNat (16 * high + low)) ++ later, bits)

/-- The number of bits that are set before the first that is not, and what follows. -/
def takeCount : Nat → List Bool → Option (Nat × List Bool)
  | _, [] => none
  | count, true :: bits => takeCount (count + 1) bits
  | count, false :: bits => some (count, bits)

/-- So many choices among some items, each of which moves to the front; the choices
made held back to front. -/
def takeChoices : Nat → List α → List α → List Bool → Option (List α × List Bool)
  | 0, _, chosen, bits => some (chosen.reverse, bits)
  | choices + 1, items, chosen, bits => do
    let (place, bits) ← takeCount 0 bits
    let (item, items) ← toFront? items place
    takeChoices choices items (item :: chosen) bits

/-- The length of a code: the last one, with steps up or down by one. -/
def takeLength (length : Nat) (bits : List Bool) : Option (Nat × List Bool) :=
  if length = 0 ∨ maxLength < length then none
  else
    match bits with
    | false :: bits => some (length, bits)
    | true :: false :: bits => takeLength (length + 1) bits
    | true :: true :: bits => takeLength (length - 1) bits
    | _ => none

/-- The lengths of so many codes, after a first one. -/
def takeCodeLengths : Nat → Nat → List Bool → Option (List Nat × List Bool)
  | 0, _, bits => some ([], bits)
  | count + 1, length, bits => do
    let (length, bits) ← takeLength length bits
    let (later, bits) ← takeCodeLengths count length bits
    return (length :: later, bits)

/-- So many codes for so many symbols. -/
def takePrefixCodes (symbols : Nat) : Nat → List Bool → Option (List PrefixCode × List Bool)
  | 0, bits => some ([], bits)
  | count + 1, bits => do
    let (length, bits) ← takeFromHighest 5 bits
    let (lengths, bits) ← takeCodeLengths symbols length bits
    let (later, bits) ← takePrefixCodes symbols count bits
    return (.ofLengths lengths :: later, bits)

/-- The symbols up to the one that ends the block, those read held back to front. Every
chosen code is good for so many symbols more, the first one for `left`. -/
def takeSymbols (last : Nat) :
    List PrefixCode → (left : Nat) → (steps : Nat) → List Nat → List Bool →
      Option (List Nat × List Bool)
  | code :: codes, left + 1, steps + 1, symbols, bits => do
    let (symbol, bits) ← code.next bits
    if symbol = last then return (symbols.reverse, bits)
    else takeSymbols last (code :: codes) left steps (symbol :: symbols) bits
  | _ :: codes, 0, steps + 1, symbols, bits => takeSymbols last codes 50 steps symbols bits
  | _, _, _, _, _ => none

/-! ### Blocks -/

/-- The octets of a block, which are no more than the limit before their runs are
lengthened, and the block's checksum. -/
def takeBlock (limit : Nat) (bits : List Bool) : Option (Array UInt8 × UInt32 × List Bool) := do
  let (check, bits) ← takeFromHighest 32 bits
  let (scrambled, bits) ← takeFromHighest 1 bits
  let (place, bits) ← takeFromHighest 24 bits
  let (highs, bits) ← takeSet bits
  let (octets, bits) ← takeOctets highs bits
  let (codeCount, bits) ← takeFromHighest 3 bits
  let (choices, bits) ← takeFromHighest 15 bits
  if scrambled = 0 ∧ 2 ≤ codeCount ∧ codeCount ≤ 6 then
    let (chosen, bits) ← takeChoices choices (List.range codeCount) [] bits
    let (codes, bits) ← takePrefixCodes (octets.length + 2) codeCount bits
    let chosen ← chosen.mapM (codes[·]?)
    let (symbols, bits) ← takeSymbols (octets.length + 1) chosen 50 (2 * bits.length + 2) [] bits
    let arranged ← arrangement limit octets 0 1 symbols #[]
    if place < arranged.size then
      let out := lengthenRuns 0 0 (rearrange arranged place).toList #[]
      if (checksumFromHighest out.toList).toNat = check then
        return (out, UInt32.ofNat check, bits)
      else
        none
    else
      none
  else
    none

/-- What a block begins with. -/
def blockMark : Nat := 0x314159265359

/-- What the end of the data begins with. -/
def lastMark : Nat := 0x177245385090

/-- The output of so many blocks at most, up to the end of the data. The checksums of
the blocks make up that of the whole. -/
def takeBlocks (limit : Nat) : Nat → UInt32 → Array UInt8 → List Bool → Option (Array UInt8)
  | 0, _, _, _ => none
  | blocks + 1, whole, out, bits => do
    let (mark, bits) ← takeFromHighest 48 bits
    if mark = blockMark then
      let (block, check, bits) ← takeBlock limit bits
      takeBlocks limit blocks (((whole <<< 1) ||| (whole >>> 31)) ^^^ check) (out ++ block) bits
    else
      let (check, _) ← takeFromHighest 32 bits
      if mark = lastMark ∧ check = whole.toNat then return out else none

/-- The octets that data in sorted blocks stands for. A digit says how large the blocks
may be. -/
def unsort? : List UInt8 → Option (List UInt8)
  | 0x42 :: 0x5A :: 0x68 :: size :: bytes =>
    if 0x31 ≤ size ∧ size ≤ 0x39 then
      let bits := bitsFromHighest bytes
      (takeBlocks (100000 * (size.toNat - 0x30)) bits.length 0 #[] bits).map (·.toList)
    else
      none
  | _ => none

end FeatureMarkup.Archive

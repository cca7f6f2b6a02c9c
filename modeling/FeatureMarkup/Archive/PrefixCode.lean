/-! Bits of compressed data, and codes in which no code begins another.

Bits are taken from the lowest of each octet on or from the highest on, and so are
numbers. Codes are canonical: their lengths alone fix them, codes of one length being
consecutive in the order of the symbols. A code is complete where every long enough
string of bits begins with exactly one of its codes. -/
namespace FeatureMarkup.Archive

/-! ### Bits -/

/-- The bits of one octet, the lowest first. -/
def bitsOfOctet (b : UInt8) : List Bool :=
  (List.range 8).map b.toNat.testBit

/-- The bits of a run of octets, the lowest of each first. -/
def bitsOf (bytes : List UInt8) : List Bool :=
  bytes.flatMap bitsOfOctet

/-- The bits of a run of octets, the highest of each first. -/
def bitsFromHighest (bytes : List UInt8) : List Bool :=
  bytes.flatMap fun b => (bitsOfOctet b).reverse

/-- A number of so many bits, the lowest first, and the bits behind it. -/
def takeNumber : Nat → List Bool → Option (Nat × List Bool)
  | 0, bits => some (0, bits)
  | _ + 1, [] => none
  | width + 1, b :: bits => do
    let (high, bits) ← takeNumber width bits
    return (2 * high + b.toNat, bits)

/-- A number of so many bits, the highest first, and the bits behind it. -/
def takeFromHighest (width : Nat) (bits : List Bool) : Option (Nat × List Bool) :=
  let taken := bits.take width
  if taken.length = width then
    some (taken.foldl (fun high b => 2 * high + b.toNat) 0, bits.drop width)
  else
    none

/-! ### Codes -/

/-- A canonical code: how many symbols have codes of each length from one bit on, and
the symbols in the order of their codes. -/
structure PrefixCode where
  counts : List Nat
  symbols : Array Nat

/-- The longest code. -/
def maxLength : Nat := 20

/-- The code in which each symbol has the given length; those of length zero have no
code. -/
def PrefixCode.ofLengths (lengths : List Nat) : PrefixCode :=
  let sized := (List.range maxLength).map fun i =>
    (lengths.zipIdx.filter (·.1 = i + 1)).map (·.2)
  { counts := sized.map List.length, symbols := sized.flatten.toArray }

/-- Whether every long enough string of bits begins with exactly one code. -/
def PrefixCode.isComplete (c : PrefixCode) : Bool :=
  c.counts.foldl (fun space count => 2 * space + count) 0 = Nat.pow 2 maxLength

/-- Whether there is no code but at most one of one bit. -/
def PrefixCode.isSingle (c : PrefixCode) : Bool :=
  c.symbols.size ≤ 1 && c.counts.head? = some c.symbols.size

/-- The symbol whose code comes next. `code` holds the bits read, `first` is the first
code of the present length and `index` the place of its symbol. -/
def decodeSymbol (symbols : Array Nat) :
    List Nat → (code first index : Nat) → List Bool → Option (Nat × List Bool)
  | [], _, _, _, _ => none
  | _, _, _, _, [] => none
  | count :: counts, code, first, index, b :: bits =>
    let code := code + b.toNat
    if code < first + count then do
      let symbol ← symbols[index + (code - first)]?
      return (symbol, bits)
    else
      decodeSymbol symbols counts (2 * code) (2 * (first + count)) (index + count) bits

/-- The symbol whose code comes next. -/
def PrefixCode.next (c : PrefixCode) (bits : List Bool) : Option (Nat × List Bool) :=
  decodeSymbol c.symbols c.counts 0 0 0 bits

end FeatureMarkup.Archive

import FeatureMarkup.Number.Nearest

/-! Decimal notation.

A number is an optional sign and either digits with an optional point, at least one
digit on one side of it, and an optional exponent, or one of the words `inf`,
`infinity` and `nan` in any letter case. Digits are ASCII digits, and nothing else
may stand before, between or after. Its value is the nearest binary64 number; of an
exponent only so many digits count as first bring it to 65536. -/
namespace FeatureMarkup.Number

/-! ### Digits -/

/-- The number of a digit. -/
def digitValue (d : Char) : Nat := d.toNat - '0'.toNat

/-- The number with such places in a base, the lowest first. -/
def valueOfPlaces (base : Nat) (places : List Nat) : Nat :=
  places.foldr (fun place higher => place + base * higher) 0

/-- The places in the square of a base, each made of two. -/
def joinPlaces (base : Nat) : List Nat → List Nat
  | low :: high :: rest => (low + base * high) :: joinPlaces base rest
  | places => places

/-- The number with such places in a base, these being joined so many times first: long
numbers are made of halves, not digit by digit. -/
def joinedValue : Nat → Nat → List Nat → Nat
  | 0, base, places => valueOfPlaces base places
  | times + 1, base, places => joinedValue times (base * base) (joinPlaces base places)

/-- The whole number that a run of digits writes. -/
def ofDigits (ds : List Char) : Nat :=
  joinedValue ds.length.log2 10 (ds.reverse.map digitValue)

theorem valueOfPlaces_joinPlaces (base : Nat) (places : List Nat) :
    valueOfPlaces (base * base) (joinPlaces base places) = valueOfPlaces base places := by
  fun_induction joinPlaces base places with
  | case1 low high rest ih =>
    simp only [valueOfPlaces, List.foldr_cons] at ih ⊢
    rw [ih, Nat.mul_add, Nat.mul_assoc, Nat.add_assoc]
  | case2 places h =>
    match places with
    | [] => rfl
    | [_] => simp [valueOfPlaces]
    | low :: high :: rest => exact absurd rfl (h low high rest)

theorem joinedValue_eq (times base : Nat) (places : List Nat) :
    joinedValue times base places = valueOfPlaces base places := by
  induction times generalizing base places with
  | zero => rfl
  | succ times ih => rw [joinedValue, ih, valueOfPlaces_joinPlaces]

theorem ofDigits_eq_foldl (ds : List Char) :
    ofDigits ds = ds.foldl (fun n d => digitValue d + 10 * n) 0 := by
  simp only [ofDigits, joinedValue_eq, valueOfPlaces, List.foldr_map, List.foldr_reverse]

/-! ### Decimals -/

/-- The leading digits, and what follows them. -/
def digits (cs : List Char) : List Char × List Char :=
  (cs.takeWhile Char.isDigit, cs.dropWhile Char.isDigit)

/-- An optional sign, true for a minus, and what follows it. -/
def sign : List Char → Bool × List Char
  | '-' :: rest => (true, rest)
  | '+' :: rest => (false, rest)
  | cs => (false, cs)

/-- A decimal: `digits` is a whole number of `10 ^ exponent`. -/
structure Decimal where
  digits : Nat
  exponent : Int
deriving DecidableEq, Repr

/-- The exponent from which on further digits do not count. -/
def exponentLimit : Nat := 0x10000

/-- The size of an exponent. -/
def exponentOfDigits (ds : List Char) : Nat :=
  ds.foldl (fun n d => if n < exponentLimit then digitValue d + 10 * n else n) 0

/-- The exponent part, zero where there is none. -/
def exponent? : List Char → Option Int
  | [] => some 0
  | c :: cs =>
    if c = 'e' ∨ c = 'E' then
      let (negative, rest) := sign cs
      match digits rest with
      | ([], _) => none
      | (ds, []) => some (if negative then -(exponentOfDigits ds : Int) else exponentOfDigits ds)
      | (_, _ :: _) => none
    else
      none

/-- A decimal without its sign. -/
def decimal? (cs : List Char) : Option Decimal :=
  let (whole, rest) := digits cs
  let (fraction, rest) :=
    match rest with
    | '.' :: rest => digits rest
    | _ => ([], rest)
  if whole.isEmpty && fraction.isEmpty then
    none
  else do
    let exponent ← exponent? rest
    return ⟨ofDigits (whole ++ fraction), exponent - fraction.length⟩

/-- How many digits a whole number has, none for zero. -/
def digitCount (n : Nat) : Nat :=
  if n = 0 then 0 else n.log2 * 1233 / 4096 + 1

/-- The bits of the number nearest to a decimal. Far outside the range of the
exponent, past any rounding, the answer is zero or infinity at once. -/
def Decimal.bits (d : Decimal) : Nat :=
  let magnitude := (digitCount d.digits : Int) + d.exponent
  if d.digits = 0 ∨ magnitude < -400 then 0
  else if 400 < magnitude then infinityBits
  else nearestBits (d.digits * Nat.pow 10 d.exponent.toNat) (Nat.pow 10 (-d.exponent).toNat)

/-- The number a word or a decimal stands for, without its sign, as bits. -/
def magnitude? (cs : List Char) : Option Nat :=
  let word := String.ofList (cs.map Char.toLower)
  if word = "inf" ∨ word = "infinity" then some infinityBits
  else if word = "nan" then some (infinityBits + Nat.pow 2 51)
  else Decimal.bits <$> decimal? cs

/-- The number that text writes, none if it writes none. -/
def parse? (s : String) : Option Float :=
  let (negative, rest) := sign s.toList
  (magnitude? rest).map fun bits =>
    Float.ofBits (UInt64.ofNat (if negative then bits + Nat.pow 2 63 else bits))

/-! ### Whole numbers -/

/-- The largest whole number a dimension may have. -/
def naturalLimit : Nat := Nat.pow 2 64

/-- The whole number below the limit that text writes: an optional plus and ASCII
digits. -/
def parseNatural? (s : String) : Option Nat :=
  let cs :=
    match s.toList with
    | '+' :: rest => rest
    | cs => cs
  match digits cs with
  | ([], _) => none
  | (ds, []) => if ofDigits ds < naturalLimit then some (ofDigits ds) else none
  | (_, _ :: _) => none

end FeatureMarkup.Number

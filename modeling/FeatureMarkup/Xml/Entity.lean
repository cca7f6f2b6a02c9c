import FeatureMarkup.Xml.Fault

/-! References in text: `&name;` and `&#number;`.

Each `&` must be met by a `;` before another `&` or the end of the text. Five names
are known. A number is decimal, or hexadecimal after `x`, without a sign, and names a
character other than the null character. Places in faults count octets. -/
namespace FeatureMarkup.Xml

/-- The characters that have names. -/
def entity? (name : String) : Option Char :=
  match name with
  | "lt" => some '<'
  | "gt" => some '>'
  | "amp" => some '&'
  | "apos" => some '\''
  | "quot" => some '"'
  | _ => none

/-- The value of a digit below a base. -/
def digitValue? (base : Nat) (c : Char) : Option Nat :=
  let value :=
    if '0' ≤ c ∧ c ≤ '9' then some (c.toNat - '0'.toNat)
    else if 'a' ≤ c ∧ c ≤ 'z' then some (c.toNat - 'a'.toNat + 10)
    else if 'A' ≤ c ∧ c ≤ 'Z' then some (c.toNat - 'A'.toNat + 10)
    else none
  value.filter (· < base)

/-- The number below `2^32` that digits write, read from the left: a character that
is no digit is reported before the limit is passed there. -/
def codeFrom (base : Nat) : Nat → List Char → Except ReferenceFault Nat
  | code, [] => .ok code
  | code, c :: rest =>
    match digitValue? base c with
    | none => .error .badDigit
    | some value =>
      let code := code * base + value
      if code < 2 ^ 32 then codeFrom base code rest else .error .tooLarge

/-- The character with a code. -/
def charOfCode (code : Nat) : Except ReferenceFault Char :=
  if code = 0 then .error .zero
  else if code.isValidChar then .ok (Char.ofNat code)
  else .error (.noCharacter code)

/-- The character that a number after `#` refers to. -/
def charOfNumber (number : List Char) : Except ReferenceFault Char :=
  let (base, ds) :=
    match number with
    | 'x' :: rest => (16, rest)
    | ds => (10, ds)
  match ds with
  | [] => .error .empty
  | '+' :: _ | '-' :: _ => .error .signed
  | ds => codeFrom base 0 ds >>= charOfCode

/-- The character that a reference stands for, given what is between `&` and `;` and
where it begins. -/
def resolveReference (start : Nat) (name : List Char) : Except Fault Char :=
  match name with
  | '#' :: number => (charOfNumber number).mapError .characterReference
  | name =>
    let name := String.ofList name
    match entity? name with
    | some c => .ok c
    | none => .error (.unknownEntity start (start + name.utf8ByteSize) name)

/-- The text with references resolved, from a position on. While a reference is being
read, `open?` holds where its `&` stands and its name back to front. -/
def unescapeFrom (size : Nat) : Nat → Option (Nat × List Char) → List Char → Except Fault (List Char)
  | _, none, [] => .ok []
  | _, some (start, _), [] => .error (.openReference start size)
  | position, none, c :: rest =>
    let next := position + c.utf8Size
    if c = '&' then unescapeFrom size next (some (position, [])) rest
    else do return c :: (← unescapeFrom size next none rest)
  | position, some (start, name), c :: rest =>
    let next := position + c.utf8Size
    if c = '&' then .error (.openReference start size)
    else if c = ';' then do
      let c ← resolveReference (start + 1) name.reverse
      return c :: (← unescapeFrom size next none rest)
    else unescapeFrom size next (some (start, c :: name)) rest

/-- Text with its references resolved. -/
def unescape (s : String) : Except Fault String :=
  String.ofList <$> unescapeFrom s.utf8ByteSize 0 none s.toList

end FeatureMarkup.Xml

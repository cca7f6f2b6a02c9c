/-! UTF-8, read one octet at a time.

The state is empty between two characters, and otherwise a `Begun` that holds
the bits read so far and the range the next octet must lie in; the ranges shut
out overlong forms, surrogates and everything past the last code point. An octet
outside its range ends the faulty sequence before it and is looked at afresh, so
one pass serves both readers: `decode?` refuses at the first fault, `decodeLossy`
puts a replacement character for each. -/
namespace FeatureMarkup.Text.Utf8

/-- A place where octets are no UTF-8. -/
inductive Fault where
  /-- A sequence of `length` octets that no further octet completes. -/
  | malformed (index length : Nat)
  /-- A sequence that ends with the input. -/
  | incomplete (index : Nat)
deriving DecidableEq, Repr

/-- A fault in words. -/
def Fault.message : Fault → String
  | .malformed index length => s!"invalid utf-8 sequence of {length} bytes from index {index}"
  | .incomplete index => s!"incomplete utf-8 byte sequence from index {index}"

/-- A character begun: where, how many octets of it are read, its bits so far, how
many octets are still to come, and the range of the next of them. -/
structure Begun where
  start : Nat
  taken : Nat
  bits : Nat
  missing : Nat
  low : Nat
  high : Nat

/-- What is found at one place of the input. -/
inductive Item where
  | scalar (c : Char)
  | fault (f : Fault)

/-- What the first octet of a character says: the whole character, or its beginning. -/
def lead (index : Nat) (b : Nat) : Item ⊕ Begun :=
  if b < 0x80 then .inl (.scalar (Char.ofNat b))
  else if b < 0xC2 then .inl (.fault (.malformed index 1))
  else if b < 0xE0 then .inr ⟨index, 1, b - 0xC0, 1, 0x80, 0xBF⟩
  else if b < 0xF0 then
    .inr ⟨index, 1, b - 0xE0, 2, if b = 0xE0 then 0xA0 else 0x80, if b = 0xED then 0x9F else 0xBF⟩
  else if b < 0xF5 then
    .inr ⟨index, 1, b - 0xF0, 3, if b = 0xF0 then 0x90 else 0x80, if b = 0xF4 then 0x8F else 0xBF⟩
  else .inl (.fault (.malformed index 1))

/-- The character begun, with one more octet of it. -/
def Begun.push (p : Begun) (b : Nat) : Item ⊕ Begun :=
  let bits := p.bits * 64 + (b - 0x80)
  match p.missing with
  | 0 | 1 => .inl (.scalar (Char.ofNat bits))
  | missing + 1 => .inr ⟨p.start, p.taken + 1, bits, missing, 0x80, 0xBF⟩

/-- Every character and every fault, in order. -/
def items : Nat → Option Begun → List UInt8 → List Item
  | _, none, [] => []
  | _, some p, [] => [.fault (.incomplete p.start)]
  | index, none, b :: rest =>
    match lead index b.toNat with
    | .inl item => item :: items (index + 1) none rest
    | .inr p => items (index + 1) (some p) rest
  | index, some p, b :: rest =>
    if p.low ≤ b.toNat ∧ b.toNat ≤ p.high then
      match p.push b.toNat with
      | .inl item => item :: items (index + 1) none rest
      | .inr p => items (index + 1) (some p) rest
    else
      .fault (.malformed p.start p.taken) ::
        match lead index b.toNat with
        | .inl item => item :: items (index + 1) none rest
        | .inr p => items (index + 1) (some p) rest

/-- The text, or the first fault. -/
def decode? (bytes : List UInt8) : Except Fault String :=
  String.ofList <$> (items 0 none bytes).mapM fun
    | .scalar c => .ok c
    | .fault f => .error f

/-- The text, with a replacement character for every faulty sequence. -/
def decodeLossy (bytes : List UInt8) : String :=
  String.ofList <| (items 0 none bytes).map fun
    | .scalar c => c
    | .fault _ => '\uFFFD'

end FeatureMarkup.Text.Utf8

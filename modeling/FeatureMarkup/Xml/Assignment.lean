import FeatureMarkup.Xml.Markup

/-! The assignments in a start tag.

After the tag's name stand assignments `key = "value"`, with white space where it
pleases except inside keys. One pass lists them with their places up to the first
that is not well formed. A key's first octet is always part of the key, whatever it
is. That keys differ is a second, separate demand, which namespace declarations are
not held to. -/
namespace FeatureMarkup.Xml

/-- A key with what is assigned to it, as far as the tag's content goes. -/
structure Assignment where
  /-- Where the key begins. -/
  start : Nat
  key : List UInt8
  value : Except AttributeFault (List UInt8)

/-- What stands after a tag's name: assignments, the last of which may have a faulty
value, or in the end a key without an equals sign. -/
inductive Clause where
  | assignment (a : Assignment)
  | fault (f : AttributeFault)

/-- What is being read: nothing, a key, the place for an equals sign, the place for
a value, or a value. Keys and values are held back to front. -/
inductive Phase where
  | between
  | key (start : Nat) (key : List UInt8)
  | equals (start : Nat) (key : List UInt8)
  | opening (start : Nat) (key : List UInt8)
  | value (start : Nat) (key : List UInt8) (quote : UInt8) (value : List UInt8)

/-- The clauses in the rest of a tag's content, from a position on. -/
def clausesFrom (phase : Phase) (position : Nat) : List UInt8 → List Clause
  | [] =>
    match phase with
    | .between => []
    | .key _ _ | .equals _ _ => [.fault (.missingEquals position)]
    | .opening start key => [.assignment ⟨start, key.reverse, .error (.missingValue position)⟩]
    | .value start key quote _ =>
      [.assignment ⟨start, key.reverse, .error (.openValue position (Char.ofNat quote.toNat))⟩]
  | b :: rest =>
    let go (phase : Phase) := clausesFrom phase (position + 1) rest
    match phase with
    | .between => if isSpace b then go .between else go (.key position [b])
    | .key start key =>
      if b = octet '=' then go (.opening start key)
      else if isSpace b then go (.equals start key)
      else go (.key start (b :: key))
    | .equals start key =>
      if b = octet '=' then go (.opening start key)
      else if isSpace b then go (.equals start key)
      else [.fault (.missingEquals position)]
    | .opening start key =>
      if isSpace b then go (.opening start key)
      else if b = octet '"' ∨ b = octet '\'' then go (.value start key b [])
      else [.assignment ⟨start, key.reverse, .error (.unquotedValue position)⟩]
    | .value start key quote value =>
      if b = quote then .assignment ⟨start, key.reverse, .ok value.reverse⟩ :: go .between
      else go (.value start key quote (b :: value))

/-- The name a tag's content begins with. -/
def tagName (content : List UInt8) : List UInt8 :=
  content.takeWhile (!isSpace ·)

/-- The clauses of a tag. -/
def clauses (content : List UInt8) : List Clause :=
  let name := tagName content
  clausesFrom .between name.length (content.drop name.length)

/-- The keys and values assigned before the first fault, whether keys repeat or not. -/
def assigned : List Clause → List (List UInt8 × List UInt8)
  | .assignment ⟨_, key, .ok value⟩ :: rest => (key, value) :: assigned rest
  | _ => []

/-- Each key and value, or the first fault, a key met before being one. -/
def distinct : List (Nat × List UInt8) → List Clause → List (Except AttributeFault (List UInt8 × List UInt8))
  | _, [] => []
  | _, .fault f :: _ => [.error f]
  | met, .assignment a :: rest =>
    match met.find? (·.2 = a.key) with
    | some (previous, _) => [.error (.repeated a.start previous)]
    | none =>
      match a.value with
      | .error f => [.error f]
      | .ok value => .ok (a.key, value) :: distinct ((a.start, a.key) :: met) rest

end FeatureMarkup.Xml

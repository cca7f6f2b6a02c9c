import FeatureMarkup.Name
import FeatureMarkup.Xml.Entity
import FeatureMarkup.Xml.Scope

/-! What reading a document yields: elements with names in their namespaces, and text.

The pieces of markup are taken in order with the open elements and the namespaces in
force. Each piece gives one reading, an empty element two, and a fault takes the
place of what it spoils: the next reading goes on behind it. Only a fault whose end
is unknown is the last. Readings are listed whole, and one who reads them looks at
nothing behind the one in hand. -/
namespace FeatureMarkup.Xml

/-- An attribute of an element. -/
structure Attribute where
  name : Name
  value : String
deriving DecidableEq, Repr

/-- The value of the first attribute with a namespace, or none, and a local part. -/
def Attribute.find? (attributes : List Attribute) (space : Option String) (localPart : String) :
    Option String :=
  (attributes.find? (·.name.hasParts space localPart)).map (·.value)

/-- What a reading tells of the document. -/
inductive Content where
  | start (name : Name) (attributes : List Attribute)
  | stop (name : Name)
  | text (text : String)
  /-- A comment, an instruction or a document type. -/
  | ignored
deriving DecidableEq, Repr

/-- One reading, and how many octets of the document are read with it. -/
structure Reading where
  offset : Nat
  outcome : Except Fault Content

/-! ### Names and values -/

/-- Octets as text. -/
def decode (bytes : List UInt8) : Except Fault String :=
  (Text.Utf8.decode? bytes).mapError .encoding

/-- A name from a namespace and a local part in octets. -/
def decodeName (space : Option (List UInt8)) (localPart : List UInt8) : Except Fault Name := do
  let space ← space.mapM decode
  return Name.ofParts space (← decode localPart)

/-- The name of an element, which the default namespace applies to. -/
def elementName (scope : Scope) (name : List UInt8) : Except Fault Name :=
  let (label, localPart) := splitName name
  decodeName (scope.space? label) localPart

/-- The name of an attribute, which no default namespace applies to. -/
def attributeName (scope : Scope) (key : List UInt8) : Except Fault Name :=
  let (label, localPart) := splitName key
  decodeName (label.bind fun label => scope.space? (some label)) localPart

/-- Octets as text with references resolved. -/
def decodeText (bytes : List UInt8) : Except Fault String :=
  decode bytes >>= unescape

/-- The attributes among the assignments of a tag, which are not namespace
declarations. -/
def attributes (scope : Scope) :
    List (Except AttributeFault (List UInt8 × List UInt8)) → Except Fault (List Attribute)
  | [] => .ok []
  | .error fault :: _ => .error (.attribute fault)
  | .ok (key, value) :: rest =>
    match declared? key with
    | some _ => attributes scope rest
    | none => do
      let name ← attributeName scope key
      let value ← decodeText value
      return ⟨name, value⟩ :: (← attributes scope rest)

/-! ### Elements -/

/-- The elements that are open, by their names as written, the innermost first, the
namespaces in force, and whether the last reading closed an element. -/
structure Nesting where
  opened : List (List UInt8)
  scope : Scope
  closed : Bool

/-- Outside every element. -/
def Nesting.outside : Nesting := ⟨[], .initial, false⟩

/-- The nesting in which the next piece is read. -/
def Nesting.settle (n : Nesting) : Nesting :=
  if n.closed then { n with scope := n.scope.leave, closed := false } else n

/-- Octets as text, empty if they are none. -/
def decodeOrEmpty (bytes : List UInt8) : String :=
  ((decode bytes).toOption).getD ""

/-- A start tag, by its content. -/
def Nesting.start (n : Nesting) (content : List UInt8) : Except Fault Content × Nesting :=
  let clauses := clauses content
  let name := tagName content
  let (scope, refused) := n.scope.enter (assigned clauses)
  let outcome : Except Fault Content :=
    match refused with
    | some fault => .error (.declaration fault)
    | none => do
      let name ← elementName scope name
      return .start name (← attributes scope (distinct [] clauses))
  (outcome, { opened := name :: n.opened, scope, closed := false })

/-- The end of the element that has been opened last. -/
def Nesting.stop (n : Nesting) (name : List UInt8) (opened : List (List UInt8)) :
    Except Fault Content × Nesting :=
  (.stop <$> elementName n.scope name, { n with opened, closed := true })

/-- The name in an end tag, without white space behind it unless there is nothing
else. -/
def endName (content : List UInt8) : List UInt8 :=
  let name := (content.reverse.dropWhile isSpace).reverse
  if name.isEmpty then content else name

/-- An end tag, by its content. -/
def Nesting.endTag (n : Nesting) (content : List UInt8) : Except Fault Content × Nesting :=
  let name := endName content
  match n.opened with
  | [] => (.error (.unmatchedEnd (decodeOrEmpty name)), n)
  | expected :: opened =>
    if name = expected then n.stop name opened
    else (.error (.mismatchedEnd (decodeOrEmpty expected) (decodeOrEmpty name)), { n with opened })

/-- The readings of the pieces of a document. -/
def readingsFrom (n : Nesting) : List Piece → List Reading
  | [] => []
  | ⟨offset, piece⟩ :: rest =>
    let n := n.settle
    match piece with
    | .error fault => ⟨offset, .error fault⟩ :: readingsFrom n rest
    | .ok .ignored => ⟨offset, .ok .ignored⟩ :: readingsFrom n rest
    | .ok (.text content) => ⟨offset, .text <$> decodeText content⟩ :: readingsFrom n rest
    | .ok (.cdata content) => ⟨offset, .text <$> decode content⟩ :: readingsFrom n rest
    | .ok (.start content) =>
      let (outcome, n) := n.start content
      ⟨offset, outcome⟩ :: readingsFrom n rest
    | .ok (.empty content) =>
      let (first, inside) := n.start content
      let (second, n) := inside.stop (tagName content) n.opened
      ⟨offset, first⟩ :: ⟨offset, second⟩ :: readingsFrom n rest
    | .ok (.stop content) =>
      let (outcome, n) := n.endTag content
      ⟨offset, outcome⟩ :: readingsFrom n rest

/-- The readings of a document. -/
def readings (bytes : List UInt8) : List Reading :=
  readingsFrom .outside (markup bytes)

end FeatureMarkup.Xml

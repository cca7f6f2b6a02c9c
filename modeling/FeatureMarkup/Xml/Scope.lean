import FeatureMarkup.Xml.Assignment

/-! Namespace declarations and the part of a document they hold in.

A declaration binds a label, or the default namespace, from its own element on. It
ends with that element: leaving an element drops the declarations made deeper than
what is left. An end tag that does not match leaves nothing. -/
namespace FeatureMarkup.Xml

/-- The namespace of the label `xml`. -/
def xmlSpace : List UInt8 := octets "http://www.w3.org/XML/1998/namespace"

/-- The namespace of the label `xmlns`. -/
def xmlnsSpace : List UInt8 := octets "http://www.w3.org/2000/xmlns/"

/-- A name as written, cut at its first colon. -/
def splitName (name : List UInt8) : Option (List UInt8) × List UInt8 :=
  match name.dropWhile (· ≠ octet ':') with
  | [] => (none, name)
  | _ :: localPart => (some (name.takeWhile (· ≠ octet ':')), localPart)

/-- The label that a key declares a namespace for, if it does: none for the default
namespace. -/
def declared? (key : List UInt8) : Option (Option (List UInt8)) :=
  if key = octets "xmlns" then some none
  else if (octets "xmlns:").isPrefixOf key then some (some (key.drop 6))
  else none

/-- A label, none for the default namespace, bound at a level of nesting. -/
structure Binding where
  label : Option (List UInt8)
  space : List UInt8
  level : Nat

/-- The declarations in force, the latest first, and the level of nesting. -/
structure Scope where
  bindings : List Binding
  level : Nat

namespace Scope

/-- What holds before the first element. -/
def initial : Scope :=
  { bindings := [⟨some (octets "xmlns"), xmlnsSpace, 0⟩, ⟨some (octets "xml"), xmlSpace, 0⟩]
    level := 0 }

/-- The scope with one declaration more. The two reserved labels keep their
namespaces and no other label takes them; an empty label binds the default. -/
def declare (s : Scope) (label : Option (List UInt8)) (space : List UInt8) :
    Except DeclarationFault Scope :=
  let bind (label : Option (List UInt8)) : Scope :=
    { s with bindings := ⟨label, space, s.level⟩ :: s.bindings }
  match label with
  | none => .ok (bind none)
  | some label =>
    if label = octets "xml" then
      if space = xmlSpace then .ok s else .error (.boundXml space)
    else if label = octets "xmlns" then .error (.boundXmlns space)
    else if space = xmlSpace then .error (.stolenXml label)
    else if space = xmlnsSpace then .error (.stolenXmlns label)
    else .ok (bind (if label.isEmpty then none else some label))

/-- The scope with the declarations among the assignments of a tag, up to the first
that is refused, and that refusal. -/
def declareAll (s : Scope) : List (List UInt8 × List UInt8) → Scope × Option DeclarationFault
  | [] => (s, none)
  | (key, value) :: rest =>
    match declared? key with
    | none => s.declareAll rest
    | some label =>
      match s.declare label value with
      | .error fault => (s, some fault)
      | .ok s => s.declareAll rest

/-- The scope inside an element with these assignments. A refused declaration leaves
the earlier ones and the new level in place. -/
def enter (s : Scope) (assignments : List (List UInt8 × List UInt8)) :
    Scope × Option DeclarationFault :=
  { s with level := s.level + 1 }.declareAll assignments

/-- The scope behind an element. -/
def leave (s : Scope) : Scope :=
  let level := s.level - 1
  { bindings := s.bindings.dropWhile (level < ·.level), level }

/-- The namespace of a label, none where it is not bound or bound to nothing. -/
def space? (s : Scope) (label : Option (List UInt8)) : Option (List UInt8) :=
  match s.bindings.find? (·.label = label) with
  | some binding => if binding.space.isEmpty then none else some binding.space
  | none => none

end Scope

end FeatureMarkup.Xml

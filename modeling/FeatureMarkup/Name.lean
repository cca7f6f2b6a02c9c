/-! Names of elements, attributes, properties and feature types.

A name is a local part and, where it has one, the namespace it belongs to. The
empty namespace is no namespace, and the type says so, so a name is written in
one way only: `{namespace}local`, or the local part alone. -/
namespace FeatureMarkup

/-- An expanded name. -/
structure Name where
  /-- The namespace, none for a name outside any. -/
  space : Option String
  localPart : String
  space_ne_empty : space ≠ some ""
deriving DecidableEq, Repr

namespace Name

/-- A name of a namespace; an empty one counts as none. -/
def ofParts (space : Option String) (localPart : String) : Name :=
  if h : space = some "" then ⟨none, localPart, nofun⟩ else ⟨space, localPart, h⟩

/-- A name outside any namespace. -/
def unqualified (localPart : String) : Name :=
  ⟨none, localPart, nofun⟩

/-- A name of a namespace; an empty one counts as none. -/
def qualified (space localPart : String) : Name :=
  ofParts (some space) localPart

/-- Whether a name has exactly this namespace, or none, and this local part. -/
def hasParts (n : Name) (space : Option String) (localPart : String) : Bool :=
  n.space = space && n.localPart = localPart

/-- The name in Clark notation. -/
def display (n : Name) : String :=
  match n.space with
  | some space => "\x7b" ++ space ++ "\x7d" ++ n.localPart
  | none => n.localPart

instance : ToString Name := ⟨display⟩

/-- Names without a namespace come first, then namespaces and local parts decide,
each by code point. -/
def order (a b : Name) : Ordering :=
  let spaces : Ordering :=
    match a.space, b.space with
    | none, none => .eq
    | none, some _ => .lt
    | some _, none => .gt
    | some a, some b => compare a b
  spaces.then (compare a.localPart b.localPart)

theorem ofParts_none (localPart : String) : ofParts none localPart = unqualified localPart := by
  simp [ofParts, unqualified]

theorem qualified_empty (localPart : String) : qualified "" localPart = unqualified localPart := by
  simp [qualified, ofParts, unqualified]

end Name

/-! ### Namespaces -/

namespace Space

/-- The markup language up to version 3.1. -/
def gml : String := "http://www.opengis.net/gml"

/-- The markup language from version 3.2 on. -/
def gml32 : String := "http://www.opengis.net/gml/3.2"

/-- Links between documents and within one. -/
def xlink : String := "http://www.w3.org/1999/xlink"

/-- Whether a namespace belongs to the markup language, in either version. -/
def isGml (space : Option String) : Bool :=
  space = some gml || space = some gml32

end Space

end FeatureMarkup

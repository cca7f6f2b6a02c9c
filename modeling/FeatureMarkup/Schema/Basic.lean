import FeatureMarkup.Name

/-! Application schemas: feature types and top-level elements, as declared.

A feature type lists its property declarations in order; each says how often the
property occurs and what kind of value it has. A schema keeps what was declared in
the order of declaration. Of several feature types with one name the last counts,
and so does the last head that an element was declared with. -/
namespace FeatureMarkup

/-- How often a property may occur at most. -/
inductive MaxOccurs where
  | bounded (limit : UInt32)
  | unbounded
deriving DecidableEq, Repr

namespace MaxOccurs

/-- Whether so many occurrences are not too many. -/
def allows : MaxOccurs → UInt32 → Bool
  | .bounded limit, n => n ≤ limit
  | .unbounded, _ => true

/-- The limit as text. -/
def display : MaxOccurs → String
  | .bounded limit => toString limit.toNat
  | .unbounded => "unbounded"

/-- The limit, raised to a least number of occurrences where it lies below it. -/
def raise (max : MaxOccurs) (min : UInt32) : MaxOccurs :=
  if max.allows min then max else .bounded min

theorem allows_raise (max : MaxOccurs) (min : UInt32) : (max.raise min).allows min = true := by
  unfold raise
  split
  · assumption
  · simp [allows]

end MaxOccurs

/-- What the value of a property is. -/
inductive Category where
  | simple
  | code
  | measure
  | envelope
  | geometry
  /-- Markup kept as it is. -/
  | complex
  /-- A feature, inline or by reference; with no type given, any. -/
  | feature (valueType : Option Name)
deriving DecidableEq, Repr

/-- One property of a feature type. The most occurrences are never fewer than the
least. -/
structure Declaration where
  name : Name
  minOccurs : UInt32
  maxOccurs : MaxOccurs
  category : Category
  allows_minOccurs : maxOccurs.allows minOccurs = true
deriving DecidableEq

namespace Declaration

/-- A property that occurs exactly once. -/
def single (name : Name) (category : Category) : Declaration :=
  ⟨name, 1, .bounded 1, category, rfl⟩

/-- The declaration with other limits, the upper one raised to the lower if need be. -/
def occurs (d : Declaration) (min : UInt32) (max : MaxOccurs) : Declaration :=
  ⟨d.name, min, max.raise min, d.category, max.allows_raise min⟩

/-- The declaration of a property that may be left out. -/
def optional (d : Declaration) : Declaration :=
  d.occurs 0 (.bounded 1)

end Declaration

/-- A type of features. -/
structure FeatureType where
  name : Name
  /-- The properties in the order in which they must come. -/
  properties : List Declaration
  superType : Option Name
  isAbstract : Bool
deriving DecidableEq

/-- A feature type's property with a name. -/
def FeatureType.property? (t : FeatureType) (name : Name) : Option Declaration :=
  t.properties.find? (·.name = name)

/-- A top-level element, in the substitution group of `head` if it has one. -/
structure Element where
  name : Name
  head : Option Name
deriving DecidableEq, Repr

/-- What has been declared, in order. -/
structure Schema where
  types : List FeatureType
  elements : List Element

namespace Schema

/-- Nothing declared. -/
def empty : Schema := ⟨[], []⟩

/-- The schema with one feature type more. -/
def addType (s : Schema) (t : FeatureType) : Schema :=
  { s with types := s.types ++ [t] }

/-- The schema with one top-level element more. -/
def addElement (s : Schema) (name : Name) (head : Option Name) : Schema :=
  { s with elements := s.elements ++ [⟨name, head⟩] }

/-- The feature type with a name: the last one declared. -/
def featureType? (s : Schema) (name : Name) : Option FeatureType :=
  s.types.reverse.find? (·.name = name)

/-- The names of all feature types, each once. -/
def typeNames (s : Schema) : List Name :=
  (s.types.map (·.name)).eraseDups

/-- Whether a name is a top-level element; the name of a feature type is one. -/
def isElement (s : Schema) (name : Name) : Bool :=
  s.types.any (·.name = name) || s.elements.any (·.name = name)

/-- The type that a feature type is directly derived from. -/
def superType? (s : Schema) (name : Name) : Option Name :=
  s.featureType? name >>= (·.superType)

/-- The head an element is declared with; a later declaration without a head leaves
it. -/
def head? (s : Schema) (name : Name) : Option Name :=
  s.elements.reverse.findSome? fun e => if e.name = name then e.head else none

end Schema

end FeatureMarkup

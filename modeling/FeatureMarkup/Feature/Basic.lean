import FeatureMarkup.Feature.Tree
import FeatureMarkup.Geometry.Basic
import FeatureMarkup.Schema.Basic

/-! Features: typed objects with properties in document order.

The value of a property is one of a few kinds, or of a type of the user's own, `κ`.
A reference to another feature is kept as the number of a link; the links themselves
are kept with the registry of features. -/
namespace FeatureMarkup

/-- A code, with the list it is taken from if stated. -/
structure Code where
  code : String
  space : Option String
deriving DecidableEq, Repr

/-- A number with its unit if stated. -/
structure Measure where
  value : Float
  unit : Option String

mutual

/-- The value of a property. -/
inductive Value (κ : Type) where
  | text (text : String)
  | code (code : Code)
  | measure (measure : Measure)
  | geometry (geometry : Geometry)
  | envelope (envelope : Envelope)
  | feature (feature : Feature κ)
  | link (number : Nat)
  | tree (tree : MarkupTree)
  | custom (value : κ)

/-- One occurrence of a property. -/
structure Property (κ : Type) where
  declaration : Declaration
  /-- The name of the element, which may stand in for the declared one. -/
  name : Name
  value : Value κ

/-- A feature. -/
structure Feature (κ : Type) where
  /-- The identity, empty for a feature without one. -/
  id : String
  type : FeatureType
  properties : List (Property κ)

end

variable {κ : Type}

namespace Value

/-- The text of a simple value. -/
def asText? : Value κ → Option String
  | .text s => some s
  | _ => none

/-- The number of the link that a value is. -/
def link? : Value κ → Option Nat
  | .link number => some number
  | _ => none

end Value

namespace Feature

/-- The identity of a feature that has one. -/
def id? (f : Feature κ) : Option String :=
  if f.id.isEmpty then none else some f.id

/-- The name of a feature's type. -/
def name (f : Feature κ) : Name := f.type.name

/-- The properties under a declaration, those with other element names too. -/
def propertiesOf (f : Feature κ) (name : Name) : List (Property κ) :=
  f.properties.filter (·.declaration.name = name)

/-- The first property under a declaration. -/
def property? (f : Feature κ) (name : Name) : Option (Property κ) :=
  f.properties.find? (·.declaration.name = name)

/-- The numbers of the links among a feature's own properties. -/
def links (f : Feature κ) : List Nat :=
  f.properties.filterMap (·.value.link?)

end Feature

/-- Whether text can be the id of a feature: it does not begin with a digit and has
no colon behind its first character. -/
def isFeatureId (id : String) : Bool :=
  match id.toList with
  | [] => true
  | first :: rest => !first.isDigit && !rest.contains ':'

end FeatureMarkup

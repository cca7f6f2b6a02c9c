import FeatureMarkup.Log
import FeatureMarkup.Schema.Basic

/-! What may stand in for what.

An element may stand in for the heads it reaches, and a feature type for the types
it is derived from, directly or through others. Both follow a chain of names, each
with at most one next; a chain that comes back to a name it has met goes round for
ever, and is followed only until then. -/
namespace FeatureMarkup

/-- The names met on a chain, in order, and the first that is met again. -/
structure Trail where
  names : List Name
  repeated : Option Name

namespace Trail

/-- The chain from `current` on, after the names `met`, the latest first, with so
many steps at most. -/
def follow (next : Name → Option Name) : Nat → List Name → Option Name → Trail
  | _, met, none => ⟨met.reverse, none⟩
  | 0, met, some _ => ⟨met.reverse, none⟩
  | steps + 1, met, some name =>
    if name ∈ met then ⟨met.reverse, some name⟩
    else follow next steps (name :: met) (next name)

end Trail

namespace Schema

/-! ### Substitution groups -/

/-- The heads an element reaches. A chain without repetition has no more names than
there are elements with heads, and one last head. -/
def heads (s : Schema) (element : Name) : Trail :=
  .follow s.head? (s.elements.length + 2) [] (s.head? element)

/-- Whether an element is in the substitution group of a head. -/
def isMember (s : Schema) (element head : Name) : Bool :=
  element ≠ head && (s.heads element).names.contains head

/-- The elements that have a head, each once. -/
def substitutes (s : Schema) : List Name :=
  ((s.elements.filter (·.head.isSome)).map (·.name)).eraseDups

/-- The substitution group of a head, none if it has no member. -/
def group? (s : Schema) (head : Name) : Option (List Name) :=
  match s.substitutes.filter (s.isMember · head) with
  | [] => none
  | members => some members

/-- A warning for every element whose heads go round. -/
def warnings (s : Schema) : List Note :=
  s.substitutes.filterMap fun element =>
    (s.heads element).repeated.map fun head =>
      ⟨.warning, s!"Substitution group cycle detected at '{head}'"⟩

/-! ### Elements in place of declared ones -/

/-- Whether an element may stand where `declared` is declared: it has that name, or
both are top-level elements and it is in the group. -/
def admits (s : Schema) (element declared : Name) : Bool :=
  element = declared ||
    (s.isElement element && s.isElement declared && s.isMember element declared)

/-- What there is to report on admitting an element. -/
def admissionNotes (s : Schema) (element declared : Name) : List Note :=
  if element = declared then []
  else if !(s.isElement element && s.isElement declared) then
    [⟨.debug, s!"'{element}' cannot substitute '{declared}': not a top-level element declaration"⟩]
  else if s.isMember element declared then
    [⟨.debug, s!"'{element}' substitutes '{declared}'"⟩]
  else []

/-! ### Derived types -/

/-- A feature type and those it is derived from. -/
def ancestry (s : Schema) (type : Name) : Trail :=
  .follow s.superType? (s.types.length + 2) [] (some type)

/-- Whether a feature of type `actual` may stand where `expected` is asked for. -/
def derives (s : Schema) (expected actual : Name) : Bool :=
  (s.ancestry actual).names.contains expected

end Schema

end FeatureMarkup

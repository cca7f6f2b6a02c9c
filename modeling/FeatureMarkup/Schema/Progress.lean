import FeatureMarkup.Schema.Substitution

/-! How far a feature's properties have come through the declarations of its type.

The properties of a feature come in the order of the declarations. One declaration
is active; an element either counts for it or moves on to the first later one it
matches. A declaration left behind must have occurred often enough and is never come
back to. Counts are 32-bit words. -/
namespace FeatureMarkup

/-- What is wrong with an element, or with the end of the elements. -/
inductive Violation where
  /-- No declaration from the active one on takes the element. -/
  | unexpected
  /-- A declaration was left, or the elements ended, with too few occurrences of it. -/
  | under (declaration : Declaration) (found : UInt32)
  /-- One occurrence too many. -/
  | over (declaration : Declaration)

/-- The active declaration's place in the list, and how often it has occurred. -/
structure Progress where
  active : Nat
  count : UInt32
deriving DecidableEq, Repr

namespace Progress

/-- Before the first element. -/
def initial : Progress := ⟨0, 0⟩

/-- Moves on from `left`, which is active and does not take the element, to the first
of the `later` declarations that does. The place reached is kept also on failure. -/
def moveOn (takes : Declaration → Bool) (p : Progress) (left : Declaration) :
    List Declaration → Except Violation Declaration × Progress
  | [] =>
    if p.count < left.minOccurs then (.error (.under left p.count), p)
    else (.error .unexpected, ⟨p.active + 1, 0⟩)
  | next :: later =>
    if p.count < left.minOccurs then (.error (.under left p.count), p)
    else if takes next then (.ok next, ⟨p.active + 1, 1⟩)
    else moveOn takes ⟨p.active + 1, 0⟩ next later

/-- Finds the declaration that an element counts for. -/
def accept (takes : Declaration → Bool) (declarations : List Declaration) (p : Progress) :
    Except Violation Declaration × Progress :=
  match declarations.drop p.active with
  | [] => (.error .unexpected, p)
  | current :: later =>
    if takes current then
      if current.maxOccurs.allows (p.count + 1) then (.ok current, { p with count := p.count + 1 })
      else (.error (.over current), p)
    else
      p.moveOn takes current later

/-- The first declaration that has not occurred often enough, with its place: the
first of those given has occurred `count` times and the others not at all. -/
def firstUnder (place : Nat) (count : UInt32) : List Declaration → Option (Nat × Declaration × UInt32)
  | [] => none
  | d :: later =>
    if count < d.minOccurs then some (place, d, count) else firstUnder (place + 1) 0 later

/-- The declaration that the end of the elements leaves with too few occurrences, and
its place, if the rest of the declarations is checked. -/
def shortfall? (declarations : List Declaration) (p : Progress) (checkRest : Bool) :
    Option (Nat × Declaration × UInt32) :=
  if checkRest then firstUnder p.active p.count (declarations.drop p.active) else none

/-- Ends the elements. -/
def finish (declarations : List Declaration) (p : Progress) (checkRest : Bool) :
    Except Violation Unit :=
  match p.shortfall? declarations checkRest with
  | some (_, d, found) => .error (.under d found)
  | none => .ok ()

/-- The declarations an element has been held against, between two places. -/
def consulted (declarations : List Declaration) (before after : Progress) : List Declaration :=
  (declarations.drop before.active).take (after.active - before.active + 1)

end Progress

/-- Finds the declaration that an element counts for, by the substitutions of a schema. -/
def Schema.accept (s : Schema) (declarations : List Declaration) (p : Progress) (element : Name) :
    Except Violation Declaration × Progress :=
  p.accept (fun d => s.admits element d.name) declarations

/-- What there is to report on an element, given the places before and after it. -/
def Schema.acceptNotes (s : Schema) (declarations : List Declaration) (before after : Progress)
    (element : Name) : List Note :=
  (Progress.consulted declarations before after).flatMap fun d => s.admissionNotes element d.name

end FeatureMarkup

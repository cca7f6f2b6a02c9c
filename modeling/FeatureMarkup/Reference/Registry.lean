import FeatureMarkup.Error
import FeatureMarkup.Feature.Basic
import FeatureMarkup.Log

/-! The features of a document that have ids, and the references to them.

Features are registered once complete, in document order, each id once. A reference
makes a link with two slots that are written once: the feature that holds it, and
the feature it refers to. A link to a registered feature is resolved at once; the
others wait until `settle`, which resolves those it can and reports the rest. -/
namespace FeatureMarkup

/-- A place for a feature, written once. What is in it may cease to exist. -/
inductive Slot (κ : Type) where
  | unset
  | bound (feature : Feature κ)
  | expired

/-- A reference to a feature by its id. -/
structure Link (κ : Type) where
  targetId : String
  owner : Slot κ
  target : Slot κ

/-- A link that waits for its target, and where it was met. -/
structure PendingLink where
  number : Nat
  targetId : String
  ownerId : String
  property : Name
  occurrence : Nat
deriving DecidableEq, Repr

/-- The registered features in order, all links by number, and those that wait. -/
structure Registry (κ : Type) where
  features : List (Feature κ)
  links : List (Link κ)
  pending : List PendingLink

/-- An id that is registered already. -/
structure DuplicateId where
  id : String
deriving DecidableEq, Repr

/-- A repeated id in words. -/
def DuplicateId.message (e : DuplicateId) : String :=
  s!"feature id '{e.id}' is already registered"

/-- An unresolved reference in words, as a warning. -/
def DanglingReference.note (r : DanglingReference) : Note :=
  ⟨.warning,
    s!"Unresolved reference '#{r.targetId}' in property '{r.property}' of feature '{r.ownerId}'"⟩

variable {κ : Type}

namespace Slot

/-- The feature in a slot. -/
def feature? : Slot κ → Option (Feature κ)
  | .bound feature => some feature
  | _ => none

/-- Whether a slot has been written. -/
def isSet : Slot κ → Bool
  | .unset => false
  | _ => true

/-- The slot written, unless it is already. -/
def write (feature : Feature κ) : Slot κ → Slot κ
  | .unset => .bound feature
  | slot => slot

/-- The slot after its feature has ceased to exist. -/
def expire : Slot κ → Slot κ
  | .bound _ => .expired
  | slot => slot

end Slot

namespace Link

/-- A new link. -/
def unbound (targetId : String) : Link κ := ⟨targetId, .unset, .unset⟩

/-- The link as it is written in a document. -/
def href (l : Link κ) : String := "#" ++ l.targetId

/-- Whether the target has been found. -/
def isResolved (l : Link κ) : Bool := l.target.isSet

/-- The link with its owner, if it has none yet. -/
def bindOwner (owner : Feature κ) (l : Link κ) : Link κ :=
  { l with owner := l.owner.write owner }

/-- The link with its target, if it has none yet. -/
def resolve (target : Feature κ) (l : Link κ) : Link κ :=
  { l with target := l.target.write target }

/-- The link after the features it names have ceased to exist. -/
def expire (l : Link κ) : Link κ :=
  { l with owner := l.owner.expire, target := l.target.expire }

end Link

namespace Registry

/-- Nothing registered. -/
def empty : Registry κ := ⟨[], [], []⟩

/-- The feature with an id. -/
def feature? (r : Registry κ) (id : String) : Option (Feature κ) :=
  r.features.find? (·.id = id)

/-- Whether an id is registered. -/
def contains (r : Registry κ) (id : String) : Bool :=
  (r.feature? id).isSome

/-- The ids of the registered features, in order. -/
def ids (r : Registry κ) : List String :=
  r.features.map (·.id)

/-- The registry with one feature more; one without an id is not registered. -/
def register (r : Registry κ) (f : Feature κ) : Except DuplicateId (Registry κ) :=
  if f.id.isEmpty then .ok r
  else if r.contains f.id then .error ⟨f.id⟩
  else .ok { r with features := r.features ++ [f] }

/-- What there is to report on a feature that has been registered. -/
def registrationNotes (f : Feature κ) : List Note :=
  if f.id.isEmpty then [] else [⟨.debug, s!"Registered feature '{f.id}'"⟩]

/-- The registry with one link changed. -/
def modifyLink (r : Registry κ) (number : Nat) (change : Link κ → Link κ) : Registry κ :=
  { r with links := r.links.modify number change }

/-- The registry with a feature as the owner of its links. -/
def bindLinks (r : Registry κ) (f : Feature κ) : Registry κ :=
  f.links.foldl (fun r number => r.modifyLink number (.bindOwner f)) r

/-- The registry with one link more, and its number. -/
def refer (r : Registry κ) (ownerId : String) (property : Name) (occurrence : Nat)
    (targetId : String) : Nat × Registry κ :=
  let number := r.links.length
  match r.feature? targetId with
  | some target => (number, { r with links := r.links ++ [(Link.unbound targetId).resolve target] })
  | none =>
    (number,
      { r with
        links := r.links ++ [.unbound targetId]
        pending := r.pending ++ [⟨number, targetId, ownerId, property, occurrence⟩] })

/-- The registry after one of the pending links has found its target or not, and what
there is to report in the latter case. -/
def settleOne (r : Registry κ) (p : PendingLink) : Registry κ × Option DanglingReference :=
  match r.feature? p.targetId with
  | some target => (r.modifyLink p.number (.resolve target), none)
  | none => (r, some ⟨p.targetId, p.ownerId, p.property, p.occurrence⟩)

/-- The registry after some pending links, and the references that dangle. -/
def settleAll (r : Registry κ) : List PendingLink → Registry κ × List DanglingReference
  | [] => (r, [])
  | p :: rest =>
    let (r, dangling) := r.settleOne p
    let (r, later) := r.settleAll rest
    (r, dangling.toList ++ later)

/-- Resolves what can be resolved; nothing waits any longer. -/
def settle (r : Registry κ) : Registry κ × List DanglingReference :=
  { r with pending := [] }.settleAll r.pending

/-- The links after the registry and its features have ceased to exist. -/
def abandon (r : Registry κ) : List (Link κ) :=
  r.links.map Link.expire

/-- The feature that a value stands for: an inline one, or the target of a link. -/
def featureOf? (r : Registry κ) : Value κ → Option (Feature κ)
  | .feature feature => some feature
  | .link number => r.links[number]? >>= (·.target.feature?)
  | _ => none

end Registry

end FeatureMarkup

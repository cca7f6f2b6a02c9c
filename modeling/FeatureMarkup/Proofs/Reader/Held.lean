import FeatureMarkup.Proofs.Reader.Making
import FeatureMarkup.Proofs.Reference.Growth

/-! Which features a registry holds.

Features are in a registry as registered ones and as the owners and the targets of links. All of
them come from the features that are read: what is true of these, and of what the registry held
before, is true of all that it holds in the end. -/
namespace FeatureMarkup

variable {κ : Type} {P : Feature κ → Prop}

/-- The feature in a slot, if there is one, is of some kind. -/
def Slot.HoldsOnly (P : Feature κ → Prop) (slot : Slot κ) : Prop :=
  ∀ f, slot = .bound f → P f

/-- The owner and the target of a link are of some kind. -/
def Link.HoldsOnly (P : Feature κ → Prop) (l : Link κ) : Prop :=
  l.owner.HoldsOnly P ∧ l.target.HoldsOnly P

/-- All features in a registry are of some kind. -/
structure Registry.HoldsOnly (P : Feature κ → Prop) (r : Registry κ) : Prop where
  features : ∀ f ∈ r.features, P f
  links : ∀ l ∈ r.links, l.HoldsOnly P

theorem Slot.HoldsOnly.write {slot : Slot κ} {f : Feature κ} (h : slot.HoldsOnly P) (hf : P f) :
    (slot.write f).HoldsOnly P := by
  intro g hg
  cases slot with
  | unset =>
    cases hg
    exact hf
  | bound | expired => exact h g hg

theorem Link.holdsOnly_unbound (targetId : String) : (unbound targetId : Link κ).HoldsOnly P :=
  ⟨nofun, nofun⟩

theorem Link.HoldsOnly.bindOwner {l : Link κ} {f : Feature κ} (h : l.HoldsOnly P) (hf : P f) :
    (l.bindOwner f).HoldsOnly P :=
  ⟨h.1.write hf, h.2⟩

theorem Link.HoldsOnly.resolve {l : Link κ} {f : Feature κ} (h : l.HoldsOnly P) (hf : P f) :
    (l.resolve f).HoldsOnly P :=
  ⟨h.1, h.2.write hf⟩

namespace Registry
variable {r r' : Registry κ} {f : Feature κ}

theorem holdsOnly_empty : (empty : Registry κ).HoldsOnly P := ⟨nofun, nofun⟩

theorem HoldsOnly.found (h : r.HoldsOnly P) {id : String} (hf : r.feature? id = some f) : P f :=
  h.features f (List.mem_of_find?_eq_some hf)

theorem HoldsOnly.modifyLink (h : r.HoldsOnly P) {number : Nat} {change : Link κ → Link κ}
    (hchange : ∀ l : Link κ, l.HoldsOnly P → (change l).HoldsOnly P) :
    (r.modifyLink number change).HoldsOnly P := by
  refine ⟨h.features, fun l hl => ?_⟩
  obtain ⟨i, hi⟩ := List.getElem?_of_mem hl
  obtain ⟨l', hl', rfl⟩ := Option.map_eq_some_iff.1 ((List.getElem?_modify ..).symm.trans hi)
  have hmem := h.links l' (List.mem_of_getElem? hl')
  split
  · exact hchange l' hmem
  · exact hmem

theorem HoldsOnly.bindLinks (h : r.HoldsOnly P) (hf : P f) : (r.bindLinks f).HoldsOnly P := by
  unfold Registry.bindLinks
  generalize f.links = numbers
  induction numbers generalizing r with
  | nil => exact h
  | cons number rest ih => exact ih (h.modifyLink fun l hl => hl.bindOwner hf)

theorem HoldsOnly.register (h : r.HoldsOnly P) (hf : P f) (hr : r.register f = .ok r') :
    r'.HoldsOnly P := by
  rcases register_eq_ok.1 hr with ⟨-, rfl⟩ | ⟨-, -, rfl⟩
  · exact h
  · exact ⟨List.forall_mem_append.2 ⟨h.features, List.forall_mem_singleton.2 hf⟩, h.links⟩

theorem HoldsOnly.refer (h : r.HoldsOnly P) (ownerId : String) (property : Name) (occurrence : Nat)
    (targetId : String) : (r.refer ownerId property occurrence targetId).2.HoldsOnly P := by
  unfold Registry.refer
  split
  next target hfound =>
    exact ⟨h.features, List.forall_mem_append.2 ⟨h.links, List.forall_mem_singleton.2
      ((Link.holdsOnly_unbound targetId).resolve (h.found hfound))⟩⟩
  next =>
    exact ⟨h.features, List.forall_mem_append.2 ⟨h.links, List.forall_mem_singleton.2
      (Link.holdsOnly_unbound targetId)⟩⟩

theorem HoldsOnly.settleOne (h : r.HoldsOnly P) (w : PendingLink) : (r.settleOne w).1.HoldsOnly P := by
  unfold Registry.settleOne
  split
  next target hfound => exact h.modifyLink fun l hl => hl.resolve (h.found hfound)
  next => exact h

theorem HoldsOnly.settleAll (h : r.HoldsOnly P) (waiting : List PendingLink) :
    (r.settleAll waiting).1.HoldsOnly P := by
  induction waiting generalizing r with
  | nil => exact h
  | cons w rest ih => exact ih (h.settleOne w)

theorem HoldsOnly.settle (h : r.HoldsOnly P) : r.settle.1.HoldsOnly P :=
  settleAll (r := { r with pending := [] }) ⟨h.features, h.links⟩ r.pending

end Registry

/-! ### Reading -/

/-- What is read into a registry, if all that is read is of a kind and the registry had nothing
else, leaves it with nothing else. -/
def Adding (a : Registry κ) (f : Feature κ) (b : Registry κ) : Prop :=
  ∀ P, a.HoldsOnly P → (∀ g ∈ f.features, P g) → b.HoldsOnly P

variable {r : FeatureReader κ}

/-- No property that has been read is lost. -/
theorem PropertiesMade.subset {F : Registry κ → Feature κ → Registry κ → Prop} {type : FeatureType}
    {id : String} {p p' : Partway κ} {a b : Registry κ} (h : PropertiesMade r F type id p a p' b) :
    ∀ q ∈ p.properties, q ∈ p'.properties := by
  induction h with
  | nil => exact fun _ hq => hq
  | cons _ _ _ ih => exact fun q hq => ih q (List.mem_cons_of_mem _ hq)

theorem PropertiesMade.holdsOnly {type : FeatureType} {id : String} {p p' : Partway κ}
    {a b : Registry κ} (h : PropertiesMade r Adding type id p a p' b) (ha : a.HoldsOnly P)
    (hP : ∀ q ∈ p'.properties, ∀ g ∈ q.features, P g) : b.HoldsOnly P := by
  induction h with
  | nil => exact ha
  | cons _ hvalue hrest ih =>
    have hmem := hP _ (hrest.subset _ List.mem_cons_self)
    refine ih ?_ hP
    cases hvalue with
    | custom | plain => exact ha
    | link _ hrefer =>
      obtain rfl := congrArg Prod.snd hrefer
      exact ha.refer _ _ _ _
    | inline _ _ hf => exact hf P ha hmem

theorem FeatureMade.adding {a b : Registry κ} {f : Feature κ} (h : FeatureMade r Adding a f b) :
    Adding a f b := by
  intro P ha hP
  cases h with
  | intro _ _ _ hmade _ hregister =>
    rw [Feature.features_eq] at hP
    obtain ⟨hinside, hself⟩ := List.forall_mem_append.1 hP
    have hself := List.forall_mem_singleton.1 hself
    have hmiddle := hmade.holdsOnly ha fun q hq g hg =>
      hinside g (Property.mem_allFeatures.2 ⟨q, List.mem_reverse.2 hq, hg⟩)
    exact (hmiddle.bindLinks hself).register hself hregister

/-- The features that the registry of a document holds are those of the document. -/
theorem FeatureReader.holdsOnly_readDocument {srs : Option String} {c : Cursor} {d : Document κ}
    {s' : Session κ} (h : r.readDocument srs (.ofCursor c) = .ok d s') :
    d.registry.HoldsOnly (· ∈ d.root.features) := by
  obtain ⟨_, _, c₁, root, s₁, dangling, -, hroot, hsettle, -, rfl⟩ := readDocument_eq_ok.1 h
  have hadding : Adding _ root s₁.registry :=
    made_of_featureWithin (fun _ _ _ hmade => hmade.adding) srs _ _ _ _ hroot
  have hheld := (hadding (· ∈ root.features) Registry.holdsOnly_empty fun g hg => hg).settle
  rwa [hsettle] at hheld

end FeatureMarkup

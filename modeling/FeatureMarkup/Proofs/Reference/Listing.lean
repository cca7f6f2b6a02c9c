import FeatureMarkup.Proofs.Feature.Nesting
import FeatureMarkup.Proofs.Reference.Growth
import FeatureMarkup.Proofs.Schema.Places

/-! The references in a feature, in document order.

`references` lists them with those of the features inside, each where its property stands,
whether it is resolved or not. The place that a property takes among the declarations tells
which occurrence of its declaration it is; the places so far and the latest of them are
handed on from one property to the next. -/
namespace FeatureMarkup

variable {κ : Type}

mutual

/-- The references in a feature and in those inside it. -/
def Feature.references (s : Schema) : Feature κ → List (Reference κ)
  | ⟨id, type, properties⟩ =>
    Property.allReferences s type.properties (.bound ⟨id, type, properties⟩) id [] 0 properties

/-- The references in some properties of one feature, behind others that have taken these
places, and the given one last. -/
def Property.allReferences (s : Schema) (declarations : List Declaration) (owner : Slot κ)
    (id : String) (before : List Nat) (active : Nat) : List (Property κ) → List (Reference κ)
  | [] => []
  | p :: rest =>
    let place := Progress.place (fun d => s.admits p.name d.name) declarations active
    p.references s owner id (before.count place) ++
      Property.allReferences s declarations owner id (before ++ [place]) place rest

/-- The references in a property of a feature, with its occurrence. -/
def Property.references (s : Schema) (owner : Slot κ) (id : String) (occurrence : Nat) :
    Property κ → List (Reference κ)
  | ⟨d, _, value⟩ => value.references s owner id d.name occurrence

/-- The references in a value of a property. -/
def Value.references (s : Schema) (owner : Slot κ) (id : String) (property : Name)
    (occurrence : Nat) : Value κ → List (Reference κ)
  | .link number => [⟨number, owner, id, property, occurrence⟩]
  | .feature f => f.references s
  | _ => []

end

theorem Feature.references_eq (s : Schema) (f : Feature κ) :
    f.references s =
      Property.allReferences s f.type.properties (.bound f) f.id [] 0 f.properties := by
  cases f
  rfl

theorem Property.references_eq (s : Schema) (owner : Slot κ) (id : String) (occurrence : Nat)
    (p : Property κ) : p.references s owner id occurrence =
      p.value.references s owner id p.declaration.name occurrence := by
  cases p
  rfl

/-- The links of a feature with these properties. -/
theorem Feature.mem_links {number : Nat} {f : Feature κ} :
    number ∈ f.links ↔ ∃ p ∈ f.properties, p.value.link? = some number := by
  simp [links]

/-! ### Owners -/

mutual

/-- Every reference in a feature has its owner among the features there, and is one of its
links. -/
theorem Feature.owner_of_mem {s : Schema} {ref : Reference κ} :
    ∀ {f : Feature κ}, ref ∈ f.references s →
      ∃ g ∈ f.features, ref.owner = .bound g ∧ ref.number ∈ g.links
  | ⟨id, type, properties⟩, h => by
    rw [Feature.references] at h
    rw [Feature.features]
    rcases Property.owner_of_mem h with ⟨howner, p, hp, hlink⟩ | ⟨g, hg, howner⟩
    · exact ⟨_, List.mem_append_right _ (List.mem_singleton_self _), howner,
        Feature.mem_links.2 ⟨p, hp, hlink⟩⟩
    · exact ⟨g, List.mem_append_left _ hg, howner⟩

theorem Property.owner_of_mem {s : Schema} {declarations : List Declaration} {owner : Slot κ}
    {id : String} {ref : Reference κ} :
    ∀ {before : List Nat} {active : Nat} {properties : List (Property κ)},
      ref ∈ Property.allReferences s declarations owner id before active properties →
      (ref.owner = owner ∧ ∃ p ∈ properties, p.value.link? = some ref.number) ∨
        ∃ g ∈ Property.allFeatures properties, ref.owner = .bound g ∧ ref.number ∈ g.links
  | _, _, [], h => by cases h
  | _, _, ⟨d, name, value⟩ :: rest, h => by
    rw [Property.allReferences, Property.references] at h
    rw [Property.allFeatures, Property.features]
    rcases List.mem_append.1 h with h | h
    · rcases Value.owner_of_mem h with ⟨howner, hlink⟩ | ⟨g, hg, howner⟩
      · exact .inl ⟨howner, _, List.mem_cons_self, hlink⟩
      · exact .inr ⟨g, List.mem_append_left _ hg, howner⟩
    · rcases Property.owner_of_mem h with ⟨howner, p, hp, hlink⟩ | ⟨g, hg, howner⟩
      · exact .inl ⟨howner, p, List.mem_cons_of_mem _ hp, hlink⟩
      · exact .inr ⟨g, List.mem_append_right _ hg, howner⟩

theorem Value.owner_of_mem {s : Schema} {owner : Slot κ} {id : String} {property : Name}
    {occurrence : Nat} {ref : Reference κ} :
    ∀ {value : Value κ}, ref ∈ value.references s owner id property occurrence →
      (ref.owner = owner ∧ value.link? = some ref.number) ∨
        ∃ g ∈ value.features, ref.owner = .bound g ∧ ref.number ∈ g.links
  | .link number, h => by
    rw [Value.references, List.mem_singleton] at h
    exact .inl ⟨h ▸ rfl, h ▸ rfl⟩
  | .feature f, h => by
    rw [Value.references] at h
    exact .inr (Feature.owner_of_mem h)
  | .text _, h | .code _, h | .measure _, h | .geometry _, h | .envelope _, h | .tree _, h
  | .custom _, h => by simp [Value.references] at h

end

/-- The links among some properties are references of the feature that holds these. -/
theorem Property.exists_of_link {s : Schema} {declarations : List Declaration} {owner : Slot κ}
    {id : String} {number : Nat} {p : Property κ} (hlink : p.value.link? = some number) :
    ∀ {before : List Nat} {active : Nat} {properties : List (Property κ)}, p ∈ properties →
      ∃ ref ∈ allReferences s declarations owner id before active properties,
        ref.owner = owner ∧ ref.number = number
  | before, active, q :: rest, hp => by
    rw [allReferences]
    rcases List.mem_cons.1 hp with rfl | hp
    · obtain ⟨d, name, value⟩ := p
      cases value with
      | link number' =>
        cases hlink
        exact ⟨_, List.mem_append_left _ (List.mem_singleton_self _), rfl, rfl⟩
      | _ => cases hlink
    · obtain ⟨ref, href, howner⟩ := exists_of_link hlink hp
      exact ⟨ref, List.mem_append_right _ href, howner⟩

mutual

/-- Every link of every feature is a reference. -/
theorem Feature.exists_reference {s : Schema} {g : Feature κ} {number : Nat}
    (hlink : number ∈ g.links) : ∀ {f : Feature κ}, g ∈ f.features →
      ∃ ref ∈ f.references s, ref.owner = .bound g ∧ ref.number = number
  | ⟨id, type, properties⟩, hg => by
    rw [Feature.features] at hg
    rw [Feature.references]
    rcases List.mem_append.1 hg with hg | hg
    · exact Property.exists_reference hlink hg
    · obtain rfl := List.mem_singleton.1 hg
      obtain ⟨p, hp, hvalue⟩ := Feature.mem_links.1 hlink
      exact Property.exists_of_link hvalue hp

theorem Property.exists_reference {s : Schema} {g : Feature κ} {number : Nat}
    (hlink : number ∈ g.links) {declarations : List Declaration} {owner : Slot κ} {id : String} :
    ∀ {before : List Nat} {active : Nat} {properties : List (Property κ)},
      g ∈ Property.allFeatures properties →
      ∃ ref ∈ Property.allReferences s declarations owner id before active properties,
        ref.owner = .bound g ∧ ref.number = number
  | _, _, [], hg => by cases hg
  | _, _, ⟨d, name, value⟩ :: rest, hg => by
    rw [Property.allFeatures, Property.features] at hg
    rw [Property.allReferences, Property.references]
    rcases List.mem_append.1 hg with hg | hg
    · obtain ⟨ref, href, howner⟩ := Value.exists_reference hlink hg
      exact ⟨ref, List.mem_append_left _ href, howner⟩
    · obtain ⟨ref, href, howner⟩ := Property.exists_reference hlink hg
      exact ⟨ref, List.mem_append_right _ href, howner⟩

theorem Value.exists_reference {s : Schema} {g : Feature κ} {number : Nat}
    (hlink : number ∈ g.links) {owner : Slot κ} {id : String} {property : Name} {occurrence : Nat} :
    ∀ {value : Value κ}, g ∈ value.features →
      ∃ ref ∈ value.references s owner id property occurrence,
        ref.owner = .bound g ∧ ref.number = number
  | .feature f, hg => by
    rw [Value.features] at hg
    rw [Value.references]
    exact Feature.exists_reference hlink hg
  | .text _, hg | .code _, hg | .measure _, hg | .geometry _, hg | .envelope _, hg | .tree _, hg
  | .custom _, hg | .link _, hg => by simp [Value.features] at hg

end

/-! ### Before the owner is written -/

/-- A reference that has an owner keeps it. -/
theorem Reference.own_of_set {f : Feature κ} {ref : Reference κ} (h : ref.owner ≠ .unset) :
    ref.own f = ref := by
  obtain ⟨number, owner, ownerId, property, occurrence⟩ := ref
  cases owner with
  | unset => exact absurd rfl h
  | bound | expired => rfl

/-- The references in an inline feature keep their owners. -/
theorem Feature.map_own (s : Schema) (f g : Feature κ) :
    (g.references s).map (·.own f) = g.references s := by
  have hown : ∀ ref ∈ g.references s, ref.own f = ref := by
    intro ref href
    obtain ⟨_, -, howner, -⟩ := owner_of_mem href
    exact Reference.own_of_set (by simp [howner])
  rw [List.map_congr_left hown, List.map_id']

/-- The references of a feature's own get their owner when it is complete. -/
theorem Property.map_own (s : Schema) (declarations : List Declaration) (f : Feature κ)
    (id : String) (properties : List (Property κ)) : ∀ (before : List Nat) (active : Nat),
    (allReferences s declarations .unset id before active properties).map (·.own f) =
      allReferences s declarations (.bound f) id before active properties := by
  have hvalue : ∀ (value : Value κ) property occurrence,
      (value.references s .unset id property occurrence).map (·.own f) =
        value.references s (.bound f) id property occurrence := by
    intro value property occurrence
    cases value with
    | feature g =>
      rw [Value.references, Value.references]
      exact Feature.map_own s f g
    | link number => simp [Value.references, Reference.own, Slot.write]
    | _ => simp [Value.references]
  induction properties with
  | nil => exact fun _ _ => rfl
  | cons p rest ih =>
    intro before active
    rw [allReferences, allReferences, List.map_append, ih, references_eq, references_eq, hvalue]

/-- The links of a feature are those of its references that have no owner yet. -/
theorem Feature.mem_links_iff {s : Schema} {declarations : List Declaration} {f : Feature κ}
    {id : String} {before : List Nat} {active number : Nat} :
    number ∈ f.links ↔
      ∃ ref ∈ Property.allReferences s declarations .unset id before active f.properties,
        ref.owner = .unset ∧ ref.number = number := by
  constructor
  · intro h
    obtain ⟨p, hp, hlink⟩ := mem_links.1 h
    exact Property.exists_of_link hlink hp
  · intro hgiven
    obtain ⟨ref, href, howner, rfl⟩ := hgiven
    rcases Property.owner_of_mem href with ⟨-, p, hp, hlink⟩ | ⟨g, -, hbound, -⟩
    · exact mem_links.2 ⟨p, hp, hlink⟩
    · rw [howner] at hbound
      cases hbound

end FeatureMarkup

import Mathlib.Data.List.Forall2
import FeatureMarkup.Proofs.Reader.Limits
import FeatureMarkup.Proofs.Reader.References

/-! What a report on a dangling reference tells.

A report names the feature that holds the reference, the declaration of its property and which
of the occurrences of that declaration it is. The occurrence is counted by the validator while
the feature is read; `Property.placed` counts the same places in the complete feature, and so
every report belongs to a `Site` of its own, `readDocument_reports`. The properties under a name
are those under each of its declarations, one after another (`Feature.propertiesOf_eq`): where
a name is declared once the occurrence is an index among them, and where it is declared again
behind others the count begins anew. -/
namespace FeatureMarkup

open Tape (left)
open Xml (Attribute Reading)

variable {κ : Type} {r : FeatureReader κ} {s : Schema}

/-! ### Lists in order of a key -/

section Keys
variable {α : Type} {l : List (Nat × α)}

/-- The members of a list that have a key. -/
def keyed (l : List (Nat × α)) (i : Nat) : List α := (l.filter (·.1 = i)).map (·.2)

theorem keyed_cons (x : Nat × α) (l : List (Nat × α)) (i : Nat) :
    keyed (x :: l) i = if x.1 = i then x.2 :: keyed l i else keyed l i := by
  unfold keyed
  rw [List.filter_cons]
  split <;> simp_all

theorem filter_mem_cons_of_pairwise (hl : l.Pairwise (·.1 ≤ ·.1)) {i : Nat} {is : List Nat}
    (hi : ∀ j ∈ is, i < j) :
    l.filter (·.1 ∈ i :: is) = l.filter (·.1 = i) ++ l.filter (·.1 ∈ is) := by
  induction l with
  | nil => rfl
  | cons x rest ih =>
    obtain ⟨hx, hrest⟩ := List.pairwise_cons.1 hl
    by_cases heq : x.1 = i
    · have hnot : x.1 ∉ is := fun hmem => by
        have := hi x.1 hmem
        omega
      rw [List.filter_cons_of_pos (by simp [heq]), List.filter_cons_of_pos (by simp [heq]),
        List.filter_cons_of_neg (by simpa using hnot), ih hrest, List.cons_append]
    · by_cases hlater : x.1 ∈ is
      · -- Nothing with the earlier key comes behind one that is later.
        have hnone : rest.filter (·.1 = i) = [] := by
          simp only [List.filter_eq_nil_iff, decide_eq_true_eq]
          intro y hy hyi
          have := hx y hy
          have := hi x.1 hlater
          omega
        rw [List.filter_cons_of_pos (by simp [hlater]), List.filter_cons_of_neg (by simpa using heq),
          List.filter_cons_of_pos (by simpa using hlater), ih hrest, hnone]
        rfl
      · rw [List.filter_cons_of_neg (by simp [heq, hlater]),
          List.filter_cons_of_neg (by simpa using heq),
          List.filter_cons_of_neg (by simpa using hlater), ih hrest]

theorem map_filter_mem_eq_flatMap (hl : l.Pairwise (·.1 ≤ ·.1)) {is : List Nat}
    (his : is.Pairwise (· < ·)) :
    (l.filter (·.1 ∈ is)).map (·.2) = is.flatMap (keyed l) := by
  induction is with
  | nil => simp
  | cons i is ih =>
    obtain ⟨hi, his⟩ := List.pairwise_cons.1 his
    rw [filter_mem_cons_of_pairwise hl hi, List.map_append, ih his, List.flatMap_cons, keyed]

end Keys

/-! ### The places of properties -/

/-- Properties with the places they take one after another, none before the given one. -/
def Property.placed (s : Schema) (declarations : List Declaration) :
    Nat → List (Property κ) → List (Nat × Property κ)
  | _, [] => []
  | active, p :: rest =>
    let place := Progress.place (fun d => s.admits p.name d.name) declarations active
    (place, p) :: Property.placed s declarations place rest

namespace Property
variable {declarations : List Declaration} {active : Nat} {properties : List (Property κ)}

theorem map_placed : (placed s declarations active properties).map (·.2) = properties := by
  induction properties generalizing active with
  | nil => rfl
  | cons p rest ih => rw [placed, List.map_cons, ih]

theorem le_of_mem_placed {x : Nat × Property κ} (h : x ∈ placed s declarations active properties) :
    active ≤ x.1 := by
  induction properties generalizing active with
  | nil => cases h
  | cons p rest ih =>
    have hplace := Nat.le_add_right active
      ((declarations.drop active).findIdx fun d => s.admits p.name d.name)
    rcases List.mem_cons.1 h with rfl | h
    · exact hplace
    · exact Nat.le_trans hplace (ih h)

theorem pairwise_placed : (placed s declarations active properties).Pairwise (·.1 ≤ ·.1) := by
  induction properties generalizing active with
  | nil => exact .nil
  | cons p rest ih => exact .cons (fun _ => le_of_mem_placed) ih

end Property

/-- The places of properties that are placed are those of their declarations. -/
theorem Placed.declared {declarations : List Declaration} {active : Nat}
    {properties : List (Property κ)} {places : List Nat}
    (h : Placed s declarations active properties places) :
    ∀ x ∈ Property.placed s declarations active properties,
      declarations[x.1]? = some x.2.declaration := by
  induction h with
  | nil => nofun
  | cons hle hd hadmits hbetween _ ih =>
    rw [Property.placed, Progress.place_eq hle hd hadmits hbetween]
    intro x hx
    rcases List.mem_cons.1 hx with rfl | hx
    · exact hd
    · exact ih x hx

/-- The properties of a feature with the places they take among the declarations of its type. -/
def Feature.placed (s : Schema) (f : Feature κ) : List (Nat × Property κ) :=
  Property.placed s f.type.properties 0 f.properties

/-- The properties under the declaration at a place. -/
def Feature.propertiesAt (s : Schema) (f : Feature κ) (i : Nat) : List (Property κ) :=
  keyed (f.placed s) i

/-- A feature whose properties all take the places of their declarations. -/
def Feature.InPlace (s : Schema) (f : Feature κ) : Prop :=
  ∀ x ∈ f.placed s, f.type.properties[x.1]? = some x.2.declaration

theorem FeatureMade.inPlace {F : Registry κ → Feature κ → Registry κ → Prop} {a b : Registry κ}
    {f : Feature κ} (h : FeatureMade r F a f b) : f.InPlace r.schema := by
  obtain ⟨p, haccepts⟩ := h.accepts
  obtain ⟨places, -, hplaced, -⟩ := haccepts.placed
  exact hplaced.declared

namespace Feature
variable {f : Feature κ} {name : Name} {i : Nat}

theorem InPlace.declared (h : f.InPlace s) {p : Property κ} (hp : p ∈ f.propertiesAt s i) :
    f.type.properties[i]? = some p.declaration := by
  simp only [propertiesAt, keyed, List.mem_map, List.mem_filter, decide_eq_true_eq] at hp
  obtain ⟨x, ⟨hx, rfl⟩, rfl⟩ := hp
  exact h x hx

/-- The properties under a name are those under each declaration with the name. -/
theorem propertiesOf_eq (h : f.InPlace s) (name : Name) : f.propertiesOf name =
    (f.type.properties.findIdxs (·.name = name)).flatMap (f.propertiesAt s) := by
  have hmem : ∀ x ∈ f.placed s, decide (x.2.declaration.name = name) =
      decide (x.1 ∈ f.type.properties.findIdxs (·.name = name)) := by
    intro x hx
    obtain ⟨hlt, hget⟩ := List.getElem?_eq_some_iff.1 (h x hx)
    simp [hlt, hget]
  calc f.propertiesOf name
    _ = ((f.placed s).map (·.2)).filter (·.declaration.name = name) := by
        rw [placed, Property.map_placed, propertiesOf]
    _ = ((f.placed s).filter (·.2.declaration.name = name)).map (·.2) := List.filter_map
    _ = ((f.placed s).filter (·.1 ∈ f.type.properties.findIdxs (·.name = name))).map (·.2) := by
        rw [List.filter_congr hmem]
    _ = (f.type.properties.findIdxs (·.name = name)).flatMap (f.propertiesAt s) :=
        map_filter_mem_eq_flatMap Property.pairwise_placed List.pairwise_findIdxs

end Feature

/-- A type that declares a property with a name only once. -/
def FeatureType.DeclaresOnce (t : FeatureType) (name : Name) : Prop :=
  t.properties.countP (·.name = name) = 1

/-- Under a name that is declared once are the properties under that declaration. -/
theorem Feature.propertiesOf_eq_propertiesAt {f : Feature κ} (h : f.InPlace s) {name : Name}
    (honce : f.type.DeclaresOnce name) :
    ∃ i, f.propertiesOf name = f.propertiesAt s i ∧
      ∀ j, ∀ p ∈ f.propertiesAt s j, p.declaration.name = name → j = i := by
  have hlength : (f.type.properties.findIdxs (·.name = name)).length = 1 :=
    List.length_findIdxs.trans honce
  obtain ⟨i, hi⟩ := List.length_eq_one_iff.1 hlength
  refine ⟨i, by rw [f.propertiesOf_eq h, hi, List.flatMap_singleton], fun j p hp hname => ?_⟩
  obtain ⟨hlt, hget⟩ := List.getElem?_eq_some_iff.1 (h.declared hp)
  have hj : j ∈ f.type.properties.findIdxs (·.name = name) := by
    simp [hlt, hget, hname]
  rw [hi] at hj
  exact List.mem_singleton.1 hj

/-! ### The sites of references -/

/-- Where in a document a reference may stand: in a feature, under one of the declarations of
its type, and there as one of the properties. -/
@[ext]
structure Site (κ : Type) where
  owner : Feature κ
  place : Nat
  occurrence : Nat

/-- The property at a site. -/
def Site.property? (s : Schema) (site : Site κ) : Option (Property κ) :=
  (site.owner.propertiesAt s site.place)[site.occurrence]?

/-- A reference stands at a site. -/
structure Reference.StandsAt (s : Schema) (site : Site κ) (ref : Reference κ) : Prop where
  owner : ref.owner = .bound site.owner
  ownerId : ref.ownerId = site.owner.id
  occurrence : ref.occurrence = site.occurrence
  property : ∃ p, site.property? s = some p ∧ p.declaration.name = ref.property ∧
    p.value = .link ref.number

/-- No two references stand at one site. -/
theorem Reference.StandsAt.number_eq {site : Site κ} {ref ref' : Reference κ}
    (h : ref.StandsAt s site) (h' : ref'.StandsAt s site) : ref.number = ref'.number := by
  obtain ⟨p, hp, -, hvalue⟩ := h.property
  obtain ⟨p', hp', -, hvalue'⟩ := h'.property
  obtain rfl := Option.some.inj (hp.symm.trans hp')
  exact Value.link.inj (hvalue.symm.trans hvalue')

mutual

/-- Every reference in a feature stands somewhere. -/
theorem Feature.exists_site {ref : Reference κ} :
    ∀ {f : Feature κ}, ref ∈ f.references s → ∃ site, ref.StandsAt s site
  | ⟨id, type, properties⟩, h => by
    rw [Feature.references] at h
    rcases Property.exists_site h with ⟨howner, hid, place, m, p, hoccurrence, hp, hproperty⟩ | hinside
    · refine ⟨⟨⟨id, type, properties⟩, place, ref.occurrence⟩, howner, hid, rfl, p, ?_, hproperty⟩
      rw [List.count_nil, Nat.zero_add] at hoccurrence
      rw [hoccurrence]
      exact hp
    · exact hinside

theorem Property.exists_site {declarations : List Declaration} {owner : Slot κ} {id : String}
    {ref : Reference κ} : ∀ {before : List Nat} {active : Nat} {properties : List (Property κ)},
      ref ∈ Property.allReferences s declarations owner id before active properties →
      (ref.owner = owner ∧ ref.ownerId = id ∧ ∃ place m p,
        ref.occurrence = before.count place + m ∧
        (keyed (Property.placed s declarations active properties) place)[m]? = some p ∧
        p.declaration.name = ref.property ∧ p.value = .link ref.number) ∨
      ∃ site, ref.StandsAt s site
  | _, _, [], h => by cases h
  | before, active, ⟨d, name, value⟩ :: rest, h => by
    rw [Property.allReferences, Property.references] at h
    rcases List.mem_append.1 h with h | h
    · refine (Value.exists_site h).imp_left ?_
      intro hown
      obtain ⟨howner, hid, hproperty, hoccurrence, hvalue⟩ := hown
      refine ⟨howner, hid, _, 0, ⟨d, name, value⟩, hoccurrence, ?_, hproperty.symm, hvalue⟩
      rw [Property.placed, keyed_cons, if_pos rfl]
      rfl
    · refine (Property.exists_site h).imp_left ?_
      intro hown
      obtain ⟨howner, hid, place, m, p, hoccurrence, hp, hproperty⟩ := hown
      rw [List.count_append, List.count_singleton] at hoccurrence
      rw [Property.placed]
      by_cases hplace : Progress.place (fun d => s.admits name d.name) declarations active = place
      · -- The first property is at the same place and counts.
        refine ⟨howner, hid, place, m + 1, p, ?_, ?_, hproperty⟩
        · simp only [hplace, BEq.rfl, if_true] at hoccurrence
          omega
        · rw [keyed_cons, if_pos hplace, List.getElem?_cons_succ]
          exact hp
      · refine ⟨howner, hid, place, m, p, by simpa [hplace] using hoccurrence, ?_, hproperty⟩
        rw [keyed_cons, if_neg hplace]
        exact hp

theorem Value.exists_site {owner : Slot κ} {id : String} {property : Name} {occurrence : Nat}
    {ref : Reference κ} : ∀ {value : Value κ},
      ref ∈ value.references s owner id property occurrence →
      (ref.owner = owner ∧ ref.ownerId = id ∧ ref.property = property ∧
        ref.occurrence = occurrence ∧ value = .link ref.number) ∨
      ∃ site, ref.StandsAt s site
  | .link number, h => by
    rw [Value.references, List.mem_singleton] at h
    exact .inl (h ▸ ⟨rfl, rfl, rfl, rfl, rfl⟩)
  | .feature f, h => by
    rw [Value.references] at h
    exact .inr (Feature.exists_site h)
  | .text _, h | .code _, h | .measure _, h | .geometry _, h | .envelope _, h | .tree _, h
  | .custom _, h => by simp [Value.references] at h

end

/-! ### Documents -/

/-- The property is a link that no feature has been found for. -/
def Document.Dangles (d : Document κ) (p : Property κ) (targetId : String) : Prop :=
  ∃ number l, p.value = .link number ∧ d.registry.links[number]? = some l ∧
    l.isResolved = false ∧ l.targetId = targetId

/-- A report tells of the reference at a site. -/
structure Document.Tells (d : Document κ) (s : Schema) (site : Site κ) (e : DanglingReference) :
    Prop where
  held : site.owner ∈ d.root.features
  ownerId : site.owner.id = e.ownerId
  /-- An owner that has an id is found by it. -/
  found : e.ownerId ≠ "" → d.feature? e.ownerId = some site.owner
  occurrence : site.occurrence = e.occurrence
  property : ∃ p, site.property? s = some p ∧
    site.owner.type.properties[site.place]? = some p.declaration ∧
    p.declaration.name = e.property ∧ d.Dangles p e.targetId

section Documents
variable {d : Document κ}

theorem Registry.dangling?_eq_some {registry : Registry κ} {ref : Reference κ}
    {e : DanglingReference} : registry.dangling? ref = some e ↔
      ∃ l, registry.links[ref.number]? = some l ∧ l.isResolved = false ∧
        e = ⟨l.targetId, ref.ownerId, ref.property, ref.occurrence⟩ := by
  unfold dangling?
  cases hl : registry.links[ref.number]? with
  | none => simp
  | some l =>
    cases hresolved : l.isResolved with
    | true => simp [hresolved]
    | false =>
      simp only [Option.some.injEq, exists_eq_left', hresolved, true_and, Bool.false_eq_true,
        if_false]
      exact eq_comm

theorem Document.Linked.feature?_eq_some (h : d.Linked s) {f : Feature κ}
    (hf : f ∈ d.root.features) (hid : f.id ≠ "") : d.feature? f.id = some f := by
  have hfeatures := h.features
  have hdistinct : d.registry.Distinct := by
    refine ⟨h.distinct, ?_⟩
    simp [Registry.ids, hfeatures]
  refine hdistinct.feature?_eq_some.2 ⟨?_, rfl⟩
  rw [hfeatures]
  exact List.mem_filter.2 ⟨hf, by simpa using hid⟩

/-- The report on a reference tells of its site. -/
theorem Document.Linked.tells (h : d.Linked s) (hplaces : ∀ g ∈ d.root.features, g.InPlace s)
    {site : Site κ} {ref : Reference κ} {e : DanglingReference}
    (href : ref ∈ d.root.references s) (hsite : ref.StandsAt s site)
    (he : d.registry.dangling? ref = some e) : d.Tells s site e := by
  obtain ⟨l, hl, hresolved, rfl⟩ := Registry.dangling?_eq_some.1 he
  obtain ⟨g, hg, howner, -⟩ := Feature.owner_of_mem href
  obtain rfl : g = site.owner := Slot.bound.inj (howner.symm.trans hsite.owner)
  obtain ⟨p, hp, hname, hvalue⟩ := hsite.property
  have hdeclared := (hplaces _ hg).declared (List.mem_of_getElem? hp)
  refine ⟨hg, hsite.ownerId.symm, fun hid => ?_, hsite.occurrence.symm, p, hp, hdeclared, hname, _, l,
    hvalue, hl, hresolved, rfl⟩
  rw [hsite.ownerId] at hid ⊢
  exact h.feature?_eq_some hg hid

/-- The references that dangle, each with a site of its own. -/
theorem exists_sites (registry : Registry κ) {references : List (Reference κ)}
    (hsites : ∀ ref ∈ references, ∃ site, ref.StandsAt s site)
    (hnumbers : (references.map (·.number)).Nodup) :
    ∃ sites, sites.Nodup ∧ List.Forall₂ (fun site e => ∃ ref ∈ references,
      ref.StandsAt s site ∧ registry.dangling? ref = some e) sites
      (references.filterMap registry.dangling?) := by
  induction references with
  | nil => exact ⟨[], .nil, .nil⟩
  | cons ref rest ih =>
    rw [List.map_cons, List.nodup_cons] at hnumbers
    obtain ⟨sites, hnodup, hforall⟩ := ih (fun ref href => hsites ref (.tail _ href)) hnumbers.2
    have hlater : List.Forall₂ (fun site e => ∃ ref' ∈ ref :: rest, ref'.StandsAt s site ∧
        registry.dangling? ref' = some e) sites (rest.filterMap registry.dangling?) := by
      refine hforall.imp fun site e h => ?_
      obtain ⟨ref', href', h⟩ := h
      exact ⟨ref', List.mem_cons_of_mem _ href', h⟩
    cases he : registry.dangling? ref with
    | none =>
      rw [List.filterMap_cons_none he]
      exact ⟨sites, hnodup, hlater⟩
    | some e =>
      obtain ⟨site, hsite⟩ := hsites ref List.mem_cons_self
      rw [List.filterMap_cons_some he]
      refine ⟨site :: sites, List.nodup_cons.2 ⟨fun hmem => ?_, hnodup⟩,
        .cons ⟨ref, List.mem_cons_self, hsite, he⟩ hlater⟩
      obtain ⟨_, -, ref', href', hsite', -⟩ := forall₂_mem hforall hmem
      exact hnumbers.1 (List.mem_map.2 ⟨ref', href', hsite'.number_eq hsite⟩)

/-- What holds of any two members of a list holds of any two that are related to those. -/
theorem pairwise_of_forall₂ {α β : Type} {R : α → β → Prop} {P : α → α → Prop} {Q : β → β → Prop}
    {as : List α} {bs : List β} (h : List.Forall₂ R as bs) (has : as.Pairwise P)
    (hPQ : ∀ {a b a' b'}, R a b → R a' b' → P a a' → Q b b') : bs.Pairwise Q := by
  induction h with
  | nil => exact .nil
  | cons hab hrest ih =>
    obtain ⟨ha, has⟩ := List.pairwise_cons.1 has
    refine .cons (fun b' hb' => ?_) (ih has)
    obtain ⟨a', ha', hR⟩ := forall₂_mem hrest.flip hb'
    exact hPQ hab hR (ha a' ha')

/-- Where the name is declared once, the occurrence is an index among the properties under it. -/
theorem Document.Tells.index {site : Site κ} {e : DanglingReference} (h : d.Tells s site e)
    (hplace : site.owner.InPlace s) (honce : site.owner.type.DeclaresOnce e.property) :
    ∃ p, (site.owner.propertiesOf e.property)[e.occurrence]? = some p ∧ d.Dangles p e.targetId := by
  obtain ⟨p, hp, -, hname, hdangles⟩ := h.property
  obtain ⟨i, hproperties, honly⟩ := Feature.propertiesOf_eq_propertiesAt hplace honce
  obtain rfl := honly site.place p (List.mem_of_getElem? hp) hname
  rw [hproperties, ← h.occurrence]
  exact ⟨p, hp, hdangles⟩

/-- Two reports that say the same of an owner with an id are on properties declared twice. -/
theorem Document.Tells.not_declaresOnce {site site' : Site κ} {e e' : DanglingReference}
    (h : d.Tells s site e) (h' : d.Tells s site' e') (hne : site ≠ site')
    (hplace : site.owner.InPlace s) (hid : e.ownerId ≠ "") (howner : e.ownerId = e'.ownerId)
    (hproperty : e.property = e'.property) (hoccurrence : e.occurrence = e'.occurrence) :
    ¬site.owner.type.DeclaresOnce e.property := by
  intro honce
  have hsame : site.owner = site'.owner :=
    Option.some.inj ((h.found hid).symm.trans (howner ▸ h'.found (howner ▸ hid)))
  obtain ⟨p, hp, -, hname, -⟩ := h.property
  obtain ⟨p', hp', -, hname', -⟩ := h'.property
  obtain ⟨i, -, honly⟩ := Feature.propertiesOf_eq_propertiesAt hplace honce
  have hi := honly _ p (List.mem_of_getElem? hp) hname
  unfold Site.property? at hp'
  rw [← hsame] at hp'
  have hi' := honly _ p' (List.mem_of_getElem? hp') (hname'.trans hproperty.symm)
  exact hne (Site.ext hsame (hi.trans hi'.symm)
    (h.occurrence.trans (hoccurrence.trans h'.occurrence.symm)))

end Documents

/-- What has been read is linked, and its features have their properties in place. -/
theorem FeatureReader.readDocument_inPlace (hgeometry : r.geometry.Forward) (hcustom : r.custom = [])
    {srs : Option String} {c : Cursor} {d : Document κ} {s' : Session κ}
    (hevents : c.readings.countP Reading.isEvent < UInt32.size)
    (h : r.readDocument srs (.ofCursor c) = .ok d s') :
    d.Linked r.schema ∧ ∀ g ∈ d.root.features, g.InPlace r.schema := by
  obtain ⟨_, _, c₁, root, s₁, dangling, hnext, hroot, hsettle, -, rfl⟩ := readDocument_eq_ok.1 h
  obtain ⟨-, _, -, hreach⟩ := Cursor.nextTag_eq_start_iff.1 hnext
  have hmade := forall_features_of_made (fun _ _ _ hmade => hmade.inPlace) srs _ _ _ _ hroot
  have hgrows := registers_featureWithin hgeometry hcustom srs _ _ _ _
    (Nat.lt_trans hreach.events_lt hevents) hroot
  exact ⟨hgrows.linked hsettle, hmade⟩

/-- Every report tells of a site of its own: it stands in the owner, under one of the
declarations of the property's name, as the so-many-th property there. The properties under a
name are those under all its declarations, and so where the name is declared once the
occurrence is an index among them, and no two reports on an owner say the same. -/
theorem FeatureReader.readDocument_reports (r : FeatureReader κ) (hgeometry : r.geometry.Forward)
    (hcustom : r.custom = []) (srs : Option String) (c : Cursor) (d : Document κ) (s' : Session κ)
    (hevents : c.readings.countP Reading.isEvent < UInt32.size)
    (h : r.readDocument srs (.ofCursor c) = .ok d s') :
    (∃ sites, sites.Nodup ∧ List.Forall₂ (d.Tells r.schema) sites d.dangling) ∧
    (∀ g ∈ d.root.features, ∀ name, g.propertiesOf name =
      (g.type.properties.findIdxs (·.name = name)).flatMap (g.propertiesAt r.schema)) ∧
    (∀ e ∈ d.dangling, e.ownerId ≠ "" → ∃ g, d.feature? e.ownerId = some g ∧
      (g.type.DeclaresOnce e.property →
        ∃ p, (g.propertiesOf e.property)[e.occurrence]? = some p ∧ d.Dangles p e.targetId)) ∧
    d.dangling.Pairwise fun e e' => ∀ g, e.ownerId ≠ "" → d.feature? e.ownerId = some g →
      g.type.DeclaresOnce e.property →
      ¬(e.ownerId = e'.ownerId ∧ e.property = e'.property ∧ e.occurrence = e'.occurrence) := by
  obtain ⟨hlinked, hplaces⟩ := readDocument_inPlace hgeometry hcustom hevents h
  have hnumbers : ((d.root.references r.schema).map (·.number)).Nodup :=
    hlinked.numbers ▸ List.nodup_range
  obtain ⟨sites, hnodup, hforall⟩ := exists_sites d.registry
    (fun _ => Feature.exists_site) hnumbers
  rw [← hlinked.dangling] at hforall
  have htells : List.Forall₂ (d.Tells r.schema) sites d.dangling := by
    refine hforall.imp fun site e h => ?_
    obtain ⟨ref, href, hsite, he⟩ := h
    exact hlinked.tells hplaces href hsite he
  refine ⟨⟨sites, hnodup, htells⟩, fun g hg => Feature.propertiesOf_eq (hplaces g hg),
    fun e he hid => ?_, pairwise_of_forall₂ htells hnodup ?_⟩
  · obtain ⟨site, -, htold⟩ := forall₂_mem htells.flip he
    exact ⟨_, htold.found hid, htold.index (hplaces _ htold.held)⟩
  · intro site e site' e' htold htold' hne g hid hg honce hsame
    obtain rfl := Option.some.inj ((htold.found hid).symm.trans hg)
    exact htold.not_declaresOnce htold' hne (hplaces _ htold.held) hid hsame.1 hsame.2.1
      hsame.2.2 honce

/-- A road with a reference, a lane and another reference under one declaration, the last in
an element that stands in for the declared one. -/
theorem readDocument_reports_road :
    let road := Name.unqualified "Road"
    let part := Name.unqualified "part"
    let way := Name.unqualified "way"
    let lane := Name.unqualified "Lane"
    let href (id : String) : Attribute := ⟨.qualified Space.xlink "href", id⟩
    let fid (id : String) : Attribute := ⟨.unqualified "fid", id⟩
    let reader : FeatureReader Unit := .ofSchema
      ⟨[⟨road, [(Declaration.single part (.feature none)).occurs 1 .unbounded], none, false⟩,
        ⟨lane, [], none, false⟩], [⟨part, none⟩, ⟨way, some part⟩]⟩
    let readings : List Reading := [⟨1, .ok (.start road [fid "r"])⟩,
      ⟨2, .ok (.start part [href "#x"])⟩, ⟨3, .ok (.stop part)⟩,
      ⟨4, .ok (.start part [])⟩, ⟨5, .ok (.start lane [fid "l"])⟩, ⟨6, .ok (.stop lane)⟩,
      ⟨7, .ok (.stop part)⟩,
      ⟨8, .ok (.start way [href "#y"])⟩, ⟨9, .ok (.stop way)⟩, ⟨10, .ok (.stop road)⟩]
    ∃ d s', reader.readDocument none (.ofCursor (.ofReadings readings)) = .ok d s' ∧
      d.dangling = [⟨"x", "r", part, 0⟩, ⟨"y", "r", part, 2⟩] ∧
      ∃ g p, d.feature? "r" = some g ∧ (g.propertiesOf part)[2]? = some p ∧ d.Dangles p "y" := by
  intro road part way lane href fid reader readings
  have hrun : (yield? (reader.readDocument none (.ofCursor (.ofReadings readings)))).map
      (fun d => (d.dangling, (d.feature? "r").map (·.type.properties.countP (·.name = part)))) =
      some ([⟨"x", "r", part, 0⟩, ⟨"y", "r", part, 2⟩], some 1) := by decide +kernel
  obtain ⟨d, hd, hshown⟩ := Option.map_eq_some_iff.1 hrun
  obtain ⟨hdangling, honce⟩ := Prod.mk.inj hshown
  obtain ⟨s', h⟩ := yield?_eq_some.1 hd
  obtain ⟨-, -, hreports, -⟩ := reader.readDocument_reports GeometryReader.forward_standard rfl none
    _ d s' (by decide +kernel) h
  obtain ⟨g, hg, hindex⟩ := hreports ⟨"y", "r", part, 2⟩ (by simp [hdangling]) (by decide)
  have hcount : g.type.DeclaresOnce part := by
    rw [hg] at honce
    exact Option.some.inj honce
  obtain ⟨p, hp, hdangles⟩ := hindex hcount
  exact ⟨d, s', h, hdangling, g, p, hg, hp, hdangles⟩

/-- A property that is declared again behind another one: the count begins anew, and two
reports say the same of their owner, the second of them not what is at the index. -/
theorem reports_alike_road :
    let road := Name.unqualified "Road"
    let part := Name.unqualified "part"
    let note := Name.unqualified "note"
    let href (id : String) : Attribute := ⟨.qualified Space.xlink "href", id⟩
    let reader : FeatureReader Unit := .ofSchema
      ⟨[⟨road, [.single part (.feature none), (Declaration.single note .simple).optional,
        .single part (.feature none)], none, false⟩], []⟩
    let readings : List Reading := [⟨1, .ok (.start road [⟨.unqualified "fid", "r"⟩])⟩,
      ⟨2, .ok (.start part [href "#x"])⟩, ⟨3, .ok (.stop part)⟩,
      ⟨4, .ok (.start note [])⟩, ⟨5, .ok (.text "n")⟩, ⟨6, .ok (.stop note)⟩,
      ⟨7, .ok (.start part [href "#y"])⟩, ⟨8, .ok (.stop part)⟩, ⟨9, .ok (.stop road)⟩]
    reader.custom = [] ∧ readings.countP Reading.isEvent < UInt32.size ∧
      ∃ d s', reader.readDocument none (.ofCursor (.ofReadings readings)) = .ok d s' ∧
      d.dangling = [⟨"x", "r", part, 0⟩, ⟨"y", "r", part, 0⟩] ∧
      ¬∀ e ∈ d.dangling, e.ownerId ≠ "" → ∃ g p, d.feature? e.ownerId = some g ∧
        (g.propertiesOf e.property)[e.occurrence]? = some p ∧ d.Dangles p e.targetId := by
  intro road part note href reader readings
  have hrun : (yield? (reader.readDocument none (.ofCursor (.ofReadings readings)))).map
      (fun d => (d.dangling, (d.feature? "r").bind fun g => (g.propertiesOf part)[0]?.bind
        (·.value.link?), d.registry.links[0]?.map (·.targetId))) =
      some ([⟨"x", "r", part, 0⟩, ⟨"y", "r", part, 0⟩], some 0, some "x") := by decide +kernel
  obtain ⟨d, hd, hshown⟩ := Option.map_eq_some_iff.1 hrun
  simp only [Prod.mk.injEq] at hshown
  obtain ⟨hdangling, hfirst, htarget⟩ := hshown
  obtain ⟨s', h⟩ := yield?_eq_some.1 hd
  refine ⟨rfl, by decide, d, s', h, hdangling, fun hreports => ?_⟩
  obtain ⟨g, p, hg, hp, number, l, hvalue, hl, -, hy⟩ :=
    hreports ⟨"y", "r", part, 0⟩ (by simp [hdangling]) (by decide)
  have hnumber : some number = some 0 := by
    simpa only [hg, hp, hvalue, Option.bind_some, Value.link?] using hfirst
  obtain rfl := Option.some.inj hnumber
  rw [hl] at htarget
  exact absurd (hy.symm.trans (Option.some.inj htarget)) (by decide)

end FeatureMarkup

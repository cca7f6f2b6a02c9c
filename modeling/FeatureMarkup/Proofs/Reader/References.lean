import Mathlib.Data.List.Basic
import FeatureMarkup.Proofs.Reader.Extent
import FeatureMarkup.Proofs.Reference.Listing

/-! What a document that has been read says of its features and references.

Reading adds to the registry exactly the features that have been read, as they are complete,
and a link for each reference in them, in document order; that is `Grows`, and it is kept by
every property, every feature and so by the document. What is looked up at the end is what
has been added since the beginning. -/
namespace FeatureMarkup

open Tape (left)
open Xml (Attribute Reading)

variable {κ : Type} {r : FeatureReader κ}

/-- What becomes of a registry when features with these references in them are read. -/
structure Grows (before after : Registry κ) (features : List (Feature κ))
    (references : List (Reference κ)) : Prop where
  adds : ∃ entries, entries.map (·.reference) = references ∧ Adds before after features entries
  distinct : before.Distinct → after.Distinct
  ids : ∀ f ∈ features, isFeatureId f.id = true

namespace Grows
variable {before middle after : Registry κ} {features features' : List (Feature κ)}
  {references references' : List (Reference κ)}

theorem refl (registry : Registry κ) : Grows registry registry [] [] :=
  ⟨⟨[], rfl, .refl _⟩, id, nofun⟩

theorem trans (h : Grows before middle features references)
    (h' : Grows middle after features' references') :
    Grows before after (features ++ features') (references ++ references') := by
  obtain ⟨entries, rfl, hadds⟩ := h.adds
  obtain ⟨entries', rfl, hadds'⟩ := h'.adds
  refine ⟨⟨entries ++ entries', List.map_append, hadds.trans hadds'⟩, h'.distinct ∘ h.distinct,
    fun f hf => ?_⟩
  rcases List.mem_append.1 hf with hf | hf
  · exact h.ids f hf
  · exact h'.ids f hf

theorem refer {ownerId targetId : String} {property : Name} {occurrence number : Nat}
    (h : before.refer ownerId property occurrence targetId = (number, after)) :
    Grows before after [] [⟨number, .unset, ownerId, property, occurrence⟩] := by
  obtain ⟨link, -, hadds⟩ := Adds.refer h
  refine ⟨⟨_, rfl, hadds⟩, fun hdistinct => hdistinct.of_features ?_, nofun⟩
  simpa using hadds.features

/-- The end of a feature: it becomes the owner of its links and is registered. -/
theorem complete {s : Schema} {f : Feature κ} (hid : isFeatureId f.id = true)
    (h : Grows before middle (Property.allFeatures f.properties)
      (Property.allReferences s f.type.properties .unset f.id [] 0 f.properties))
    (hregister : (middle.bindLinks f).register f = .ok after) :
    Grows before after f.features (f.references s) := by
  obtain ⟨entries, hreferences, hadds⟩ := h.adds
  have hown : ∀ number, number ∈ f.links ↔
      ∃ e ∈ entries, e.reference.owner = .unset ∧ e.reference.number = number := by
    intro number
    rw [Feature.mem_links_iff, ← hreferences]
    constructor
    · intro hgiven
      obtain ⟨_, href, howner⟩ := hgiven
      obtain ⟨e, he, rfl⟩ := List.mem_map.1 href
      exact ⟨e, he, howner⟩
    · intro hgiven
      obtain ⟨e, he, howner⟩ := hgiven
      exact ⟨_, List.mem_map_of_mem he, howner⟩
  have hmap : (entries.map (·.own f)).map (·.reference) = f.references s := by
    rw [f.references_eq, ← Property.map_own, ← hreferences, List.map_map, List.map_map]
    rfl
  have hall := (hadds.own hown).trans (.register hregister)
  rw [← f.features_eq, List.append_nil] at hall
  refine ⟨⟨_, hmap, hall⟩, fun hdistinct => ?_, fun g hg => ?_⟩
  · exact ((h.distinct hdistinct).of_features (middle.bindLinks_eq f).1).register hregister
  · rw [f.features_eq] at hg
    rcases List.mem_append.1 hg with hg | hg
    · exact h.ids g hg
    · exact List.mem_singleton.1 hg ▸ hid

end Grows

/-! ### Reading -/

namespace FeatureReader

/-- A reader of features that registers what it reads, in a document of fewer events than a
count can tell. -/
def Registers (schema : Schema) (inline : SessionM κ (Feature κ)) : Prop :=
  ∀ s f s', (left s).countP Reading.isEvent < UInt32.size → inline s = .ok f s' →
    Grows s.registry s'.registry f.features (f.references schema)

section Inline
variable {inline : SessionM κ (Feature κ)} {s s' : Session κ} {attributes : List Attribute}
  {d : Declaration} {id : String} {occurrence : Nat}

theorem grows_readFeatureValue (hinline : Registers r.schema inline) {expected : Option Name}
    {value : Value κ} (hevents : (left s).countP Reading.isEvent < UInt32.size)
    (h : r.readFeatureValue inline d expected attributes id occurrence s = .ok value s') :
    Grows s.registry s'.registry value.features
      (value.references r.schema .unset id d.name occurrence) := by
  rcases readFeatureValue_eq_ok.1 h with
    ⟨href, -, hread⟩ | ⟨-, c, f, s₁, c', henter, hread, hskip, rfl, rfl⟩
  · obtain ⟨targetId, c, number, -, -, hrefer, -, rfl⟩ := readReference_eq_ok.1 hread
    exact .refer hrefer
  · have hless := (forward_enterFeature _ _ henter).events_le
    exact hinline ⟨c, s.registry⟩ f s₁ (Nat.lt_of_le_of_lt hless hevents) hread

theorem grows_readByCategory (hinline : Registers r.schema inline) {srs : Option String}
    {value : Value κ} (hevents : (left s).countP Reading.isEvent < UInt32.size)
    (h : r.readByCategory inline d attributes id occurrence srs s = .ok value s') :
    Grows s.registry s'.registry value.features
      (value.references r.schema .unset id d.name occurrence) := by
  unfold readByCategory at h
  cases hcategory : d.category with
  | feature expected =>
    rw [hcategory] at h
    exact grows_readFeatureValue hinline hevents h
  | simple | code | geometry | envelope | complex =>
    simp only [hcategory, bind_eq_ok, Session.lift_eq_ok, pure_eq_ok] at h
    obtain ⟨_, _, ⟨_, _, rfl⟩, rfl, rfl⟩ := h
    exact .refl _
  | measure =>
    simp only [hcategory, bind_eq_ok, Session.position_eq_ok, inProperty_eq_ok, Session.lift_eq_ok,
      pure_eq_ok] at h
    obtain ⟨_, _, ⟨_, rfl⟩, _, _, ⟨_, _, rfl⟩, rfl, rfl⟩ := h
    exact .refl _

/-- One more property: it goes to a place, and its references have the occurrence there. -/
theorem grows_readProperty (hcustom : r.custom = []) (hinline : Registers r.schema inline)
    {srs : Option String} {type : FeatureType} {element : Name} {p p' : Partway κ}
    {before : List Nat} (ht : p.progress.Tracks type.properties before)
    (hfew : before.length + 1 < UInt32.size)
    (hevents : (left s).countP Reading.isEvent < UInt32.size)
    (h : r.readProperty inline srs type id element attributes p s = .ok p' s') :
    ∃ q : Property κ, p'.properties = q :: p.properties ∧
      p'.progress.active = Progress.place (fun d => r.schema.admits q.name d.name) type.properties
        p.progress.active ∧
      p'.progress.Tracks type.properties (before ++ [p'.progress.active]) ∧
      Grows s.registry s'.registry q.features
        (q.references r.schema .unset id (before.count p'.progress.active)) := by
  obtain ⟨d, progress, value, haccept, hvalue, rfl⟩ := (readProperty_eq_ok hcustom).1 h
  have ht₁ := ht.accept hfew haccept
  -- The count of the active place is the occurrence, with the one just accepted.
  have hoccurrence : progress.count.toNat - 1 = before.count progress.active := by
    rw [ht₁.count]
    simp
  refine ⟨⟨d, element, value⟩, rfl, Progress.accept_active haccept, ht₁, ?_⟩
  rw [Property.features, Property.references, ← hoccurrence]
  exact grows_readByCategory (s := s.logging _) hinline hevents hvalue

/-- The properties of a feature, read one after another. -/
theorem grows_properties (hgeometry : r.geometry.Forward) (hcustom : r.custom = [])
    (hforward : Forward inline) (hinline : Registers r.schema inline) {srs : Option String}
    {type : FeatureType} {name : Name} {p p' : Partway κ} {rounds : Nat} {before : List Nat}
    (ht : p.progress.Tracks type.properties before)
    (hevents : before.length + (left s).countP Reading.isEvent < UInt32.size)
    (h : foldTags (liftM Cursor.nextTag) (r.readProperty inline srs type id) rounds p s =
      .ok (.stop name, p') s') :
    ∃ properties, p'.properties.reverse = p.properties.reverse ++ properties ∧
      Grows s.registry s'.registry (Property.allFeatures properties)
        (Property.allReferences r.schema type.properties .unset id before p.progress.active
          properties) := by
  induction rounds generalizing p s before with
  | zero =>
    obtain ⟨hfinish, -⟩ := pure_eq_ok.1 h
    cases hfinish
  | succ rounds ih =>
    obtain ⟨tag, s₁, hnext, hrest⟩ := bind_eq_ok.1 h
    obtain ⟨c₁, htag, rfl⟩ := Session.lift_eq_ok.1 hnext
    cases tag with
    | finish =>
      obtain ⟨hp, -⟩ := pure_eq_ok.1 hrest
      cases hp
    | stop =>
      obtain ⟨hp, rfl⟩ := pure_eq_ok.1 hrest
      cases hp
      exact ⟨[], by simp, .refl _⟩
    | start element attributes =>
      obtain ⟨p₁, s₂, hread, hrest⟩ := bind_eq_ok.1 hrest
      have hahead := forward_readProperty hgeometry hcustom hforward srs type id element
        attributes p hread
      obtain ⟨-, _, -, hreach⟩ := Cursor.nextTag_eq_start_iff.1 htag
      have hless : c₁.readings.countP Reading.isEvent < (left s).countP Reading.isEvent :=
        hreach.events_lt
      have hless' : (left s₂).countP Reading.isEvent ≤ c₁.readings.countP Reading.isEvent :=
        hahead.events_le
      have hevents₁ : c₁.readings.countP Reading.isEvent < UInt32.size := by omega
      obtain ⟨q, hq, hplace, ht₁, hgrows⟩ :=
        grows_readProperty (s := ⟨c₁, s.registry⟩) hcustom hinline ht (by omega) hevents₁ hread
      obtain ⟨properties, hproperties, hmore⟩ :=
        ih ht₁ (by rw [List.length_append, List.length_singleton]; omega) hrest
      refine ⟨q :: properties, by simpa [hq] using hproperties, ?_⟩
      rw [Property.allFeatures, Property.allReferences, ← hplace]
      exact hgrows.trans hmore

end Inline

theorem registers_featureWithin (hgeometry : r.geometry.Forward) (hcustom : r.custom = [])
    (srs : Option String) (depth : Nat) : Registers r.schema (r.featureWithin srs depth) := by
  induction depth with
  | zero => exact fun _ _ _ _ h => absurd h (by simp [featureWithin])
  | succ depth ih =>
    intro s f s' hevents h
    obtain ⟨name, attributes, type, -, hid, -, -, name', partway, s₁, hloop, hend⟩ :=
      featureWithin_succ_eq_ok.1 h
    obtain ⟨-, rfl, registry, hregister, rfl⟩ := endFeature_eq_ok.1 hend
    unfold readProperties at hloop
    rw [get_bind] at hloop
    obtain ⟨properties, hproperties, hgrows⟩ := grows_properties hgeometry hcustom
      (forward_featureWithin hgeometry hcustom srs depth) ih Progress.tracks_initial
      (by rwa [List.length_nil, Nat.zero_add]) hloop
    obtain rfl : partway.properties.reverse = properties := by simpa using hproperties
    exact .complete hid hgrows hregister

end FeatureReader

/-! ### Documents -/

/-- The report on a reference whose link has no target. -/
def Registry.dangling? (registry : Registry κ) (ref : Reference κ) : Option DanglingReference :=
  match registry.links[ref.number]? with
  | some l =>
    if l.isResolved then none
    else some ⟨l.targetId, ref.ownerId, ref.property, ref.occurrence⟩
  | none => none

/-- A document whose registry is that of its features, and whose links are those of its
references. -/
structure Document.Linked (s : Schema) (d : Document κ) : Prop where
  /-- The features with an id, as they are complete. -/
  features : d.registry.features = d.root.features.filter (·.id ≠ "")
  distinct : d.registry.ids.Nodup
  ids : ∀ f ∈ d.root.features, isFeatureId f.id = true
  /-- Every link has the feature that holds it for its owner, and the feature in the document
  that has the id it asks for, if any, for its target. -/
  links : ∀ g ∈ d.root.features, ∀ number ∈ g.links, ∃ l, d.registry.links[number]? = some l ∧
    l.owner = .bound g ∧
    (l.isResolved = true ↔ ∃ t ∈ d.root.features, t.id? = some l.targetId) ∧
    ∀ t ∈ d.root.features, t.id? = some l.targetId → l.target = .bound t
  /-- The links are numbered in document order, each once. -/
  numbers : (d.root.references s).map (·.number) = List.range d.registry.links.length
  dangling : d.dangling = (d.root.references s).filterMap d.registry.dangling?

/-- A feature with an id is registered exactly if it is among those that have been read. -/
theorem Grows.feature?_eq_some {registry : Registry κ} {features : List (Feature κ)}
    {references : List (Reference κ)} (h : Grows .empty registry features references) {id : String}
    {t : Feature κ} : registry.feature? id = some t ↔ t ∈ features ∧ t.id? = some id := by
  obtain ⟨entries, -, hadds⟩ := h.adds
  rw [(h.distinct Registry.distinct_empty).feature?_eq_some, hadds.features]
  by_cases hid : t.id = ""
  · simp [Registry.empty, Feature.id?, hid]
  · simp [Registry.empty, Feature.id?, hid]

section Settled
variable {registry : Registry κ} {features : List (Feature κ)} {entries : List (Entry κ)}
  {e : Entry κ}

/-- The link that comes with an entry is found under its number when all links are settled. -/
theorem Adds.getElem?_settledLink (h : Adds .empty registry features entries) (he : e ∈ entries) :
    (entries.map (registry.settledLink ·.link))[e.reference.number]? =
      some (registry.settledLink e.link) := by
  obtain ⟨k, hk⟩ := List.getElem?_of_mem he
  have hnumber : e.reference.number = k := by simpa [Registry.empty] using h.number_eq hk
  rw [hnumber, List.getElem?_map, hk, Option.map_some]

/-- What is reported on an entry is what its settled link shows. -/
theorem Adds.dangling?_eq (h : Adds .empty registry features entries) (he : e ∈ entries)
    {settled : Registry κ} (hlinks : settled.links = entries.map (registry.settledLink ·.link)) :
    e.dangling? registry = settled.dangling? e.reference := by
  have htarget := (h.sound e he).target_settledLink
  unfold Registry.dangling? Entry.dangling?
  rw [hlinks, h.getElem?_settledLink he]
  cases hfound : registry.feature? e.link.targetId with
  | none =>
    rw [hfound] at htarget
    simp [Link.isResolved, htarget, Slot.isSet]
  | some t =>
    rw [hfound] at htarget
    simp [Link.isResolved, htarget, Slot.isSet]

end Settled

/-- What settling makes of everything that has been read. -/
theorem Grows.linked {s : Schema} {root : Feature κ} {before after : Registry κ}
    {dangling : List DanglingReference}
    (h : Grows .empty before root.features (root.references s))
    (hsettle : before.settle = (after, dangling)) :
    Document.Linked s ⟨root, after, dangling⟩ := by
  obtain ⟨entries, hreferences, hadds⟩ := h.adds
  obtain ⟨rfl, rfl⟩ := Prod.mk.inj (hadds.settle.symm.trans hsettle)
  refine ⟨hadds.features, (h.distinct Registry.distinct_empty).nodup, h.ids, ?_, ?_, ?_⟩
  · intro g hg number hnumber
    obtain ⟨ref, href, howner, rfl⟩ := Feature.exists_reference (s := s) hnumber hg
    rw [← hreferences] at href
    obtain ⟨e, he, rfl⟩ := List.mem_map.1 href
    have hsound := hadds.sound e he
    refine ⟨_, hadds.getElem?_settledLink he,
      by rw [before.settledLink_owner, hsound.owner, howner], ?_, ?_⟩
    · rw [before.settledLink_targetId, Link.isResolved, hsound.target_settledLink]
      simp only [← h.feature?_eq_some]
      cases before.feature? e.link.targetId <;> simp [Slot.isSet]
    · intro t ht hid
      rw [before.settledLink_targetId] at hid
      rw [hsound.target_settledLink, h.feature?_eq_some.2 ⟨ht, hid⟩]
  · rw [← hreferences, List.map_map, List.length_map, List.range_eq_range']
    exact hadds.numbers
  · rw [← hreferences, List.filterMap_map]
    exact List.filterMap_congr fun e he => hadds.dangling?_eq he rfl

/-- A document that has been read is linked: its registry has the features in it that have
ids, its links have their owners and their targets, and what dangles is told in document
order. -/
theorem FeatureReader.readDocument_linked (r : FeatureReader κ) (hgeometry : r.geometry.Forward)
    (hcustom : r.custom = []) (srs : Option String) (c : Cursor) (d : Document κ) (s' : Session κ)
    (hevents : c.readings.countP Reading.isEvent < UInt32.size)
    (h : r.readDocument srs (.ofCursor c) = .ok d s') : d.Linked r.schema := by
  obtain ⟨name, attributes, c₁, root, s₁, dangling, hnext, hroot, hsettle, -, rfl⟩ :=
    readDocument_eq_ok.1 h
  obtain ⟨-, _, -, hreach⟩ := Cursor.nextTag_eq_start_iff.1 hnext
  unfold readFeature at hroot
  rw [get_bind] at hroot
  have hgrows := registers_featureWithin hgeometry hcustom srs _ _ _ _
    (Nat.lt_trans hreach.events_lt hevents) hroot
  exact hgrows.linked hsettle

/-- A road that leads to its own lane and to one that is not there. -/
theorem readDocument_linked_road :
    let road := Name.unqualified "Road"
    let part := Name.unqualified "part"
    let lane := Name.unqualified "Lane"
    let href (id : String) : Attribute := ⟨.qualified Space.xlink "href", id⟩
    let fid (id : String) : Attribute := ⟨.unqualified "fid", id⟩
    let reader : FeatureReader Unit := .ofSchema
      ⟨[⟨road, [(Declaration.single part (.feature none)).occurs 1 .unbounded], none, false⟩,
        ⟨lane, [], none, false⟩], []⟩
    let readings : List Reading := [⟨1, .ok (.start road [])⟩,
      ⟨2, .ok (.start part [href "#l"])⟩, ⟨3, .ok (.stop part)⟩,
      ⟨4, .ok (.start part [])⟩, ⟨5, .ok (.start lane [fid "l"])⟩, ⟨6, .ok (.stop lane)⟩,
      ⟨7, .ok (.stop part)⟩,
      ⟨8, .ok (.start part [href "#m"])⟩, ⟨9, .ok (.stop part)⟩, ⟨10, .ok (.stop road)⟩]
    ∃ d s', reader.readDocument none (.ofCursor (.ofReadings readings)) = .ok d s' ∧
      d.dangling = [⟨"m", "", part, 2⟩] ∧ d.Linked reader.schema := by
  intro road part lane href fid reader readings
  have hrun : (yield? (reader.readDocument none (.ofCursor (.ofReadings readings)))).map
      (·.dangling) = some [⟨"m", "", part, 2⟩] := by decide +kernel
  obtain ⟨d, hd, hdangling⟩ := Option.map_eq_some_iff.1 hrun
  obtain ⟨s', h⟩ := yield?_eq_some.1 hd
  exact ⟨d, s', h, hdangling, reader.readDocument_linked GeometryReader.forward_standard rfl none _
    d s' (by decide +kernel) h⟩

end FeatureMarkup

import FeatureMarkup.Proofs.Reader.Making
import FeatureMarkup.Proofs.Reference.Standing

/-! What stands in a property for a feature.

Such a property has an inline feature, of a type derived from the one that is expected, or a
link. Where no reference of the document dangles every link has found its target, which is a
feature of the document with the id asked for; its type is not looked at. -/
namespace FeatureMarkup

open Xml (Attribute Reading)

variable {κ : Type} {r : FeatureReader κ}

/-- A property of a feature of a type, if it is for a feature and no reader of the user's own
reads it, has a feature of a type derived from the expected one, or one of the links, there
being so many of them. -/
def Property.HasFeature (r : FeatureReader κ) (type : FeatureType) (links : Nat)
    (p : Property κ) : Prop :=
  r.custom? type.name p.declaration.name = none →
    ∀ expected, p.declaration.category = .feature expected →
      (∃ n, n < links ∧ p.value = .link n) ∨
        ∃ t, p.value = .feature t ∧ ∀ v, expected = some v → r.schema.derives v t.type.name = true

theorem Property.HasFeature.mono {type : FeatureType} {links links' : Nat} {p : Property κ}
    (h : p.HasFeature r type links) (hle : links ≤ links') : p.HasFeature r type links' := by
  intro hcustom expected hcategory
  refine (h hcustom expected hcategory).imp_left ?_
  intro hgiven
  obtain ⟨n, hn, hp⟩ := hgiven
  exact ⟨n, Nat.lt_of_lt_of_le hn hle, hp⟩

/-- What becomes of a registry when features are read. -/
structure Gathers (r : FeatureReader κ) (a b : Registry κ) (features : List (Feature κ)) :
    Prop where
  links : a.links.length ≤ b.links.length
  valued : ∀ g ∈ features, ∀ p ∈ g.properties, p.HasFeature r g.type b.links.length
  registered : b.features = a.features ++ features.filter (·.id ≠ "")
  coherent : a.Coherent → b.Coherent
  awaits : a.Awaits → b.Awaits

namespace Gathers
variable {a b c : Registry κ} {features features' : List (Feature κ)}

theorem refl (a : Registry κ) : Gathers r a a [] :=
  ⟨Nat.le_refl _, nofun, by simp, id, id⟩

theorem trans (h : Gathers r a b features) (h' : Gathers r b c features') :
    Gathers r a c (features ++ features') := by
  refine ⟨Nat.le_trans h.links h'.links, fun g hg p hp => ?_, ?_, h'.coherent ∘ h.coherent,
    h'.awaits ∘ h.awaits⟩
  · rcases List.mem_append.1 hg with hg | hg
    · exact (h.valued g hg p hp).mono h'.links
    · exact h'.valued g hg p hp
  · rw [h'.registered, h.registered, List.filter_append, List.append_assoc]

theorem refer {ownerId targetId : String} {property : Name} {occurrence number : Nat}
    (h : a.refer ownerId property occurrence targetId = (number, b)) :
    Gathers r a b [] ∧ number < b.links.length := by
  obtain ⟨rfl, rfl⟩ : number = (a.refer ownerId property occurrence targetId).1 ∧
      b = (a.refer ownerId property occurrence targetId).2 := by
    rw [h]
    exact ⟨rfl, rfl⟩
  refine ⟨⟨?_, nofun, ?_, fun ha => ha.refer, fun ha => ha.refer⟩, ?_⟩ <;>
    simp [Registry.refer_eq]

/-- The end of a feature: it becomes the owner of its links and is registered. -/
theorem complete {f : Feature κ} (h : Gathers r a b (Property.allFeatures f.properties))
    (hown : ∀ p ∈ f.properties, p.HasFeature r f.type b.links.length)
    (hregister : (b.bindLinks f).register f = .ok c) : Gathers r a c f.features := by
  have hlinks : c.links.length = b.links.length := by
    rw [(Registry.links_register hregister).1, b.length_bindLinks]
  rw [f.features_eq]
  refine ⟨hlinks ▸ h.links, fun g hg p hp => ?_, ?_,
    fun ha => ((h.coherent ha).bindLinks f).register hregister,
    fun ha => ((h.awaits ha).bindLinks f).register hregister⟩
  · rw [hlinks]
    rcases List.mem_append.1 hg with hg | hg
    · exact h.valued g hg p hp
    · obtain rfl := List.mem_singleton.1 hg
      exact hown p hp
  · have hbound := (b.bindLinks_eq f).1
    rw [List.filter_append, ← List.append_assoc, ← h.registered]
    rcases Registry.register_eq_ok.1 hregister with ⟨hid, rfl⟩ | ⟨hid, -, rfl⟩ <;>
      simp [hid, hbound]

end Gathers

/-! ### Making -/

theorem ValueMade.gathers {type : FeatureType} {id : String} {d : Declaration} {occurrence : Nat}
    {a b : Registry κ} {value : Value κ}
    (h : ValueMade r (fun a f b => Gathers r a b f.features) type id d occurrence a value b)
    (element : Name) :
    Gathers r a b value.features ∧
      Property.HasFeature r type b.links.length ⟨d, element, value⟩ := by
  cases h with
  | custom hcustom => exact ⟨.refl _, fun hnone => absurd hnone hcustom⟩
  | plain hcategory hfeatures _ =>
    rw [hfeatures]
    exact ⟨.refl _, fun _ expected hexpected => absurd hexpected (hcategory expected)⟩
  | link _ hrefer =>
    obtain ⟨hgathers, hnumber⟩ := Gathers.refer hrefer
    exact ⟨hgathers, fun _ _ _ => .inl ⟨_, hnumber, rfl⟩⟩
  | @inline _ expected f hcategory hderives hgathers =>
    refine ⟨hgathers, fun _ expected' hexpected => .inr ⟨f, rfl, ?_⟩⟩
    obtain rfl : expected = expected' := by simpa using hcategory.symm.trans hexpected
    exact hderives

theorem PropertiesMade.gathers {type : FeatureType} {id : String} {p p' : Partway κ}
    {a b : Registry κ}
    (h : PropertiesMade r (fun a f b => Gathers r a b f.features) type id p a p' b) :
    ∃ properties, p'.properties.reverse = p.properties.reverse ++ properties ∧
      Gathers r a b (Property.allFeatures properties) ∧
      ∀ q ∈ properties, q.HasFeature r type b.links.length := by
  induction h with
  | nil => exact ⟨[], by simp, .refl _, nofun⟩
  | @cons p a element d progress value b p' c _ hvalue _ ih =>
    obtain ⟨properties, hproperties, hgathers, hall⟩ := ih
    obtain ⟨hfirst, hq⟩ := hvalue.gathers element
    refine ⟨⟨d, element, value⟩ :: properties, by simpa using hproperties, hfirst.trans hgathers,
      fun q hmem => ?_⟩
    rcases List.mem_cons.1 hmem with rfl | hmem
    · exact hq.mono hgathers.links
    · exact hall q hmem

theorem FeatureMade.gathers {a b : Registry κ} {f : Feature κ}
    (h : FeatureMade r (fun a f b => Gathers r a b f.features) a f b) : Gathers r a b f.features := by
  cases h with
  | intro _ _ _ hmade _ hregister =>
    obtain ⟨properties, hproperties, hgathers, hown⟩ := hmade.gathers
    obtain rfl := (List.nil_append _).symm.trans hproperties.symm
    exact hgathers.complete hown hregister

/-! ### Documents -/

theorem Document.dangling_of_resolved {d d' : Document κ} (h : d.resolved = .ok d') :
    d.dangling = [] := by
  unfold resolved at h
  split at h
  next hnone => exact List.isEmpty_iff.1 hnone
  next => cases h

/-- The features that are registered at the end of a document are those in it that have an
id. -/
theorem Gathers.mem_registered {a b : Registry κ} {features : List (Feature κ)}
    (h : Gathers r a b features) (hempty : a = .empty) {t : Feature κ} (ht : t ∈ b.features) :
    t ∈ features ∧ t.id? = some t.id := by
  rw [h.registered, hempty, Registry.empty, List.nil_append, List.mem_filter] at ht
  refine ⟨ht.1, ?_⟩
  rw [Feature.id?, if_neg (by simpa using ht.2)]

/-- In a document in which no reference dangles every property for a feature has one: an
inline feature is of a type derived from the one that is expected, and a link leads to the
feature of the document with the id it asks for, whatever its type. -/
theorem FeatureReader.readDocument_targets (r : FeatureReader κ) (srs : Option String)
    (s s' : Session κ) (d : Document κ) (hempty : s.registry = .empty)
    (h : r.readDocument srs s = .ok d s') (hresolved : d.resolved = .ok d) :
    ∀ g ∈ d.root.features, ∀ p ∈ g.properties,
      r.custom? g.type.name p.declaration.name = none →
      ∀ expected, p.declaration.category = .feature expected →
        ∃ t, d.registry.featureOf? p.value = some t ∧
          ((p.value = .feature t ∧
              ∀ v, expected = some v → r.schema.derives v t.type.name = true) ∨
            ∃ n l, p.value = .link n ∧ d.registry.links[n]? = some l ∧ t ∈ d.root.features ∧
              t.id? = some l.targetId) := by
  obtain ⟨_, _, c, root, s₁, dangling, -, hroot, hsettle, -, rfl⟩ := readDocument_eq_ok.1 h
  have hgathers : Gathers r s.registry s₁.registry root.features :=
    made_of_featureWithin (fun _ _ _ hmade => hmade.gathers) srs _ ⟨c, s.registry⟩ root s₁ hroot
  have hcoherent := hgathers.coherent (hempty ▸ Registry.coherent_empty)
  have hawaits := hgathers.awaits (hempty ▸ Registry.awaits_empty)
  have hnone : s₁.registry.settle.2 = [] :=
    (congrArg Prod.snd hsettle).trans (Document.dangling_of_resolved hresolved)
  have hafter : s₁.registry.settle.1 = s'.registry := congrArg Prod.fst hsettle
  intro g hg p hp hcustom expected hcategory
  rcases hgathers.valued g hg p hp hcustom expected hcategory with
    ⟨n, hn, hvalue⟩ | ⟨t, hvalue, hderives⟩
  · obtain ⟨l, t, hl, htarget, hmem, hid⟩ := hcoherent.target_of_settle hawaits hnone hn
    obtain ⟨hinside, hid?⟩ := hgathers.mem_registered hempty hmem
    rw [hafter] at hl
    have hfeature : s'.registry.featureOf? p.value = some t := by
      simp [hvalue, Registry.featureOf?, hl, htarget, Slot.feature?]
    exact ⟨t, hfeature, .inr ⟨n, l, hvalue, hl, hinside, by rw [hid?, hid]⟩⟩
  · exact ⟨t, by rw [hvalue]; rfl, .inl ⟨hvalue, hderives⟩⟩

/-- A road with a lane inside it, and a link to that lane where a lane is expected. -/
theorem readDocument_targets_lane :
    let road := Name.unqualified "Road"
    let lane := Name.unqualified "Lane"
    let part := Name.unqualified "part"
    let href : Attribute := ⟨.qualified Space.xlink "href", "#l"⟩
    let fid : Attribute := ⟨.unqualified "fid", "l"⟩
    let reader : FeatureReader Unit := .ofSchema
      ⟨[⟨road, [(Declaration.single part (.feature (some lane))).occurs 1 .unbounded], none, false⟩,
        ⟨lane, [], none, false⟩], []⟩
    let readings : List Reading := [⟨1, .ok (.start road [])⟩, ⟨2, .ok (.start part [])⟩,
      ⟨3, .ok (.start lane [fid])⟩, ⟨4, .ok (.stop lane)⟩, ⟨5, .ok (.stop part)⟩,
      ⟨6, .ok (.start part [href])⟩, ⟨7, .ok (.stop part)⟩, ⟨8, .ok (.stop road)⟩]
    ∃ d s', reader.readDocument none (.ofCursor (.ofReadings readings)) = .ok d s' ∧
      d.root.properties.length = 2 ∧
      ∀ p ∈ d.root.properties, p.declaration.category = .feature (some lane) →
        ∃ t, d.registry.featureOf? p.value = some t := by
  intro road lane part href fid reader readings
  have hrun : (yield? (reader.readDocument none (.ofCursor (.ofReadings readings)))).map
      (fun d => (d.dangling, d.root.properties.length)) = some ([], 2) := by decide +kernel
  obtain ⟨d, hd, hshown⟩ := Option.map_eq_some_iff.1 hrun
  obtain ⟨hdangling, hlength⟩ := Prod.mk.inj hshown
  obtain ⟨s', h⟩ := yield?_eq_some.1 hd
  have hresolved : d.resolved = .ok d := by simp [Document.resolved, hdangling]
  have hroot : d.root ∈ d.root.features := by simp [d.root.features_eq]
  refine ⟨d, s', h, hlength, fun p hp hcategory => ?_⟩
  obtain ⟨t, ht, -⟩ :=
    reader.readDocument_targets none _ s' d rfl h hresolved d.root hroot p hp rfl _ hcategory
  exact ⟨t, ht⟩

/-- The type of a target is not looked at: a link to a river is taken where a road is
expected, and the document has no reference that dangles. -/
theorem readDocument_targets_river :
    let map := Name.unqualified "Map"
    let road := Name.unqualified "Road"
    let river := Name.unqualified "River"
    let water := Name.unqualified "water"
    let way := Name.unqualified "way"
    let href : Attribute := ⟨.qualified Space.xlink "href", "#r"⟩
    let fid : Attribute := ⟨.unqualified "fid", "r"⟩
    let reader : FeatureReader Unit := .ofSchema
      ⟨[⟨map, [.single water (.feature (some river)), .single way (.feature (some road))], none,
        false⟩, ⟨road, [], none, false⟩, ⟨river, [], none, false⟩], []⟩
    let readings : List Reading := [⟨1, .ok (.start map [])⟩, ⟨2, .ok (.start water [])⟩,
      ⟨3, .ok (.start river [fid])⟩, ⟨4, .ok (.stop river)⟩, ⟨5, .ok (.stop water)⟩,
      ⟨6, .ok (.start way [href])⟩, ⟨7, .ok (.stop way)⟩, ⟨8, .ok (.stop map)⟩]
    ∃ d s', reader.readDocument none (.ofCursor (.ofReadings readings)) = .ok d s' ∧
      d.resolved = .ok d ∧
      ∃ p ∈ d.root.properties, p.declaration.category = .feature (some road) ∧
        reader.custom? d.root.type.name p.declaration.name = none ∧
        ∃ t, d.registry.featureOf? p.value = some t ∧
          reader.schema.derives road t.type.name = false := by
  intro map road river water way href fid reader readings
  have hrun : (yield? (reader.readDocument none (.ofCursor (.ofReadings readings)))).map
      (fun d => (d.dangling, d.root.properties.any fun p =>
        p.declaration.category = .feature (some road) &&
          (d.registry.featureOf? p.value).any fun t => !reader.schema.derives road t.type.name)) =
        some ([], true) := by decide +kernel
  obtain ⟨d, hd, hshown⟩ := Option.map_eq_some_iff.1 hrun
  obtain ⟨hdangling, hsome⟩ := Prod.mk.inj hshown
  obtain ⟨s', h⟩ := yield?_eq_some.1 hd
  obtain ⟨p, hp, hboth⟩ := List.any_eq_true.1 hsome
  rw [Bool.and_eq_true] at hboth
  obtain ⟨t, ht, hderives⟩ := (Option.any_eq_true _ _).1 hboth.2
  exact ⟨d, s', h, by simp [Document.resolved, hdangling], p, hp, by simpa using hboth.1, rfl, t,
    ht, by simpa using hderives⟩

end FeatureMarkup

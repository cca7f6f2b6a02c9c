import FeatureMarkup.Proofs.Cursor.Movement
import FeatureMarkup.Proofs.Feature.Nesting
import FeatureMarkup.Proofs.Reader.Derivation

/-! How a feature is made, whatever the readers of the user's own and of geometries do.

Apart from the cursor, reading a feature does a few things only: it finds a declaration for
each property, makes a link for a reference, has a feature read for an inline one, and in
the end writes the owner of the links and registers the feature. `FeatureMade` says so of
one feature, the features inside it being made as assumed; a relation that holds of a
feature so made holds of every feature that is read (`made_of_featureWithin`). -/
namespace FeatureMarkup

open Xml (Attribute)

/-- How the value of a property of a feature is made, and what becomes of the registry. -/
inductive ValueMade {κ : Type} (r : FeatureReader κ)
    (F : Registry κ → Feature κ → Registry κ → Prop) (type : FeatureType) (id : String)
    (d : Declaration) (occurrence : Nat) : Registry κ → Value κ → Registry κ → Prop where
  | custom {a value} : r.custom? type.name d.name ≠ none →
      ValueMade r F type id d occurrence a (.custom value) a
  /-- Read from what is inside the property's element, and nothing else. -/
  | plain {a value} : (∀ expected, d.category ≠ .feature expected) → value.features = [] →
      value.link? = none → ValueMade r F type id d occurrence a value a
  | link {a b expected targetId number} : d.category = .feature expected →
      a.refer id d.name occurrence targetId = (number, b) →
      ValueMade r F type id d occurrence a (.link number) b
  | inline {a b expected f} : d.category = .feature expected →
      (∀ v, expected = some v → r.schema.derives v f.type.name = true) → F a f b →
      ValueMade r F type id d occurrence a (.feature f) b

/-- How properties are made one after another. -/
inductive PropertiesMade {κ : Type} (r : FeatureReader κ)
    (F : Registry κ → Feature κ → Registry κ → Prop) (type : FeatureType) (id : String) :
    Partway κ → Registry κ → Partway κ → Registry κ → Prop where
  | nil {p a} : PropertiesMade r F type id p a p a
  | cons {p a element d progress value b p' c} :
      r.schema.accept type.properties p.progress element = (.ok d, progress) →
      ValueMade r F type id d (progress.count.toNat - 1) a value b →
      PropertiesMade r F type id ⟨progress, ⟨d, element, value⟩ :: p.properties⟩ b p' c →
      PropertiesMade r F type id p a p' c

/-- How a feature is made and registered, the features inside it being made as assumed. -/
inductive FeatureMade {κ : Type} (r : FeatureReader κ)
    (F : Registry κ → Feature κ → Registry κ → Prop) :
    Registry κ → Feature κ → Registry κ → Prop where
  | intro {a name type id partway middle b} : r.schema.featureType? name = some type →
      type.isAbstract = false → isFeatureId id = true →
      PropertiesMade r F type id ⟨.initial, []⟩ a partway middle →
      partway.progress.finish type.properties r.checkRest = .ok () →
      (middle.bindLinks ⟨id, type, partway.properties.reverse⟩).register
        ⟨id, type, partway.properties.reverse⟩ = .ok b →
      FeatureMade r F a ⟨id, type, partway.properties.reverse⟩ b

variable {κ : Type} {r : FeatureReader κ} {F : Registry κ → Feature κ → Registry κ → Prop}
  {srs : Option String} {depth : Nat} {s s' : Session κ}

/-! ### Reading -/

namespace FeatureReader

/-- The type of a feature that has been read is that of its element's name. -/
theorem featureWithin_type {f : Feature κ} (h : r.featureWithin srs depth s = .ok f s') :
    ∃ name attributes, s.cursor.event = .startElement name attributes ∧
      r.schema.featureType? name = some f.type := by
  obtain _ | depth := depth
  · exact absurd h (by simp [featureWithin])
  obtain ⟨name, attributes, type, hevent, -, htype, -, _, _, _, -, hend⟩ :=
    featureWithin_succ_eq_ok.1 h
  obtain ⟨-, rfl, -⟩ := endFeature_eq_ok.1 hend
  exact ⟨name, attributes, hevent, htype⟩

/-- Reading a feature makes what is assumed. -/
def Makes (F : Registry κ → Feature κ → Registry κ → Prop) (inline : SessionM κ (Feature κ)) :
    Prop :=
  ∀ s f s', inline s = .ok f s' → F s.registry f s'.registry

section Inline
variable {type : FeatureType} {id : String} {d : Declaration} {occurrence : Nat}
  {attributes : List Attribute} {value : Value κ}

theorem made_of_readFeatureValue (hinline : Makes F (r.featureWithin srs depth))
    {expected : Option Name} (hcategory : d.category = .feature expected)
    (h : r.readFeatureValue (r.featureWithin srs depth) d expected attributes id occurrence s =
      .ok value s') :
    ValueMade r F type id d occurrence s.registry value s'.registry := by
  rcases readFeatureValue_eq_ok.1 h with
    ⟨href, -, hread⟩ | ⟨-, c, f, s₁, c', henter, hread, -, rfl, rfl⟩
  · obtain ⟨targetId, _, number, -, -, hrefer, -, rfl⟩ := readReference_eq_ok.1 hread
    exact .link hcategory hrefer
  · obtain ⟨found, _, hnext, -, hderives⟩ := enterFeature_eq_ok.1 henter
    obtain ⟨-, _, -, hreach⟩ := Cursor.nextTag_eq_start_iff.1 hnext
    obtain ⟨name, _, hevent, htype⟩ := featureWithin_type hread
    -- The element that the feature is read from is the one whose type has been looked at.
    obtain ⟨rfl, -⟩ : found = name ∧ _ := by
      simpa [Tag.event] using hreach.event.symm.trans hevent
    refine .inline hcategory (fun v hv => ?_) (hinline ⟨c, s.registry⟩ f s₁ hread)
    rw [featureType?_name htype]
    exact hderives v hv

theorem made_of_readByCategory (hinline : Makes F (r.featureWithin srs depth))
    (h : r.readByCategory (r.featureWithin srs depth) d attributes id occurrence srs s =
      .ok value s') :
    ValueMade r F type id d occurrence s.registry value s'.registry := by
  unfold readByCategory at h
  cases hcategory : d.category with
  | feature expected =>
    rw [hcategory] at h
    exact made_of_readFeatureValue hinline hcategory h
  | simple | code | geometry | envelope | complex =>
    simp only [hcategory, bind_eq_ok, Session.lift_eq_ok, pure_eq_ok] at h
    obtain ⟨_, _, ⟨_, _, rfl⟩, rfl, rfl⟩ := h
    exact .plain (by simp [hcategory]) rfl rfl
  | measure =>
    simp only [hcategory, bind_eq_ok, Session.position_eq_ok, inProperty_eq_ok, Session.lift_eq_ok,
      pure_eq_ok] at h
    obtain ⟨_, _, ⟨_, rfl⟩, _, _, ⟨_, _, rfl⟩, rfl, rfl⟩ := h
    exact .plain (by simp [hcategory]) rfl rfl

theorem made_of_readValue (hinline : Makes F (r.featureWithin srs depth))
    (h : r.readValue (r.featureWithin srs depth) type d attributes id occurrence srs s =
      .ok value s') :
    ValueMade r F type id d occurrence s.registry value s'.registry := by
  cases hcustom : r.custom? type.name d.name with
  | none =>
    rw [readValue_of_custom?_eq_none hcustom] at h
    exact made_of_readByCategory hinline h
  | some custom =>
    unfold readValue at h
    simp only [hcustom, bind_eq_ok, Session.note_eq_ok, Session.position_eq_ok, inProperty_eq_ok,
      Session.lift_eq_ok, pure_eq_ok] at h
    obtain ⟨_, _, rfl, _, _, ⟨_, rfl⟩, _, _, ⟨_, _, rfl⟩, rfl, rfl⟩ := h
    exact .custom (by simp [hcustom])

theorem made_of_properties (hinline : Makes F (r.featureWithin srs depth)) {rounds : Nat}
    {name : Name} {p p' : Partway κ}
    (h : foldTags (liftM Cursor.nextTag) (r.readProperty (r.featureWithin srs depth) srs type id)
      rounds p s = .ok (.stop name, p') s') :
    PropertiesMade r F type id p s.registry p' s'.registry := by
  induction rounds generalizing p s with
  | zero =>
    obtain ⟨hfinish, -⟩ := pure_eq_ok.1 h
    cases hfinish
  | succ rounds ih =>
    obtain ⟨tag, s₁, hnext, hrest⟩ := bind_eq_ok.1 h
    obtain ⟨c₁, -, rfl⟩ := Session.lift_eq_ok.1 hnext
    cases tag with
    | finish =>
      obtain ⟨hp, -⟩ := pure_eq_ok.1 hrest
      cases hp
    | stop =>
      obtain ⟨hp, rfl⟩ := pure_eq_ok.1 hrest
      cases hp
      exact .nil
    | start element attributes =>
      obtain ⟨p₁, s₂, hread, hrest⟩ := bind_eq_ok.1 hrest
      obtain ⟨d, progress, value, haccept, hvalue, rfl⟩ := readProperty_eq_ok_iff.1 hread
      have hmade := made_of_readValue (s := Session.logging _ _) hinline hvalue
      exact .cons haccept hmade (ih hrest)

end Inline

/-- A relation that holds of a feature whenever it holds of those inside it holds of every
feature that is read. -/
theorem made_of_featureWithin (hclosed : ∀ a f b, FeatureMade r F a f b → F a f b)
    (srs : Option String) (depth : Nat) : Makes F (r.featureWithin srs depth) := by
  induction depth with
  | zero => exact fun _ _ _ h => absurd h (by simp [featureWithin])
  | succ depth ih =>
    intro s f s' h
    obtain ⟨name, attributes, type, -, hid, htype, habstract, name', partway, s₁, hloop, hend⟩ :=
      featureWithin_succ_eq_ok.1 h
    obtain ⟨hfinish, rfl, registry, hregister, rfl⟩ := endFeature_eq_ok.1 hend
    unfold readProperties at hloop
    rw [get_bind] at hloop
    have hmade := made_of_properties (s := s.logging _) ih hloop
    exact hclosed _ _ _ (.intro htype habstract hid hmade hfinish hregister)

end FeatureReader

/-! ### Features inside -/

theorem ValueMade.mono {G : Registry κ → Feature κ → Registry κ → Prop}
    (hFG : ∀ a f b, F a f b → G a f b) {type : FeatureType} {id : String} {d : Declaration}
    {occurrence : Nat} {a b : Registry κ} {value : Value κ}
    (h : ValueMade r F type id d occurrence a value b) :
    ValueMade r G type id d occurrence a value b := by
  cases h with
  | custom hcustom => exact .custom hcustom
  | plain hcategory hfeatures hlink => exact .plain hcategory hfeatures hlink
  | link hcategory hrefer => exact .link hcategory hrefer
  | inline hcategory hderives hf => exact .inline hcategory hderives (hFG _ _ _ hf)

theorem PropertiesMade.mono {G : Registry κ → Feature κ → Registry κ → Prop}
    (hFG : ∀ a f b, F a f b → G a f b) {type : FeatureType} {id : String} {p p' : Partway κ}
    {a b : Registry κ} (h : PropertiesMade r F type id p a p' b) :
    PropertiesMade r G type id p a p' b := by
  induction h with
  | nil => exact .nil
  | cons haccept hvalue _ ih => exact .cons haccept (hvalue.mono hFG) ih

theorem FeatureMade.mono {G : Registry κ → Feature κ → Registry κ → Prop}
    (hFG : ∀ a f b, F a f b → G a f b) {a b : Registry κ} {f : Feature κ}
    (h : FeatureMade r F a f b) : FeatureMade r G a f b := by
  cases h with
  | intro htype habstract hid hmade hfinish hregister =>
    exact .intro htype habstract hid (hmade.mono hFG) hfinish hregister

section Features
variable {P : Feature κ → Prop}

/-- What is known of the features inside each of the properties made. -/
theorem PropertiesMade.forall_features {type : FeatureType} {id : String} {p p' : Partway κ}
    {a b : Registry κ}
    (h : PropertiesMade r (fun _ f _ => ∀ g ∈ f.features, P g) type id p a p' b)
    (hp : ∀ q ∈ p.properties, ∀ g ∈ q.features, P g) :
    ∀ q ∈ p'.properties, ∀ g ∈ q.features, P g := by
  induction h with
  | nil => exact hp
  | cons _ hvalue _ ih =>
    refine ih fun q hq g hg => ?_
    rcases List.mem_cons.1 hq with rfl | hq
    · rw [Property.features] at hg
      cases hvalue with
      | custom => cases hg
      | plain _ hnone =>
        rw [hnone] at hg
        cases hg
      | link => cases hg
      | inline _ _ hf => exact hf g hg
    · exact hp q hq g hg

/-- What holds of a feature whatever those inside it are holds of all features inside a
feature that is read. -/
theorem FeatureReader.forall_features_of_made
    (hP : ∀ a f b, FeatureMade r (fun _ _ _ => True) a f b → P f) (srs : Option String)
    (depth : Nat) : Makes (fun _ f _ => ∀ g ∈ f.features, P g) (r.featureWithin srs depth) := by
  refine made_of_featureWithin (fun a f b h g hg => ?_) srs depth
  rw [f.features_eq] at hg
  rcases List.mem_append.1 hg with hg | hg
  · obtain ⟨q, hq, hinside⟩ := Property.mem_allFeatures.1 hg
    cases h with
    | intro _ _ _ hmade =>
      exact hmade.forall_features nofun q (List.mem_reverse.1 hq) g hinside
  · obtain rfl := List.mem_singleton.1 hg
    exact hP a g b (h.mono fun _ _ _ _ => trivial)

end Features

end FeatureMarkup

import FeatureMarkup.Proofs.Reader.Sources
import FeatureMarkup.Proofs.Schema.Limits

/-! What a feature that has been read is like.

It is valid against its element and the schema: its type and its id, its properties one by
one with the elements inside, the places of their declarations, how often each of these has
occurred, and the kinds of the values. So are all features inside it, each against the
element it comes from. -/
namespace FeatureMarkup

variable {κ : Type} {r : FeatureReader κ}

/-- Properties that take places among declarations one after another, none before the one
given: each the first place from there on whose declaration admits its element. -/
inductive Placed (s : Schema) (declarations : List Declaration) :
    Nat → List (Property κ) → List Nat → Prop where
  | nil {i} : Placed s declarations i [] []
  | cons {i j : Nat} {p : Property κ} {rest places} : i ≤ j →
      declarations[j]? = some p.declaration → s.admits p.name p.declaration.name = true →
      (∀ k d, i ≤ k → k < j → declarations[k]? = some d → s.admits p.name d.name = false) →
      Placed s declarations j rest places → Placed s declarations i (p :: rest) (j :: places)

/-- A property whose value is of the kind that the category of its declaration asks for. -/
def Property.Fits (s : Schema) (p : Property κ) : Prop :=
  match p.declaration.category with
  | .simple => ∃ text, p.value = .text text
  | .code => ∃ code, p.value = .code code
  | .measure => ∃ measure, p.value = .measure measure
  | .geometry => ∃ geometry, p.value = .geometry geometry
  | .envelope => ∃ envelope, p.value = .envelope envelope
  | .complex => ∃ tree, p.value = .tree tree
  | .feature expected =>
    (∃ number, p.value = .link number) ∨
      ∃ f, p.value = .feature f ∧
        ∀ type, expected = some type → s.derives type f.type.name = true

/-- A feature that is valid against its element, apart from the features inside it. -/
structure ValidAt (r : FeatureReader κ) (tree : MarkupTree) (f : Feature κ) : Prop where
  type : r.schema.featureType? tree.name = some f.type
  concrete : f.type.isAbstract = false
  id : isFeatureId f.id = true
  names : f.properties.map (·.name) = tree.childElements.map (·.name)
  fits : ∀ p ∈ f.properties, p.Fits r.schema
  /-- The places of the properties: each declaration that has been left, or any if the rest
  is checked, has occurred often enough, and none too often; the first occurrence is not
  held against the greatest number. -/
  placed : ∃ places, Placed r.schema f.type.properties 0 f.properties places ∧
    (∀ i d, f.type.properties[i]? = some d → (r.checkRest = true ∨ ∃ j ∈ places, i < j) →
      d.minOccurs.toNat ≤ places.count i) ∧
    ∀ i d, f.type.properties[i]? = some d →
      places.count i ≤ 1 ∨ d.maxOccurs.allows (.ofNat (places.count i)) = true

/-! ### The properties of one feature -/

/-- Properties whose elements are accepted take places, of which the validator keeps track. -/
theorem Accepts.placed {s : Schema} {declarations : List Declaration} {p p' : Progress}
    {properties : List (Property κ)}
    (h : Accepts s declarations p (properties.map fun q => (q.name, q.declaration)) p') :
    ∃ places, places.length = properties.length ∧
      Placed s declarations p.active properties places ∧
      ∀ before, before.length + properties.length < UInt32.size →
        Progress.Keeps declarations before p →
        Progress.Keeps declarations (before ++ places) p' := by
  induction properties generalizing p with
  | nil =>
    cases h
    exact ⟨[], rfl, .nil, fun before _ hk => by simpa using hk⟩
  | cons q rest ih =>
    cases h with
    | @cons _ p₁ _ _ _ _ haccept hrest =>
      obtain ⟨places, hlength, hplaced, hkeeps⟩ := ih hrest
      obtain ⟨hle, hd, hadmits, hbetween⟩ := Progress.accept_place haccept
      refine ⟨p₁.active :: places, by rw [List.length_cons, hlength, List.length_cons],
        .cons hle hd hadmits hbetween hplaced, fun before hfew hk => ?_⟩
      rw [List.length_cons] at hfew
      rw [List.append_cons]
      exact hkeeps _ (by rw [List.length_append, List.length_singleton]; omega)
        (hk.accept (by omega) haccept)

/-! ### The features inside -/

/-- Some features with the elements they come from, which are all of these and valid. -/
def ValidFrom (r : FeatureReader κ) (sources : List (MarkupTree × Feature κ))
    (features : List (Feature κ)) : Prop :=
  sources.map (·.2) = features ∧ ∀ tree f, (tree, f) ∈ sources → ValidAt r tree f

/-- A feature that is valid with all inside it, if its element is not too large for the
counts. -/
structure Valid (r : FeatureReader κ) (tree : MarkupTree) (f : Feature κ) : Prop where
  type : r.schema.featureType? tree.name = some f.type
  inside : MarkupNode.elementsOf tree.children < UInt32.size →
    ValidFrom r (f.sources tree) f.features

/-- How many elements there are is at least how many of them stand side by side. -/
theorem length_le_elementsOf (trees : List MarkupTree) :
    trees.length ≤ MarkupNode.elementsOf (trees.map .element) := by
  induction trees with
  | nil => exact Nat.le_refl 0
  | cons tree trees ih =>
    rw [List.map_cons, MarkupNode.elementsOf_element, List.length_cons]
    omega

/-- What is inside an element, and what comes behind it, has no more elements. -/
theorem elementsOf_lt_inside {n : Nat} (tree : MarkupTree) (more : List MarkupNode)
    (h : MarkupNode.elementsOf (.element tree :: more) < n) :
    MarkupNode.elementsOf tree.children < n ∧ MarkupNode.elementsOf more < n := by
  rw [MarkupNode.elementsOf_element] at h
  omega

theorem property_fits {p : Property κ} {children : List MarkupNode}
    (h : ValueFrom r (Valid r) p.declaration.category children p.value) : p.Fits r.schema := by
  unfold Property.Fits
  cases hcategory : p.declaration.category with
  | feature expected =>
    rw [hcategory] at h
    refine h.imp_right ?_
    intro hgiven
    obtain ⟨tree, more, -, f, hf, hderives, hvalid⟩ := hgiven
    exact ⟨f, hf, by rwa [featureType?_name hvalid.type]⟩
  | _ => rwa [hcategory] at h

/-- The last place taken is that of the validator. -/
theorem lt_active {declarations : List Declaration} {places : List Nat} {p : Progress} {i : Nat}
    (ht : p.Tracks declarations places) (h : ∃ j ∈ places, i < j) : i < p.active := by
  obtain ⟨j, hj, hlt⟩ := h
  exact Nat.lt_of_lt_of_le hlt (ht.within j hj)

/-- A feature read from an element is valid if the features inside it are. -/
theorem valid_of_from {tree : MarkupTree} {f : Feature κ} (h : FeatureFrom r (Valid r) tree f) :
    Valid r tree f := by
  obtain ⟨type, partway, htype, habstract, hid, halong, hfinish, rfl⟩ := h
  obtain ⟨trees, properties, hnodes, hproperties, hforall, haccepts⟩ :=
    properties_of_along (V := fun d => ValueFrom r (Valid r) d.category) halong
  obtain ⟨name, attributes, children⟩ := tree
  obtain rfl : children = trees.map .element := hnodes
  obtain rfl : partway.properties.reverse = properties := by simpa using hproperties
  refine ⟨htype, fun hsize => ?_⟩
  obtain ⟨places, -, hplaced, hkeeps⟩ := haccepts.placed
  have hlength := Nat.lt_of_le_of_lt (length_le_elementsOf trees) hsize
  rw [← hforall.length_eq, ← Nat.zero_add partway.properties.reverse.length] at hlength
  have ht := (hkeeps [] hlength Progress.keeps_initial).tracks
  have hself : ValidAt r ⟨name, attributes, trees.map .element⟩
      ⟨featureId attributes, type, partway.properties.reverse⟩ := by
    refine ⟨htype, habstract, hid, ?_, fun p hp => ?_, places, hplaced, fun i d hd hleft => ?_,
      ht.most⟩
    · have hnames := List.forall₂_map_left_iff.2 (List.forall₂_map_right_iff.2
        (hforall.imp fun _ _ h => h.1))
      rw [childElements_elements]
      exact List.forall₂_eq_eq_eq ▸ hnames
    · obtain ⟨tree, -, -, hvalue⟩ := forall₂_mem hforall hp
      exact property_fits hvalue
    · rcases hleft with hrest | hlater
      · exact ht.finish (hrest ▸ hfinish) i d hd
      · exact ht.left i d (lt_active ht hlater) hd
  have hvalues := hforall.imp fun p tree hp => hp.2.mono fun tree f hvalid => hvalid.inside
  exact SourcedBy.feature (.properties (C := (MarkupNode.elementsOf · < UInt32.size))
    elementsOf_lt_inside hvalues hsize) hself

/-! ### Reading -/

/-- A feature that is read is valid with all features inside it, each against the element
it comes from, in a document of fewer events than a count can tell. -/
theorem FeatureReader.readFeature_valid (r : FeatureReader κ) (hgeometry : r.geometry = .standard)
    (hcustom : r.custom = []) (srs : Option String) (s s' : Session κ) (f : Feature κ)
    (hevents : s.cursor.readings.countP Xml.Reading.isEvent < UInt32.size)
    (h : r.readFeature srs s = .ok f s') :
    ∃ name attributes inside children offset name',
      s.cursor.event = .startElement name attributes ∧
      s.cursor.readings = inside ++ ⟨offset, .ok (.stop name')⟩ :: s'.cursor.readings ∧
      Spells inside children ∧
      (f.sources ⟨name, attributes, children⟩).map (·.2) = f.features ∧
      ∀ tree g, (tree, g) ∈ f.sources ⟨name, attributes, children⟩ → ValidAt r tree g := by
  obtain ⟨⟨name, attributes, hs⟩, name', hs'⟩ := featureWithin_ends h
  rcases carries_readFeature hgeometry hcustom (fun _ _ => valid_of_from) srs hs h with
    hlost | ⟨taken, htakes, inside, children, offset, name₁, hi, rfl, he, hvalid⟩
  · rw [hs'] at hlost
    cases hlost
  · have hleft : s.cursor.readings =
        inside ++ ⟨offset, .ok (.stop name₁)⟩ :: s'.cursor.readings := by
      have := htakes.left
      rwa [List.append_assoc, List.singleton_append] at this
    have hsize : MarkupNode.elementsOf children < UInt32.size := by
      rw [hleft, List.countP_append] at hevents
      have := hi.elements_le
      omega
    obtain ⟨hall, hsources⟩ := hvalid.inside hsize
    exact ⟨name, attributes, inside, children, offset, name₁, hs, hleft, hi, hall, hsources⟩

/-- A road with a lane inside it, which has a text. -/
theorem readFeature_valid_road :
    let road := Name.unqualified "Road"
    let part := Name.unqualified "part"
    let lane := Name.unqualified "Lane"
    let note := Name.unqualified "note"
    let reader : FeatureReader Unit := .ofSchema
      ⟨[⟨road, [.single part (.feature (some lane))], none, false⟩,
        ⟨lane, [.single note .simple], none, false⟩], []⟩
    let readings : List Xml.Reading := [⟨6, .ok (.start part [])⟩, ⟨12, .ok (.start lane [])⟩,
      ⟨18, .ok (.start note [])⟩, ⟨22, .ok (.text "left")⟩, ⟨29, .ok (.stop note)⟩,
      ⟨36, .ok (.stop lane)⟩, ⟨43, .ok (.stop part)⟩, ⟨50, .ok (.stop road)⟩]
    let session : Session Unit :=
      .ofCursor ((Cursor.ofReadings []).moved 6 (.startElement road []) readings)
    ∃ f s', reader.readFeature none session = .ok f s' ∧ f.features.length = 2 ∧
      ∃ tree, ∀ e g, (e, g) ∈ f.sources tree → ValidAt reader e g := by
  intro road part lane note reader readings session
  have hrun : (yield? (reader.readFeature none session)).map (·.features.length) = some 2 := by
    decide +kernel
  obtain ⟨f, hf, hlength⟩ := Option.map_eq_some_iff.1 hrun
  obtain ⟨s', h⟩ := yield?_eq_some.1 hf
  obtain ⟨name, attributes, inside, children, offset, name', -, -, -, -, hvalid⟩ :=
    reader.readFeature_valid rfl rfl none session s' f (by decide +kernel) h
  exact ⟨f, s', h, hlength, _, hvalid⟩

end FeatureMarkup

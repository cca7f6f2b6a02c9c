import FeatureMarkup.Proofs.Geometry.Corners
import FeatureMarkup.Proofs.Geometry.Members
import FeatureMarkup.Proofs.Reader.Defaults
import FeatureMarkup.Proofs.Reader.Held
import FeatureMarkup.Proofs.Reader.Sources

/-! Whose reference system a value names.

A document that is read with no system assumed says whose system is whose: a geometry or an envelope
has the one its own element names, or none (`readDocument_namesOwn`). What an assumed system adds is
known from the lockstep of two readings. `given_system_fills_missing` puts the two together, so that
nothing has to be said about elements once a system has been filled in. -/
namespace FeatureMarkup

open Xml (Attribute Reading)

variable {κ : Type} {r : FeatureReader κ}

/-- The reference system of a geometry or an envelope, which may be none. -/
def Value.system? : Value κ → Option (Option String)
  | .geometry g => some g.srs
  | .envelope e => some e.srs
  | _ => none

/-- If the value is a geometry or an envelope, then it comes from the one element inside that of
its property, and its reference system is the one that element names. -/
def Value.NamesOwn (children : List MarkupNode) (value : Value κ) : Prop :=
  ∀ system, value.system? = some system →
    ∃ own, children = [.element own] ∧ system = own.srsName

/-- The properties of a feature are those inside an element, one from each element there, and their
values name the reference systems that their own elements name. -/
def Feature.NamesOwn (tree : MarkupTree) (f : Feature κ) : Prop :=
  List.Forall₂ (fun property child => property.name = child.name ∧
    property.value.NamesOwn child.children) f.properties tree.childElements

/-- The outermost element of a document, with nothing but blank text before it. -/
def Cursor.Outermost (c : Cursor) (tree : MarkupTree) : Prop :=
  ∃ before offset inside offset' name rest, Spells before [] ∧ Spells inside tree.children ∧
    c.readings = before ++ ⟨offset, .ok (.start tree.name tree.attributes)⟩ :: inside ++
      ⟨offset', .ok (.stop name)⟩ :: rest

/-! ### Values -/

theorem ReadsAs.toEnd {α : Type} {name : Name} {attributes : List Attribute} {m : CursorM α}
    {R : MarkupTree → α → Prop} {P : α → Prop} (hm : ReadsAs name attributes m R)
    (h : ∀ children a, R ⟨name, attributes, children⟩ a → P a) :
    Carries (· = .startElement name attributes) m (ToEnd fun _ a => P a) := by
  refine hm.whole.weaken fun taken a e hstop => toEnd_iff.2 (hstop.mono fun inside hread => ?_)
  obtain ⟨children, ht, hR⟩ := hread
  obtain ⟨spelled, hs⟩ := ht.spells
  exact ⟨spelled, hs, h children a hR⟩

/-- An element is read that stands alone inside the one around it. -/
theorem Carries.alone {α : Type} {before : Event → Prop} {m : CursorM α} {f : α → Tag → CursorM α}
    {R : List MarkupNode → α → Prop} (hm : Carries before m (ToEnd R))
    (hstop : ∀ a name, f a (.stop name) = pure a)
    (hother : ∀ a tag s b s', (∀ name, tag ≠ .stop name) → f a tag s ≠ .ok b s') :
    Carries before (m >>= fun a => Tape.run Cursor.nextTag >>= f a)
      (ToOuterEnd fun children more a => more = [] ∧ R children a) := by
  have hstill (a : α) (name : Name) : Still (f a (.stop name)) := hstop a name ▸ .pure a
  have hforward (a : α) : Forward (Tape.run Cursor.nextTag >>= f a) := by
    refine .bind .nextTag fun tag => ?_
    cases tag with
    | stop name => exact (hstill a name).forward
    | start | finish => exact fun s b s' h => absurd h (hother a _ s b s' nofun)
  refine hm.leave hforward fun children a hR => ?_
  refine (Carries.finish (hstill a) (hother a)).weaken fun taken b e h => ?_
  obtain ⟨inside, nodes, offset, name, hs, ht, he, hnone, name', s, s', hread⟩ := h
  rw [hstop] at hread
  obtain ⟨rfl, -⟩ := pure_eq_ok.1 hread
  exact ⟨inside, nodes, offset, name, hs, ht, he, hnone, hR⟩

/-- A value inside a property comes from the one element that stands there. -/
theorem Cursor.carries_readWithin {α : Type} {P : MarkupTree → α → Prop} (property : Name)
    {read : CursorM α} (hforward : Forward read)
    (hread : ∀ name attributes, Carries (· = .startElement name attributes) read
      (ToEnd fun children => P ⟨name, attributes, children⟩)) :
    Carries (· ≠ .endDocument) (readWithin property read)
      (ToEnd fun nodes a => ∃ own, nodes = [.element own] ∧ P own a) := by
  have hwrapped (name : Name) (attributes : List Attribute) (position : Position) :
      Carries (· = .startElement name attributes) (inProperty property position read)
        (ToEnd fun children => P ⟨name, attributes, children⟩) :=
    (hread name attributes).inProperty
  unfold readWithin
  rw [← Tape.run_cursor nextTag]
  refine (Carries.enter (R := fun own more a => more = [] ∧ P own a) (fun tag => ?_)
    (fun name attributes => .get (fun c => (hwrapped name attributes c.position).alone
      (fun _ _ => rfl) fun value tag s b s' hstop => ?_) fun c rs => rfl)
    fun name s a s' => fail_ne_ok).weaken ?_
  · cases tag with
    | stop | finish => exact .fail _
    | start =>
      refine .get fun c => .bind (.inProperty hforward) fun a => .bind .nextTag fun tag => ?_
      cases tag with
      | stop => exact .pure _
      | start | finish => exact .fail _
  · cases tag with
    | stop name => exact absurd rfl (hstop name)
    | start | finish => exact fail_ne_ok
  · rintro taken a e ⟨inside, nodes, offset, name, hs, ht, he, own, more, rfl, rfl, hP⟩
    exact ⟨inside, _, offset, name, hs, ht, he, own, rfl, hP⟩

/-- Only geometries and envelopes name a reference system. -/
theorem ValueFrom.namesOwn {F : MarkupTree → Feature κ → Prop} {category : Category}
    {children : List MarkupNode} {value : Value κ} (hgeometry : category ≠ .geometry)
    (henvelope : category ≠ .envelope) (h : ValueFrom r F category children value) :
    value.NamesOwn children := by
  cases category with
  | geometry => exact absurd rfl hgeometry
  | envelope => exact absurd rfl henvelope
  | simple | code | measure | complex =>
    obtain ⟨_, rfl⟩ := h
    exact nofun
  | feature expected =>
    rcases h with ⟨_, rfl⟩ | ⟨_, _, _, _, rfl, _⟩
    · exact nofun
    · exact nofun

namespace FeatureReader

/-- What a value is read as, with the reference system that it names. -/
def SystemFrom (r : FeatureReader κ) (F : MarkupTree → Feature κ → Prop) (d : Declaration)
    (children : List MarkupNode) (value : Value κ) : Prop :=
  ValueFrom r F d.category children value ∧ value.NamesOwn children

/-- A value that is made of what one element inside a property is read as. -/
theorem carries_systemOf {F : MarkupTree → Feature κ → Prop} {α : Type} {read : CursorM α}
    {make : α → Value κ} {d : Declaration} {name : Name} {attributes : List Attribute}
    (system : α → Option String) (hforward : Forward read)
    (hread : ∀ name attributes, Carries (· = .startElement name attributes) read
      (ToEnd fun _ a => system a = Attribute.find? attributes none "srsName"))
    (hvalue : ∀ children a, ValueFrom r F d.category children (make a))
    (hmake : ∀ a, (make a).system? = some (system a)) :
    Carries (· = .startElement name attributes)
      ((liftM (Cursor.readWithin d.name read) : SessionM κ α) >>= fun a => pure (make a))
      (ToEnd (r.SystemFrom F d)) := by
  have hwithin : Carries (· ≠ .endDocument) (liftM (Cursor.readWithin d.name read) : SessionM κ α)
      (ToEnd fun nodes a => ∃ own, nodes = [.element own] ∧ system a = own.srsName) :=
    (Cursor.carries_readWithin d.name hforward hread).run
  refine (hwithin.strengthen fun e he => by rw [he]; nofun).bind_still (fun _ => .pure _) ?_
  rintro taken a e s value s' ⟨inside, nodes, offset, name', hs, ht, he, own, hnodes, hsystem⟩ h
  obtain ⟨rfl, -⟩ := pure_eq_ok.1 h
  refine ⟨inside, nodes, offset, name', hs, ht, he, hvalue nodes a, fun found hfound => ⟨own, hnodes, ?_⟩⟩
  rw [hmake] at hfound
  exact (Option.some.inj hfound).symm.trans hsystem

/-- Where nothing is assumed a geometry and an envelope have the system that their element names. -/
theorem carriesValues_systems (hgeometry : r.geometry = .standard) {F : MarkupTree → Feature κ → Prop}
    {inline : SessionM κ (Feature κ)} (hforward : Forward inline)
    (hinline : ∀ name attributes, Carries (· = .startElement name attributes) inline
      (ToEnd fun children => F ⟨name, attributes, children⟩)) :
    r.CarriesValues none inline (r.SystemFrom F) := by
  intro name attributes d ownerId occurrence
  by_cases hcategory : d.category = .geometry ∨ d.category = .envelope
  · unfold readByCategory
    rw [hgeometry]
    rcases hcategory with hcategory | hcategory
    · rw [hcategory]
      refine carries_systemOf Geometry.srs
        (Cursor.elementReader_readGeometry none).forward (fun name attributes =>
          (Cursor.readsAs_readGeometry none).toEnd fun children g h => ?_) (fun children g => ?_)
        fun g => rfl
      · simp [h.srs_eq, MarkupTree.srsName]
      · rw [hcategory]
        exact ⟨g, rfl⟩
    · rw [hcategory]
      refine carries_systemOf Envelope.srs
        (Cursor.elementReader_readEnvelope none).forward (fun name attributes =>
          (Cursor.readsAs_readEnvelope none).toEnd fun children e h => ?_) (fun children e => ?_)
        fun e => rfl
      · simp [h.srs_eq, MarkupTree.srsName]
      · rw [hcategory]
        exact ⟨e, rfl⟩
  · obtain ⟨hnot, hnot'⟩ := not_or.1 hcategory
    refine (carries_readByCategory hgeometry hforward hinline d ownerId occurrence none).weaken ?_
    rintro taken value e ⟨inside, nodes, offset, name', hs, ht, he, hvalue⟩
    exact ⟨inside, nodes, offset, name', hs, ht, he, hvalue, hvalue.namesOwn hnot hnot'⟩

/-- If the features inside a feature name the systems of their own elements, so do all. -/
theorem sourcedBy_namesOwn {tree : MarkupTree} {f : Feature κ}
    (h : FeatureRead r (r.SystemFrom fun tree f =>
      SourcedBy (fun e g => g.NamesOwn e) (f.sources tree) f.features) tree f) :
    SourcedBy (fun e g => g.NamesOwn e) (f.sources tree) f.features := by
  obtain ⟨type, partway, -, -, -, halong, -, rfl⟩ := h
  obtain ⟨trees, properties, hnodes, hproperties, hforall, -⟩ := properties_of_along halong
  obtain ⟨name, attributes, children⟩ := tree
  obtain rfl : children = trees.map .element := hnodes
  obtain rfl : partway.properties.reverse = properties := by simpa using hproperties
  refine SourcedBy.feature (.properties (C := fun _ => True) (fun _ _ _ => ⟨trivial, trivial⟩)
    (hforall.imp fun p tree hp => hp.2.1.mono fun _ _ hsourced _ => hsourced) trivial) ?_
  rw [Feature.NamesOwn, childElements_elements]
  exact hforall.imp fun p tree hp => ⟨hp.1, hp.2.2⟩

/-- In a feature that is read with no system assumed, and in all inside it, the geometries and the
envelopes have the systems that their own elements name. -/
theorem readFeature_namesOwn (hgeometry : r.geometry = .standard) (hcustom : r.custom = [])
    {s s' : Session κ} {f : Feature κ} (h : r.readFeature none s = .ok f s') :
    ∃ name attributes inside children offset name',
      s.cursor.event = .startElement name attributes ∧
      s.cursor.readings = inside ++ ⟨offset, .ok (.stop name')⟩ :: s'.cursor.readings ∧
      Spells inside children ∧
      SourcedBy (fun e g => g.NamesOwn e) (f.sources ⟨name, attributes, children⟩) f.features :=
  exists_source (F := fun tree f => SourcedBy (fun e g => g.NamesOwn e) (f.sources tree) f.features) h
    fun _ _ => carries_readFeature_of_values hgeometry hcustom (fun depth hinline =>
      carriesValues_systems hgeometry (forward_featureWithin (hgeometry ▸ GeometryReader.forward_standard)
        hcustom none depth) hinline) fun _ _ => sourcedBy_namesOwn

/-! ### Documents -/

/-- In a document that is read with no system assumed, the geometries and the envelopes of all
features have the systems that their own elements name. -/
theorem readDocument_namesOwn (hgeometry : r.geometry = .standard) (hcustom : r.custom = [])
    {c : Cursor} {d : Document κ} {s' : Session κ}
    (h : r.readDocument none (.ofCursor c) = .ok d s') :
    ∃ tree, c.Outermost tree ∧
      SourcedBy (fun e g => g.NamesOwn e) (d.root.sources tree) d.root.features := by
  obtain ⟨name, attributes, c₁, root, s₁, dangling, hnext, hroot, -, -, rfl⟩ := readDocument_eq_ok.1 h
  obtain ⟨-, before, hb, hreach⟩ := Cursor.nextTag_eq_start_iff.1 hnext
  obtain ⟨offset, rest, hr, rfl⟩ := Cursor.reaches_start_iff.1 hreach
  obtain ⟨_, _, inside, children, offset', name', hevent, hleft, hi, hsourced⟩ :=
    readFeature_namesOwn hgeometry hcustom hroot
  cases hevent
  refine ⟨⟨name, attributes, children⟩, ⟨before, offset, inside, offset', name', s₁.cursor.readings, hb,
    hi, ?_⟩, hsourced⟩
  rw [show (Session.ofCursor c : Session κ).cursor.readings = c.readings from rfl] at hr
  rw [hr, List.append_assoc, List.cons_append]
  exact congrArg (before ++ ⟨offset, .ok (.start name attributes)⟩ :: ·) hleft

/-- The reference system that is assumed for a document fills in what is missing in it and does
nothing else. Whether the document can be read, and the error if it cannot, do not depend on it.
What is read differs from one document, in the features and in the registry, by that system in the
geometries and the envelopes that have none there; and these are the ones whose own elements, the
features being taken with the elements they come from, name none. -/
theorem given_system_fills_missing (r : FeatureReader κ) (hgeometry : r.geometry = .standard)
    (hcustom : r.custom = []) (c : Cursor) :
    (∃ e, ∀ given, ∃ s', r.readDocument given (.ofCursor c) = .error e s') ∨
    ∃ (d : Document κ) (tree : MarkupTree), c.Outermost tree ∧
      (∀ given, ∃ s', r.readDocument given (.ofCursor c) = .ok (d.fill given) s') ∧
      (d.root.sources tree).map (·.2) = d.root.features ∧
      (∀ e g, (e, g) ∈ d.root.sources tree → g.NamesOwn e) ∧
      d.registry.HoldsOnly (· ∈ d.root.features) := by
  have hstart (given : Option String) : Session.FilledFrom given (.ofCursor c : Session κ) (.ofCursor c) :=
    ⟨rfl, rfl⟩
  cases hread : r.readDocument none (.ofCursor c) with
  | error e s =>
    exact .inl ⟨e, fun given =>
      (lockstep_readDocument hgeometry hcustom given).of_error (hstart given) hread⟩
  | ok d s =>
    obtain ⟨tree, houtermost, hsources, hnames⟩ := readDocument_namesOwn hgeometry hcustom hread
    refine .inr ⟨d, tree, houtermost, fun given => ?_, hsources, hnames, holdsOnly_readDocument hread⟩
    obtain ⟨_, s', hgiven, rfl, -⟩ :=
      (lockstep_readDocument hgeometry hcustom given).of_ok (hstart given) hread
    exact ⟨s', hgiven⟩

/-- A road that has a place in a system of its own and a bridge on it, which has one in none: only
the place of the bridge is in the system that is assumed. -/
theorem given_system_fills_missing_bridge :
    let bridge := Name.unqualified "Bridge"
    let place := Name.unqualified "place"
    let crossing := Name.unqualified "crossing"
    let road := Name.unqualified "Road"
    let reader : FeatureReader Unit := .ofSchema ⟨[
      ⟨road, [.single place .geometry, .single crossing (.feature none)], none, false⟩,
      ⟨bridge, [.single place .geometry], none, false⟩], []⟩
    let gml (localPart : String) : Name := ⟨some Space.gml, localPart, by decide⟩
    let point (attributes : List Attribute) : MarkupTree :=
      ⟨gml "Point", attributes, [.element ⟨gml "pos", [], [.text "1 2"]⟩]⟩
    let tree : MarkupTree := ⟨road, [], [
      .element ⟨place, [], [.element (point [⟨.unqualified "srsName", "EPSG:4326"⟩])]⟩,
      .element ⟨crossing, [], [.element ⟨bridge, [], [.element ⟨place, [], [.element (point [])]⟩]⟩]⟩]⟩
    let systems (d : Document Unit) :=
      d.root.features.map fun f => f.properties.filterMap (·.value.system?)
    let session : Session Unit := .ofCursor (.ofReadings (MarkupTree.readings tree))
    ∃ d : Document Unit,
      (∀ given, ∃ s', reader.readDocument given session = .ok (d.fill given) s') ∧
      systems (d.fill (some "EPSG:6668")) = [[some "EPSG:6668"], [some "EPSG:4326"]] ∧
      systems (d.fill none) = [[none], [some "EPSG:4326"]] := by
  intro bridge place crossing road reader gml point tree systems session
  have hrun : (yield? (reader.readDocument (some "EPSG:6668") session)).map systems =
      some [[some "EPSG:6668"], [some "EPSG:4326"]] := by decide +kernel
  have hnone : (yield? (reader.readDocument none session)).map systems =
      some [[none], [some "EPSG:4326"]] := by decide +kernel
  rcases given_system_fills_missing reader rfl rfl session.cursor with
    ⟨e, herror⟩ | ⟨d, _, -, hread, -⟩
  · obtain ⟨s', h⟩ := herror none
    rw [show reader.readDocument none session = .error e s' from h] at hnone
    cases hnone
  · refine ⟨d, hread, ?_, ?_⟩
    · obtain ⟨s', h⟩ := hread (some "EPSG:6668")
      rw [show reader.readDocument (some "EPSG:6668") session = .ok _ s' from h] at hrun
      exact Option.some.inj hrun
    · obtain ⟨s', h⟩ := hread none
      rw [show reader.readDocument none session = .ok _ s' from h] at hnone
      exact Option.some.inj hnone

end FeatureReader

end FeatureMarkup

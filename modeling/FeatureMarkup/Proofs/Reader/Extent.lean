import FeatureMarkup.Proofs.Geometry.Extent
import FeatureMarkup.Proofs.Reader.Derivation

/-! How much of a document a feature is read from.

A feature is read from its element and from nothing else: not from what comes behind its
end, and not from a document that is cut off before it. What is inside the element decides
what the properties are; that is `FeatureFrom`, by one property after another, and says of
an inline feature only what is assumed of it. -/
namespace FeatureMarkup

open Xml (Attribute)
open Tape (event left)

variable {κ : Type} {r : FeatureReader κ}

/-! ### Forward -/

/-- A reader of geometries that moves the cursor only forward. -/
structure GeometryReader.Forward (g : GeometryReader) : Prop where
  geometry : ∀ srs, FeatureMarkup.Forward (g.geometry srs)
  envelope : ∀ srs, FeatureMarkup.Forward (g.envelope srs)

theorem GeometryReader.forward_standard : GeometryReader.standard.Forward where
  geometry srs := (Cursor.elementReader_readGeometry srs).forward
  envelope srs := (Cursor.elementReader_readEnvelope srs).forward

theorem Cursor.forward_readWithin {α : Type} {property : Name} {read : CursorM α}
    (hread : Forward read) : Forward (readWithin property read) := by
  refine .bind forward_nextTag fun tag => ?_
  cases tag with
  | start name attributes =>
    refine .get fun c => .bind (.inProperty hread) fun a => .bind forward_nextTag fun tag => ?_
    cases tag with
    | stop name => exact .pure _
    | start | finish => exact .fail _
  | stop | finish => exact .fail _

theorem Cursor.readsElement_skipTrailing (property name : Name) :
    ReadsElement (do
      note .warning s!"Ignoring trailing element '{name}' in property '{property}'"
      skipElement) :=
  .still_bind (.note _ _) fun _ => readsElement_skipElement

theorem Cursor.forward_skipToEnd (property : Name) : Forward (skipToEnd property) := by
  refine .bind (.foldChildren (fun name _ _ =>
    (readsElement_skipTrailing property name).forward) ()) fun ⟨tag, _⟩ => ?_
  cases tag with
  | stop name => exact .pure _
  | start | finish => exact .failMarkup _

theorem Cursor.forward_elementNumber : Forward elementNumber := by
  refine .bind .elementText fun text => ?_
  cases Number.parse? text with
  | some number => exact .pure _
  | none => exact .fail _

namespace FeatureReader

theorem still_sessionNote (level : Level) (text : String) :
    Still (Session.note level text : SessionM κ Unit) :=
  Still.run (.note level text)

theorem still_position : Still (Session.position : SessionM κ Position) :=
  .get (fun _ => .pure _) fun _ _ => rfl

/-- What changes the registry alone takes nothing. -/
theorem still_of_registry {α : Type} {m : SessionM κ α}
    (hm : ∀ s a s', m s = .ok a s' → s'.cursor = s.cursor ∧
      ∀ c, m ⟨c, s.registry⟩ = .ok a ⟨c, s'.registry⟩) : Still m := by
  intro s a s' h
  obtain ⟨hcursor, hagain⟩ := hm s a s' h
  refine ⟨⟨?_, fun rest => ?_⟩, ?_⟩
  · show s.cursor.readings = [] ++ s'.cursor.readings
    rw [hcursor, List.nil_append]
  · show m ⟨s.cursor.facing _, s.registry⟩ = .ok a ⟨s'.cursor.facing _, s'.registry⟩
    rw [hcursor]
    exact hagain _
  · show s'.cursor.event = s.cursor.event
    rw [hcursor]

theorem still_refer (ownerId targetId : String) (property : Name) (occurrence : Nat) :
    Still (Session.refer ownerId property occurrence targetId : SessionM κ Nat) := by
  refine still_of_registry fun s number s' h => ?_
  obtain ⟨hrefer, hcursor⟩ := Session.refer_eq_ok.1 h
  exact ⟨hcursor, fun c => Session.refer_eq_ok.2 ⟨hrefer, rfl⟩⟩

theorem forward_readReference (d : Declaration) (ownerId : String) (occurrence : Nat) (href : String) :
    Forward (readReference d ownerId occurrence href : SessionM κ (Value κ)) := by
  unfold readReference
  split
  · exact fun _ _ _ h => absurd h Session.fail_ne_ok
  · exact .bind (.run .skipElement) fun _ => .bind (still_sessionNote _ _).forward fun _ =>
      .bind (still_refer _ _ _ _).forward fun _ => .pure _

theorem forward_enterFeature (property : Name) (expected : Option Name) :
    Forward (r.enterFeature property expected) := by
  intro c u c' h
  obtain ⟨found, attributes, hnext, -⟩ := enterFeature_eq_ok.1 h
  exact Cursor.forward_nextTag hnext

theorem forward_readFeatureValue {inline : SessionM κ (Feature κ)} (hinline : Forward inline)
    (d : Declaration) (expected : Option Name) (attributes : List Attribute) (ownerId : String)
    (occurrence : Nat) :
    Forward (r.readFeatureValue inline d expected attributes ownerId occurrence) := by
  unfold readFeatureValue
  split
  · exact forward_readReference _ _ _ _
  · exact .bind (.run (forward_enterFeature _ _)) fun _ => .bind hinline fun _ =>
      .bind (.run (Cursor.forward_skipToEnd _)) fun _ => .pure _

theorem forward_readByCategory (hgeometry : r.geometry.Forward) {inline : SessionM κ (Feature κ)}
    (hinline : Forward inline) (d : Declaration) (attributes : List Attribute) (ownerId : String)
    (occurrence : Nat) (srs : Option String) :
    Forward (r.readByCategory inline d attributes ownerId occurrence srs) := by
  unfold readByCategory
  cases d.category with
  | simple | code => exact .bind (.run .elementText) fun _ => .pure _
  | measure =>
    exact .bind still_position.forward fun _ =>
      .bind (.inProperty (.run Cursor.forward_elementNumber)) fun _ => .pure _
  | geometry => exact .bind (.run (Cursor.forward_readWithin (hgeometry.geometry srs))) fun _ => .pure _
  | envelope => exact .bind (.run (Cursor.forward_readWithin (hgeometry.envelope srs))) fun _ => .pure _
  | complex => exact .bind (.run .captureElement) fun _ => .pure _
  | feature expected => exact forward_readFeatureValue hinline _ _ _ _ _

theorem forward_readProperty (hgeometry : r.geometry.Forward) (hcustom : r.custom = [])
    {inline : SessionM κ (Feature κ)} (hinline : Forward inline) (srs : Option String)
    (type : FeatureType) (id : String) (element : Name) (attributes : List Attribute)
    (p : Partway κ) : Forward (r.readProperty inline srs type id element attributes p) := by
  intro s p' s' h
  obtain ⟨d, progress, value, -, hread, -⟩ := (readProperty_eq_ok hcustom).1 h
  have hahead := forward_readByCategory hgeometry hinline d attributes id _ srs hread
  exact ⟨hahead.left, hahead.atEnd⟩

theorem forward_featureWithin (hgeometry : r.geometry.Forward) (hcustom : r.custom = [])
    (srs : Option String) (depth : Nat) : Forward (r.featureWithin srs depth) := by
  induction depth with
  | zero => exact fun _ _ _ h => absurd h (by simp [featureWithin])
  | succ depth ih =>
    intro s f s' h
    obtain ⟨name, attributes, type, -, -, -, -, name', partway, s₁, hloop, hend⟩ :=
      featureWithin_succ_eq_ok.1 h
    obtain ⟨-, -, registry, -, rfl⟩ := endFeature_eq_ok.1 hend
    have hahead := Forward.get (fun s : Session κ => Forward.foldTags .nextTag
      (forward_readProperty hgeometry hcustom ih srs type (featureId attributes))
      (s.cursor.remaining + 1) ⟨.initial, []⟩) hloop
    exact ⟨hahead.left, hahead.atEnd⟩

/-! ### Depth -/

theorem follows_readProperty (hcustom : r.custom = [])
    {limit : Nat} {inline inline' : SessionM κ (Feature κ)} (hinline : Forward inline)
    (h : Follows limit inline inline') (srs : Option String) (type : FeatureType) (id : String)
    (element : Name) (attributes : List Attribute) (p : Partway κ) :
    Follows limit (r.readProperty inline srs type id element attributes p)
      (r.readProperty inline' srs type id element attributes p) := by
  have hvalue : ∀ d ownerId occurrence, Follows limit
      (r.readByCategory inline d attributes ownerId occurrence srs)
      (r.readByCategory inline' d attributes ownerId occurrence srs) := by
    intro d ownerId occurrence
    unfold readByCategory
    cases d.category with
    | feature expected =>
      show Follows limit (r.readFeatureValue inline d expected attributes ownerId occurrence)
        (r.readFeatureValue inline' d expected attributes ownerId occurrence)
      unfold readFeatureValue
      split
      · exact .refl _
      · exact .bind (.refl _) (.run (forward_enterFeature _ _)) fun _ =>
          .bind h hinline fun _ => .refl _
    | _ => exact .refl _
  intro s p' s' hs hok
  obtain ⟨d, progress, value, haccept, hread, hp⟩ := (readProperty_eq_ok hcustom).1 hok
  exact (readProperty_eq_ok hcustom).2 ⟨d, progress, value, haccept, hvalue d id _ hs hread, hp⟩

/-- Features are nested no deeper than there are readings left. -/
theorem follows_featureWithin (hgeometry : r.geometry.Forward) (hcustom : r.custom = [])
    (srs : Option String) (depth limit : Nat) :
    Follows limit (r.featureWithin srs depth) (r.featureWithin srs limit) := by
  induction depth generalizing limit with
  | zero => exact fun _ _ _ _ h => absurd h (by simp [featureWithin])
  | succ depth ih =>
    obtain _ | limit := limit
    · exact fun _ _ _ hs _ => absurd hs (Nat.not_lt_zero _)
    intro s f s' hs h
    obtain ⟨name, attributes, type, hevent, hid, htype, habstract, name', partway, s₁, hloop, hend⟩ :=
      featureWithin_succ_eq_ok.1 h
    have hinline := forward_featureWithin hgeometry hcustom srs depth
    have hfollows := Follows.get fun s : Session κ => Follows.foldTags
      (forward_readProperty hgeometry hcustom hinline srs type (featureId attributes))
      (follows_readProperty hcustom hinline (ih limit) srs type (featureId attributes))
      (s.cursor.remaining + 1) ⟨.initial, []⟩
    exact featureWithin_succ_eq_ok.2 ⟨name, attributes, type, hevent, hid, htype, habstract, name',
      partway, s₁, hfollows hs hloop, hend⟩

end FeatureReader

/-! ### What is taken -/

/-- A value that is a feature read from an element, of a type derived from the one that is
expected if there is one. -/
def InlineFrom (r : FeatureReader κ) (F : MarkupTree → Feature κ → Prop) (expected : Option Name)
    (tree : MarkupTree) (value : Value κ) : Prop :=
  ∃ f, value = .feature f ∧
    (∀ type, expected = some type → r.schema.derives type tree.name = true) ∧ F tree f

/-- A value of the kind that a category asks for, read from an element with these nodes; an
inline feature comes from the first of them. -/
def ValueFrom (r : FeatureReader κ) (F : MarkupTree → Feature κ → Prop) (category : Category)
    (children : List MarkupNode) (value : Value κ) : Prop :=
  match category with
  | .simple => ∃ text, value = .text text
  | .code => ∃ code, value = .code code
  | .measure => ∃ measure, value = .measure measure
  | .geometry => ∃ geometry, value = .geometry geometry
  | .envelope => ∃ envelope, value = .envelope envelope
  | .complex => ∃ tree, value = .tree tree
  | .feature expected =>
    (∃ number, value = .link number) ∨
      ∃ tree more, children = .element tree :: more ∧ InlineFrom r F expected tree value

/-- A property read from an element, by the progress through the declarations, the value being
read as assumed. -/
def PropertyRead (r : FeatureReader κ) (V : Declaration → List MarkupNode → Value κ → Prop)
    (type : FeatureType) (p : Partway κ) (tree : MarkupTree) (p' : Partway κ) : Prop :=
  ∃ d progress value, r.schema.accept type.properties p.progress tree.name = (.ok d, progress) ∧
    V d tree.children value ∧ p' = ⟨progress, ⟨d, tree.name, value⟩ :: p.properties⟩

/-- A feature read from an element, the values in it being read as assumed. -/
def FeatureRead (r : FeatureReader κ) (V : Declaration → List MarkupNode → Value κ → Prop)
    (tree : MarkupTree) (f : Feature κ) : Prop :=
  ∃ type partway, r.schema.featureType? tree.name = some type ∧ type.isAbstract = false ∧
    isFeatureId (featureId tree.attributes) = true ∧
    Along (PropertyRead r V type) ⟨.initial, []⟩ tree.children partway ∧
    partway.progress.finish type.properties r.checkRest = .ok () ∧
    f = ⟨featureId tree.attributes, type, partway.properties.reverse⟩

/-- A property read from an element, by the progress through the declarations. -/
def PropertyFrom (r : FeatureReader κ) (F : MarkupTree → Feature κ → Prop) (type : FeatureType)
    (p : Partway κ) (tree : MarkupTree) (p' : Partway κ) : Prop :=
  ∃ d progress value, r.schema.accept type.properties p.progress tree.name = (.ok d, progress) ∧
    ValueFrom r F d.category tree.children value ∧
    p' = ⟨progress, ⟨d, tree.name, value⟩ :: p.properties⟩

/-- A feature read from an element, inline features inside it being read as assumed. -/
def FeatureFrom (r : FeatureReader κ) (F : MarkupTree → Feature κ → Prop) (tree : MarkupTree)
    (f : Feature κ) : Prop :=
  ∃ type partway, r.schema.featureType? tree.name = some type ∧ type.isAbstract = false ∧
    isFeatureId (featureId tree.attributes) = true ∧
    Along (PropertyFrom r F type) ⟨.initial, []⟩ tree.children partway ∧
    partway.progress.finish type.properties r.checkRest = .ok () ∧
    f = ⟨featureId tree.attributes, type, partway.properties.reverse⟩

namespace FeatureReader

/-- A geometry inside a property. -/
theorem readsElement_readWithin {α : Type} (property : Name) {read : CursorM α}
    (hread : ReadsElement read) : ReadsElement (Cursor.readWithin property read) := by
  refine .enter (fun name attributes => .get (fun c => ?_) fun c rs => rfl) ?_
  · refine hread.inProperty.alone (fun _ _ => .pure _) ?_
    intro value tag c a c' hstop
    cases tag with
    | stop name => exact absurd rfl (hstop name)
    | start | finish => exact Cursor.fail_ne_ok
  · intro tag c a c' hstart
    cases tag with
    | start name attributes => exact absurd rfl (hstart name attributes)
    | stop | finish => exact Cursor.fail_ne_ok

theorem readsElement_elementNumber : ReadsElement Cursor.elementNumber := by
  refine Cursor.readsElement_elementText.bind_still fun text => ?_
  cases Number.parse? text with
  | some number => exact .pure _
  | none => exact .fail _

/-- Elements behind an inline feature are read over, to the end of the property. -/
theorem carries_skipToEnd (property : Name) :
    Carries (· ≠ .endDocument) (Cursor.skipToEnd property) (ToEnd fun _ _ => True) := by
  have hskip := fun name => Cursor.readsElement_skipTrailing property name
  have hloop := Carries.foldChildren (R := fun _ _ _ => True) (fun name _ _ => (hskip name).forward)
    (fun name attributes _ => (hskip name).toEnd name attributes) ()
  refine hloop.bind_still (fun ⟨tag, _⟩ => ?_) ?_
  · cases tag with
    | stop name => exact .pure _
    | start | finish => exact .fail _
  · rintro taken r e s u s' ⟨⟨inside, nodes, offset, name, hs, ht, he, -⟩, -⟩ -
    exact ⟨inside, nodes, offset, name, hs, ht, he, trivial⟩

theorem carries_enterFeature (property : Name) (expected : Option Name) :
    Carries (· ≠ .endDocument) (r.enterFeature property expected) fun taken _ e =>
      ∃ found attributes, ToTag taken (.start found attributes) e ∧
        ∀ type, expected = some type → r.schema.derives type found = true := by
  intro c u c' hc h
  obtain ⟨found, attributes, hnext, hknown, hderives⟩ := enterFeature_eq_ok.1 h
  have hnext' : Tape.run Cursor.nextTag c = .ok (.start found attributes) c' := by
    rwa [Tape.run_cursor]
  refine (Carries.nextTag hc hnext').imp_right ?_
  intro hgiven
  obtain ⟨taken, htakes, htag⟩ := hgiven
  refine ⟨taken, ⟨htakes.left, fun rest => ?_⟩, found, attributes, htag, hderives⟩
  have hagain := htakes.again rest
  rw [Tape.run_cursor] at hagain
  exact enterFeature_eq_ok.2 ⟨found, attributes, hagain, hknown, hderives⟩

section Inline
variable {inline : SessionM κ (Feature κ)} {F : MarkupTree → Feature κ → Prop}
  {name : Name} {attributes : List Attribute}

theorem carries_readReference (d : Declaration) (ownerId : String) (occurrence : Nat) (href : String) :
    Carries (· = .startElement name attributes)
      (readReference d ownerId occurrence href : SessionM κ (Value κ))
      (ToEnd fun _ value => ∃ number, value = .link number) := by
  unfold readReference
  split
  · exact fun _ _ _ _ h => absurd h Session.fail_ne_ok
  · refine (Carries.run .skipElement).bind_still (fun _ => (still_sessionNote _ _).bind fun _ =>
      (still_refer _ _ _ _).bind fun number => .pure _) ?_
    rintro taken u e s value s' ⟨inside, nodes, offset, name', hs, ht, he, -⟩ h
    obtain ⟨_, s₁, -, h⟩ := bind_eq_ok.1 h
    obtain ⟨number, s₂, -, h⟩ := bind_eq_ok.1 h
    obtain ⟨rfl, -⟩ := pure_eq_ok.1 h
    exact ⟨inside, nodes, offset, name', hs, ht, he, number, rfl⟩

theorem carries_readFeatureValue (hforward : Forward inline)
    (hinline : ∀ name attributes, Carries (· = .startElement name attributes) inline
      (ToEnd fun children => F ⟨name, attributes, children⟩))
    (d : Declaration) (expected : Option Name) (ownerId : String) (occurrence : Nat) :
    Carries (· = .startElement name attributes)
      (r.readFeatureValue inline d expected attributes ownerId occurrence)
      (ToEnd (ValueFrom r F (.feature expected))) := by
  unfold readFeatureValue
  split
  · refine (carries_readReference d ownerId occurrence _).weaken ?_
    rintro taken value e ⟨inside, nodes, offset, name', hs, ht, he, hlink⟩
    exact ⟨inside, nodes, offset, name', hs, ht, he, .inl hlink⟩
  · have hrest : ∀ f, Forward (Tape.run (Cursor.skipToEnd d.name) >>= fun _ =>
        (pure (.feature f) : SessionM κ (Value κ))) :=
      fun f => .bind (.run (Cursor.forward_skipToEnd _)) fun _ => .pure _
    refine (((Carries.run (carries_enterFeature d.name expected)).strengthen
      fun e he => by rw [he]; nofun).bind (fun _ => .bind hforward hrest) ?_)
    rintro taken _ e ⟨found, attributes, htag, hderives⟩
    obtain rfl : e = .startElement found attributes := htag.event
    have houter := (hinline found attributes).leave hrest
      (S := fun children _ => InlineFrom r F expected ⟨found, attributes, children⟩)
      fun children f hF => by
        refine (Carries.run (carries_skipToEnd d.name)).bind_still (fun _ => .pure _) ?_
        rintro taken _ e s value s' ⟨inside, nodes, offset, name', hs, ht, he, -⟩ h
        obtain ⟨rfl, -⟩ := pure_eq_ok.1 h
        exact ⟨inside, nodes, offset, name', hs, ht, he, f, rfl, hderives, hF⟩
    refine houter.weaken fun more value e' hmore => ?_
    obtain ⟨inside, nodes, offset, name', hs, ht, he, hinside⟩ :=
      htag.outer (R := fun tree _ => InlineFrom r F expected tree) hmore
    exact ⟨inside, nodes, offset, name', hs, ht, he, .inr hinside⟩

/-- A value that a reading of the element makes, whatever is inside it. -/
theorem carries_plain {α : Type} {m : SessionM κ α} {f : α → Value κ} {category : Category}
    (hm : Carries (· = .startElement name attributes) m (ToEnd fun _ _ => True))
    (hf : ∀ children a, ValueFrom r F category children (f a)) :
    Carries (· = .startElement name attributes) (m >>= fun a => pure (f a))
      (ToEnd (ValueFrom r F category)) := by
  refine hm.bind_still (fun _ => .pure _) ?_
  rintro taken a e s value s' ⟨inside, nodes, offset, name', hs, ht, he, -⟩ h
  obtain ⟨rfl, -⟩ := pure_eq_ok.1 h
  exact ⟨inside, nodes, offset, name', hs, ht, he, hf nodes a⟩

/-- Every value is read to the end of its property's element. -/
theorem carries_readByCategory (hgeometry : r.geometry = .standard) (hforward : Forward inline)
    (hinline : ∀ name attributes, Carries (· = .startElement name attributes) inline
      (ToEnd fun children => F ⟨name, attributes, children⟩))
    (d : Declaration) (ownerId : String) (occurrence : Nat) (srs : Option String) :
    Carries (· = .startElement name attributes)
      (r.readByCategory inline d attributes ownerId occurrence srs)
      (ToEnd (ValueFrom r F d.category)) := by
  have hrun : ∀ {α : Type} {m : CursorM α}, ReadsElement m →
      Carries (· = .startElement name attributes) (Tape.run m : SessionM κ α)
        (ToEnd fun _ _ => True) := fun hm => .run (hm.toEnd name attributes)
  unfold readByCategory
  rw [hgeometry]
  cases d.category with
  | simple => exact carries_plain (hrun Cursor.readsElement_elementText) fun _ text => ⟨text, rfl⟩
  | code => exact carries_plain (hrun Cursor.readsElement_elementText) fun _ _ => ⟨_, rfl⟩
  | measure =>
    exact .still_bind still_position fun _ _ _ _ _ =>
      carries_plain (.inProperty (hrun readsElement_elementNumber)) fun _ _ => ⟨_, rfl⟩
  | geometry =>
    exact carries_plain (hrun (readsElement_readWithin _
      (Cursor.elementReader_readGeometry srs).toReadsElement))
      fun _ geometry => ⟨geometry, rfl⟩
  | envelope =>
    exact carries_plain (hrun (readsElement_readWithin _
      (Cursor.elementReader_readEnvelope srs).toReadsElement))
      fun _ envelope => ⟨envelope, rfl⟩
  | complex => exact carries_plain (hrun Cursor.readsElement_captureElement) fun _ tree => ⟨tree, rfl⟩
  | feature expected => exact carries_readFeatureValue hforward hinline d expected ownerId occurrence

/-- Every value of a property is read to the end of its element, and stands in a relation to what
is inside it. -/
def CarriesValues (r : FeatureReader κ) (srs : Option String) (inline : SessionM κ (Feature κ))
    (V : Declaration → List MarkupNode → Value κ → Prop) : Prop :=
  ∀ name attributes d ownerId occurrence, Carries (· = .startElement name attributes)
    (r.readByCategory inline d attributes ownerId occurrence srs) (ToEnd (V d))

section Values
variable {V : Declaration → List MarkupNode → Value κ → Prop} {srs : Option String}

theorem CarriesValues.readProperty (hcustom : r.custom = []) (hvalues : r.CarriesValues srs inline V)
    (type : FeatureType) (id : String) (p : Partway κ) :
    Carries (· = .startElement name attributes)
      (r.readProperty inline srs type id name attributes p)
      (ToEnd fun children => PropertyRead r V type p ⟨name, attributes, children⟩) := by
  intro s p' s' hs h
  obtain ⟨d, progress, value, haccept, hread, rfl⟩ := (readProperty_eq_ok hcustom).1 h
  have hlogged : event (s.logging (r.propertyNotes type p.progress progress name d)) =
      .startElement name attributes := hs
  refine (hvalues name attributes d id _ hlogged hread).imp_right ?_
  intro hgiven
  obtain ⟨taken, htakes, inside, children, offset, name', hi, ht, he, hvalue⟩ := hgiven
  refine ⟨taken, ⟨htakes.left, fun rest => ?_⟩, inside, children, offset, name', hi, ht, he,
    d, progress, value, haccept, hvalue, rfl⟩
  exact (readProperty_eq_ok hcustom).2 ⟨d, progress, value, haccept, htakes.again rest, rfl⟩

/-- A feature is read to the end of its element, the properties coming from what is inside it. -/
theorem CarriesValues.featureWithin_succ (hgeometry : r.geometry = .standard) (hcustom : r.custom = [])
    {depth : Nat} (hvalues : r.CarriesValues srs (r.featureWithin srs depth) V) :
    Carries (· = .startElement name attributes) (r.featureWithin srs (depth + 1))
      (ToEnd fun children => FeatureRead r V ⟨name, attributes, children⟩) := by
  intro s f s' hs h
  have hstandard : r.geometry.Forward := hgeometry ▸ GeometryReader.forward_standard
  have hforward := forward_featureWithin hstandard hcustom srs depth
  obtain ⟨_, _, type, hevent, hid, htype, habstract, name', partway, s₁, hloop, hend⟩ :=
    featureWithin_succ_eq_ok.1 h
  cases hevent.symm.trans hs
  obtain ⟨hfinish, hf, registry, hregister, hs'⟩ := endFeature_eq_ok.1 hend
  have hlogged : event (s.logging
      [beginNote name (featureId attributes) s.cursor.position]) ≠ .endDocument := by
    show s.cursor.event ≠ .endDocument
    rw [hevent]
    nofun
  have hproperties := Carries.foldTags
    (forward_readProperty hstandard hcustom hforward srs type (featureId attributes))
    (fun _ _ => hvalues.readProperty hcustom type (featureId attributes)) ⟨.initial, []⟩
  rcases hproperties hlogged hloop with
    hlost | ⟨taken, htakes, ⟨inside, nodes, offset, name₂, hi, ht, he, halong⟩, -⟩
  · exact .inl (hs' ▸ hlost)
  refine .inr ⟨taken, ⟨?_, fun rest => ?_⟩, inside, nodes, offset, name₂, hi, ht, hs' ▸ he,
    type, partway, htype, habstract, hid, halong, hfinish, hf⟩
  · rw [hs']
    exact htakes.left
  · refine featureWithin_succ_eq_ok.2 ⟨name, attributes, type, hevent, hid, htype, habstract, name',
      partway, Tape.facing s₁ rest, htakes.again rest, endFeature_eq_ok.2 ⟨hfinish, hf, registry,
        hregister, ?_⟩⟩
    rw [hs']
    rfl

/-- A relation that is carried from the values of a feature to the feature holds of every feature
that is read. -/
theorem carries_readFeature_of_values (hgeometry : r.geometry = .standard) (hcustom : r.custom = [])
    (hvalues : ∀ depth, (∀ name attributes, Carries (· = .startElement name attributes)
        (r.featureWithin srs depth) (ToEnd fun children => F ⟨name, attributes, children⟩)) →
      r.CarriesValues srs (r.featureWithin srs depth) V)
    (hclosed : ∀ tree f, FeatureRead r V tree f → F tree f) :
    Carries (· = .startElement name attributes) (r.readFeature srs)
      (ToEnd fun children => F ⟨name, attributes, children⟩) := by
  have hwithin : ∀ depth name attributes, Carries (· = .startElement name attributes)
      (r.featureWithin srs depth) (ToEnd fun children => F ⟨name, attributes, children⟩) := by
    intro depth
    induction depth with
    | zero => exact fun _ _ _ _ _ _ h => absurd h (by simp [featureWithin])
    | succ depth ih =>
      intro name attributes
      refine ((hvalues depth ih).featureWithin_succ hgeometry hcustom).weaken ?_
      rintro taken f e ⟨inside, nodes, offset, name', hi, ht, he, hfrom⟩
      exact ⟨inside, nodes, offset, name', hi, ht, he, hclosed _ _ hfrom⟩
  exact .enough (fun depth => hwithin depth name attributes)
    (follows_featureWithin (hgeometry ▸ GeometryReader.forward_standard) hcustom srs)

end Values

/-- A relation that is carried from inline features to the feature around them holds of
every feature that is read. -/
theorem carries_readFeature (hgeometry : r.geometry = .standard) (hcustom : r.custom = [])
    (hclosed : ∀ tree f, FeatureFrom r F tree f → F tree f) (srs : Option String) :
    Carries (· = .startElement name attributes) (r.readFeature srs)
      (ToEnd fun children => F ⟨name, attributes, children⟩) :=
  carries_readFeature_of_values (V := fun d => ValueFrom r F d.category) hgeometry hcustom
    (fun depth hinline _ _ d ownerId occurrence => carries_readByCategory hgeometry
      (forward_featureWithin (hgeometry ▸ GeometryReader.forward_standard) hcustom srs depth) hinline d
      ownerId occurrence srs) hclosed

end Inline

/-- A feature that has been read has been begun at a start and ended at an end. -/
theorem featureWithin_ends {srs : Option String} {depth : Nat} {f : Feature κ} {s s' : Session κ}
    (h : r.featureWithin srs depth s = .ok f s') :
    (∃ name attributes, event s = .startElement name attributes) ∧
      ∃ name, event s' = .endElement name := by
  obtain _ | depth := depth
  · exact absurd h (by simp [featureWithin])
  obtain ⟨name, attributes, type, hevent, -, -, -, name', partway, s₁, hloop, hend⟩ :=
    featureWithin_succ_eq_ok.1 h
  obtain ⟨-, -, registry, -, rfl⟩ := endFeature_eq_ok.1 hend
  exact ⟨⟨name, attributes, hevent⟩, name', foldTags_event hloop nofun⟩

/-- A feature is read up to the end of its element, and nothing behind that is looked at. -/
theorem readFeature_takes (hgeometry : r.geometry = .standard) (hcustom : r.custom = [])
    {srs : Option String} {f : Feature κ} {s s' : Session κ} (h : r.readFeature srs s = .ok f s') :
    ∃ inside offset name,
      s.cursor.readings = inside ++ ⟨offset, .ok (.stop name)⟩ :: s'.cursor.readings ∧
      EndsElement (inside ++ [⟨offset, .ok (.stop name)⟩]) ∧ s'.cursor.event = .endElement name ∧
      ∀ rest, r.readFeature srs
          ⟨s.cursor.facing (inside ++ ⟨offset, .ok (.stop name)⟩ :: rest), s.registry⟩ =
        .ok f ⟨s'.cursor.facing rest, s'.registry⟩ := by
  obtain ⟨⟨name, attributes, hs⟩, name', hs'⟩ := featureWithin_ends h
  rcases carries_readFeature (F := fun _ _ => True) hgeometry hcustom (fun _ _ _ => trivial) srs hs h with
    hlost | ⟨taken, htakes, inside, nodes, offset, name₁, hi, rfl, he, -⟩
  · rw [hs'] at hlost
    cases hlost
  · refine ⟨inside, offset, name₁, ?_, hi.endsElement offset name₁, he, fun rest => ?_⟩
    · simpa [left, Tape.cursor] using htakes.left
    · have hagain := htakes.again rest
      rwa [List.append_assoc, List.singleton_append] at hagain

/-- A document is read up to the end of its outermost element, which starts behind nothing
but blank text, and nothing behind that is looked at. -/
theorem readDocument_takes (hgeometry : r.geometry = .standard) (hcustom : r.custom = [])
    {srs : Option String} {d : Document κ} {s s' : Session κ} (h : r.readDocument srs s = .ok d s') :
    ∃ before offset name attributes inside offset' name', Spells before [] ∧
      s.cursor.readings = before ++ ⟨offset, .ok (.start name attributes)⟩ :: inside ++
        ⟨offset', .ok (.stop name')⟩ :: s'.cursor.readings ∧
      EndsElement (inside ++ [⟨offset', .ok (.stop name')⟩]) ∧ s'.cursor.event = .endElement name' ∧
      ∀ rest, r.readDocument srs
          ⟨s.cursor.facing (before ++ ⟨offset, .ok (.start name attributes)⟩ :: inside ++
            ⟨offset', .ok (.stop name')⟩ :: rest), s.registry⟩ =
        .ok d ⟨s'.cursor.facing rest, s'.registry⟩ := by
  obtain ⟨name, attributes, c, root, s₁, dangling, hnext, hroot, hsettle, hcursor, hd⟩ :=
    readDocument_eq_ok.1 h
  obtain ⟨hnot, before, hb, hreach⟩ := Cursor.nextTag_eq_start_iff.1 hnext
  obtain ⟨offset, rest₁, hr, rfl⟩ := Cursor.reaches_start_iff.1 hreach
  obtain ⟨inside, offset', name', hleft, hends, hevent, hagain⟩ :=
    readFeature_takes hgeometry hcustom hroot
  refine ⟨before, offset, name, attributes, inside, offset', name', hb, ?_, hends, ?_, fun rest => ?_⟩
  · rw [hr, hcursor, List.append_assoc, List.cons_append]
    exact congrArg (before ++ ⟨offset, .ok (.start name attributes)⟩ :: ·) hleft
  · rw [hcursor]
    exact hevent
  · refine readDocument_eq_ok.2 ⟨name, attributes, _, root, _, dangling,
      Cursor.nextTag_eq_start_iff.2 ⟨hnot, before, hb, Cursor.reaches_start_iff.2
        ⟨offset, inside ++ ⟨offset', .ok (.stop name')⟩ :: rest, by simp, rfl⟩⟩, hagain rest,
      hsettle, ?_, hd⟩
    rw [hcursor]
    rfl

/-- The reading of a feature stops at the end of its element and has looked at nothing
behind it, and so does the reading of a document; neither succeeds where that end is
missing. -/
theorem reading_stops_at_end (r : FeatureReader κ) (hgeometry : r.geometry = .standard)
    (hcustom : r.custom = []) (srs : Option String) (s : Session κ) :
    (∀ f s', r.readFeature srs s = .ok f s' →
      ∃ inside offset name,
        s.cursor.readings = inside ++ ⟨offset, .ok (.stop name)⟩ :: s'.cursor.readings ∧
        EndsElement (inside ++ [⟨offset, .ok (.stop name)⟩]) ∧
        s'.cursor.event = .endElement name ∧
        ∀ rest, r.readFeature srs
            ⟨s.cursor.facing (inside ++ ⟨offset, .ok (.stop name)⟩ :: rest), s.registry⟩ =
          .ok f ⟨s'.cursor.facing rest, s'.registry⟩) ∧
    ((∀ part, part <+: s.cursor.readings → ¬EndsElement part) →
      ∀ f s', r.readFeature srs s ≠ .ok f s') ∧
    (∀ d s', r.readDocument srs s = .ok d s' →
      ∃ before offset name attributes inside offset' name', Spells before [] ∧
        s.cursor.readings = before ++ ⟨offset, .ok (.start name attributes)⟩ :: inside ++
          ⟨offset', .ok (.stop name')⟩ :: s'.cursor.readings ∧
        EndsElement (inside ++ [⟨offset', .ok (.stop name')⟩]) ∧
        s'.cursor.event = .endElement name' ∧
        ∀ rest, r.readDocument srs
            ⟨s.cursor.facing (before ++ ⟨offset, .ok (.start name attributes)⟩ :: inside ++
              ⟨offset', .ok (.stop name')⟩ :: rest), s.registry⟩ =
          .ok d ⟨s'.cursor.facing rest, s'.registry⟩) ∧
    ((∀ before offset name attributes rest, Spells before [] →
        s.cursor.readings = before ++ ⟨offset, .ok (.start name attributes)⟩ :: rest →
        ∀ part, part <+: rest → ¬EndsElement part) →
      ∀ d s', r.readDocument srs s ≠ .ok d s') := by
  refine ⟨fun f s' => readFeature_takes hgeometry hcustom, fun hcut f s' h => ?_,
    fun d s' => readDocument_takes hgeometry hcustom, fun hcut d s' h => ?_⟩
  · obtain ⟨inside, offset, name, hleft, hends, -⟩ := readFeature_takes hgeometry hcustom h
    refine hcut _ ⟨s'.cursor.readings, ?_⟩ hends
    rw [hleft, List.append_assoc, List.singleton_append]
  · obtain ⟨before, offset, name, attributes, inside, offset', name', hb, hleft, hends, -⟩ :=
      readDocument_takes hgeometry hcustom h
    rw [List.append_assoc, List.cons_append] at hleft
    refine hcut before offset name attributes _ hb hleft _ ⟨s'.cursor.readings, ?_⟩ hends
    rw [List.append_assoc, List.singleton_append]

/-- A road without properties, and another element behind it that is not looked at. -/
theorem reading_stops_at_end_road :
    let road := Name.unqualified "Road"
    let reader : FeatureReader Unit := .ofSchema ⟨[⟨road, [], none, false⟩], []⟩
    let readings : List Xml.Reading := [⟨13, .ok (.stop road)⟩, ⟨19, .ok (.start road [])⟩]
    let session : Session Unit :=
      .ofCursor ((Cursor.ofReadings []).moved 6 (.startElement road []) readings)
    ∃ f s', reader.readFeature none session = .ok f s' ∧
      ∃ inside offset name, readings = inside ++ ⟨offset, .ok (.stop name)⟩ :: s'.cursor.readings ∧
        EndsElement (inside ++ [⟨offset, .ok (.stop name)⟩]) := by
  intro road reader readings session
  obtain ⟨f, s', h⟩ : ∃ f s', reader.readFeature none session = .ok f s' := ⟨_, _, rfl⟩
  obtain ⟨inside, offset, name, hleft, hends, -⟩ :=
    (reading_stops_at_end reader rfl rfl none session).1 f s' h
  exact ⟨f, s', h, inside, offset, name, hleft, hends⟩

end FeatureReader

end FeatureMarkup

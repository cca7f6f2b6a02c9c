import FeatureMarkup.Proofs.Cursor.Tape
import FeatureMarkup.Reader.Feature

/-! What each step of reading a feature does.

A feature is begun, its properties are read one after another, and it is ended. Each step
succeeds exactly under the conditions named here and changes the session as said; no other
proof opens the steps. -/
namespace FeatureMarkup

open Xml (Attribute)

variable {κ : Type}

namespace Session

/-- The session with more in its log. -/
def logging (s : Session κ) (entries : List Note) : Session κ :=
  { s with cursor := s.cursor.logging entries }

@[simp] theorem logging_cursor (s : Session κ) (entries : List Note) :
    (s.logging entries).cursor = s.cursor.logging entries := rfl

@[simp] theorem logging_registry (s : Session κ) (entries : List Note) :
    (s.logging entries).registry = s.registry := rfl

@[simp] theorem position_eq_ok {p : Position} {s s' : Session κ} :
    Session.position s = .ok p s' ↔ s.cursor.position = p ∧ s = s' := by
  unfold Session.position
  rw [get_bind, pure_eq_ok]

theorem register_eq_ok {f : Feature κ} {s s' : Session κ} {u : Unit} :
    register f s = .ok u s' ↔
      ∃ registry, s.registry.register f = .ok registry ∧
        s' = Session.logging ⟨s.cursor, registry⟩ (Registry.registrationNotes f) := by
  unfold register
  rw [get_bind]
  cases hregister : s.registry.register f with
  | ok registry =>
    simp only [bind_eq_ok, modify_eq_ok, notes_eq_ok, logging]
    constructor
    · intro hgiven
      obtain ⟨_, _, rfl, rfl⟩ := hgiven
      exact ⟨registry, rfl, rfl⟩
    · intro hgiven
      obtain ⟨_, h, rfl⟩ := hgiven
      cases h
      exact ⟨(), _, rfl, rfl⟩
  | error duplicate => simp

theorem refer_eq_ok {ownerId targetId : String} {property : Name} {occurrence number : Nat}
    {s s' : Session κ} :
    refer ownerId property occurrence targetId s = .ok number s' ↔
      s.registry.refer ownerId property occurrence targetId = (number, s'.registry) ∧
        s'.cursor = s.cursor := by
  unfold refer
  rw [get_bind]
  simp only [bind_eq_ok, modify_eq_ok, pure_eq_ok]
  constructor
  · intro hgiven
    obtain ⟨_, _, rfl, rfl, rfl⟩ := hgiven
    exact ⟨rfl, rfl⟩
  · intro hgiven
    obtain ⟨h, hcursor⟩ := hgiven
    refine ⟨(), _, rfl, by rw [h], ?_⟩
    cases s'
    simp_all

theorem settle_eq_ok {dangling : List DanglingReference} {s s' : Session κ} :
    settle s = .ok dangling s' ↔
      s.registry.settle = (s'.registry, dangling) ∧
        s'.cursor = s.cursor.logging (dangling.map DanglingReference.note) := by
  unfold settle
  rw [get_bind]
  simp only [bind_eq_ok, modify_eq_ok, notes_eq_ok, pure_eq_ok]
  constructor
  · intro hgiven
    obtain ⟨_, _, rfl, _, _, rfl, rfl, rfl⟩ := hgiven
    exact ⟨rfl, rfl⟩
  · intro hgiven
    obtain ⟨h, hcursor⟩ := hgiven
    refine ⟨(), _, rfl, (), _, rfl, by rw [h], ?_⟩
    cases s'
    simp_all

end Session

theorem featureType?_name {s : Schema} {name : Name} {type : FeatureType}
    (h : s.featureType? name = some type) : type.name = name := by
  simpa using List.find?_some h

namespace FeatureReader
variable {r : FeatureReader κ}

/-! ### Beginning and ending -/

/-- What is reported where a feature begins. -/
def beginNote (name : Name) (id : String) (position : Position) : Note :=
  ⟨.debug, s!"Begin feature {name} '{id}' at {position}"⟩

/-- A feature begins at an element whose name is that of a concrete type, with an id that
may be one. -/
theorem beginFeature_eq_ok {c c' : Cursor} {type : FeatureType} {id : String} :
    r.beginFeature c = .ok (type, id) c' ↔
      ∃ name attributes, c.event = .startElement name attributes ∧ id = featureId attributes ∧
        isFeatureId id = true ∧ r.schema.featureType? name = some type ∧ type.isAbstract = false ∧
        c' = c.logging [beginNote name id c.position] := by
  unfold beginFeature
  rw [get_bind]
  cases hevent : c.event with
  | startElement name attributes =>
    dsimp only
    rw [guard_eq_ok]
    cases htype : r.schema.featureType? name with
    | none =>
      simp only [Cursor.fail_ne_ok, and_false, false_iff]
      intro h
      obtain ⟨_, _, hstart, -, -, hsome, -⟩ := h
      cases hstart
      rw [htype] at hsome
      cases hsome
    | some found =>
      rw [guard_eq_ok, get_bind]
      simp only [bind_eq_ok, Cursor.note_eq_ok, pure_eq_ok, Prod.mk.injEq]
      constructor
      · intro h
        obtain ⟨hid, habstract, _, _, rfl, ⟨rfl, rfl⟩, rfl⟩ := h
        exact ⟨name, attributes, rfl, rfl, by simpa using hid, htype, by simpa using habstract, rfl⟩
      · intro h
        obtain ⟨_, _, hstart, rfl, hid, hsome, habstract, rfl⟩ := h
        cases hstart
        cases htype.symm.trans hsome
        exact ⟨by simpa using hid, by simpa using habstract, (), _, rfl, ⟨rfl, rfl⟩, rfl⟩
  | _ => simp

/-- What is reported where a feature ends. -/
def endNotes (f : Feature κ) (position : Position) : List Note :=
  Registry.registrationNotes f ++ [⟨.debug, s!"End feature {f.type.name} '{f.id}' at {position}"⟩]

/-- A feature ends with its declarations satisfied; it owns its links from then on, and its
id was not registered before. -/
theorem endFeature_eq_ok {type : FeatureType} {id : String} {p : Partway κ} {f : Feature κ}
    {s s' : Session κ} :
    r.endFeature type id p s = .ok f s' ↔
      p.progress.finish type.properties r.checkRest = .ok () ∧
        f = ⟨id, type, p.properties.reverse⟩ ∧
        ∃ registry, (s.registry.bindLinks f).register f = .ok registry ∧
          s' = Session.logging ⟨s.cursor, registry⟩ (endNotes f s.cursor.position) := by
  unfold endFeature
  cases hfinish : p.progress.finish type.properties r.checkRest with
  | error violation => simp
  | ok u =>
    obtain ⟨⟩ := u
    simp only [bind_eq_ok, modify_eq_ok, Session.register_eq_ok, Session.position_eq_ok,
      Session.note_eq_ok, pure_eq_ok]
    constructor
    · intro h
      obtain ⟨_, _, rfl, _, _, ⟨registry, hregister, rfl⟩, _, _, ⟨rfl, rfl⟩, _, _, rfl, rfl, rfl⟩ := h
      exact ⟨trivial, rfl, registry, hregister, by simp [Session.logging, endNotes]⟩
    · intro h
      obtain ⟨-, rfl, registry, hregister, rfl⟩ := h
      exact ⟨(), _, rfl, (), _, ⟨registry, hregister, rfl⟩, _, _, ⟨rfl, rfl⟩, (), _, rfl, rfl,
        by simp [Session.logging, endNotes]⟩

/-! ### Properties -/

theorem acceptProperty_eq_ok {type : FeatureType} {p p' : Progress} {element : Name}
    {d : Declaration} {c c' : Cursor} :
    r.acceptProperty type p element c = .ok (d, p') c' ↔
      r.schema.accept type.properties p element = (.ok d, p') ∧
        c' = c.logging (r.schema.acceptNotes type.properties p p' element) := by
  unfold acceptProperty
  rcases haccept : r.schema.accept type.properties p element with ⟨outcome, after⟩
  cases outcome with
  | error violation => simp [bind_eq_ok]
  | ok d' =>
    simp only [bind_eq_ok, Cursor.notes_eq_ok, pure_eq_ok, Prod.mk.injEq, Except.ok.injEq]
    constructor
    · intro h
      obtain ⟨_, _, rfl, ⟨rfl, rfl⟩, rfl⟩ := h
      exact ⟨⟨rfl, rfl⟩, rfl⟩
    · intro h
      obtain ⟨⟨rfl, rfl⟩, rfl⟩ := h
      exact ⟨(), _, rfl, ⟨rfl, rfl⟩, rfl⟩

/-- What is reported on a property before its value is read. -/
def propertyNotes (r : FeatureReader κ) (type : FeatureType) (before after : Progress)
    (element : Name) (d : Declaration) : List Note :=
  r.schema.acceptNotes type.properties before after element ++
    [⟨.debug,
      s!"Property {element} (declared as {d.name}, occurrence {after.count.toNat - 1})"⟩]

/-- A property is read when the declarations accept its element and its value is read. -/
theorem readProperty_eq_ok_iff {inline : SessionM κ (Feature κ)} {srs : Option String}
    {type : FeatureType} {id : String} {element : Name} {attributes : List Attribute}
    {p p' : Partway κ} {s s' : Session κ} :
    r.readProperty inline srs type id element attributes p s = .ok p' s' ↔
      ∃ d progress value, r.schema.accept type.properties p.progress element = (.ok d, progress) ∧
        r.readValue inline type d attributes id (progress.count.toNat - 1) srs
          (s.logging (r.propertyNotes type p.progress progress element d)) = .ok value s' ∧
        p' = ⟨progress, ⟨d, element, value⟩ :: p.properties⟩ := by
  unfold readProperty
  simp only [bind_eq_ok, Session.lift_eq_ok, Session.note_eq_ok, pure_eq_ok]
  constructor
  · intro h
    obtain ⟨⟨d, progress⟩, _, ⟨c, hc, rfl⟩, _, _, rfl, value, s₁, hread, rfl, rfl⟩ := h
    obtain ⟨haccept, rfl⟩ := acceptProperty_eq_ok.1 hc
    exact ⟨d, progress, value, haccept, by simpa [Session.logging, propertyNotes] using hread, rfl⟩
  · intro h
    obtain ⟨d, progress, value, haccept, hread, rfl⟩ := h
    refine ⟨⟨d, progress⟩, _, ⟨_, acceptProperty_eq_ok.2 ⟨haccept, rfl⟩, rfl⟩, (), _, rfl, value, s',
      by simpa [Session.logging, propertyNotes] using hread, rfl, rfl⟩

theorem custom?_eq_none (hcustom : r.custom = []) (type property : Name) :
    r.custom? type property = none := by
  simp [custom?, hcustom]

/-- Where no reader of the user's own is asked, the category says how the value is read. -/
theorem readValue_of_custom?_eq_none {inline : SessionM κ (Feature κ)} {srs : Option String}
    {type : FeatureType} {id : String} {attributes : List Attribute} {d : Declaration}
    {occurrence : Nat} (h : r.custom? type.name d.name = none) :
    r.readValue inline type d attributes id occurrence srs =
      r.readByCategory inline d attributes id occurrence srs := by
  unfold readValue
  rw [h]

/-- A property is read by the category of its declaration, if there are no readers of the
user's own. -/
theorem readProperty_eq_ok (hcustom : r.custom = []) {inline : SessionM κ (Feature κ)}
    {srs : Option String} {type : FeatureType} {id : String} {element : Name}
    {attributes : List Attribute} {p p' : Partway κ} {s s' : Session κ} :
    r.readProperty inline srs type id element attributes p s = .ok p' s' ↔
      ∃ d progress value, r.schema.accept type.properties p.progress element = (.ok d, progress) ∧
        r.readByCategory inline d attributes id (progress.count.toNat - 1) srs
          (s.logging (r.propertyNotes type p.progress progress element d)) = .ok value s' ∧
        p' = ⟨progress, ⟨d, element, value⟩ :: p.properties⟩ := by
  simp only [readProperty_eq_ok_iff, readValue_of_custom?_eq_none (custom?_eq_none hcustom _ _)]

/-! ### Values that are features -/

/-- A feature that stands in a property is of a known type, and of one derived from the
type that is expected if there is one. -/
theorem enterFeature_eq_ok {property : Name} {expected : Option Name} {c c' : Cursor} {u : Unit} :
    r.enterFeature property expected c = .ok u c' ↔
      ∃ found attributes, Cursor.nextTag c = .ok (.start found attributes) c' ∧
        (r.schema.featureType? found).isSome = true ∧
        ∀ type, expected = some type → r.schema.derives type found = true := by
  unfold enterFeature
  rw [get_bind]
  simp only [bind_eq_ok]
  constructor
  · intro h
    obtain ⟨tag, c₁, hnext, hrest⟩ := h
    cases tag with
    | stop | finish => exact absurd hrest throw_ne_ok
    | start found attributes =>
      obtain ⟨hknown, hrest⟩ := guard_eq_ok.1 hrest
      cases expected with
      | none =>
        obtain ⟨-, rfl⟩ := pure_eq_ok.1 hrest
        exact ⟨found, attributes, hnext, by simpa [Option.isSome_iff_ne_none] using hknown, nofun⟩
      | some expected =>
        dsimp only at hrest
        split at hrest
        · exact absurd hrest Cursor.fail_ne_ok
        next hderives =>
          obtain ⟨-, rfl⟩ := pure_eq_ok.1 hrest
          refine ⟨found, attributes, hnext, by simpa [Option.isSome_iff_ne_none] using hknown,
            fun type htype => ?_⟩
          cases htype
          simpa using hderives
  · intro h
    obtain ⟨found, attributes, hnext, hknown, hderives⟩ := h
    refine ⟨_, c', hnext, guard_eq_ok.2 ⟨?_, ?_⟩⟩
    · simpa [Option.isSome_iff_ne_none] using hknown
    cases expected with
    | none => rfl
    | some expected => simp [hderives expected rfl]

/-- What is reported on a reference. -/
def referenceNote (d : Declaration) (targetId : String) : Note :=
  ⟨.debug, s!"Reference {d.name} -> #{targetId}"⟩

theorem readReference_eq_ok {d : Declaration} {ownerId href : String} {occurrence : Nat}
    {value : Value κ} {s s' : Session κ} :
    readReference d ownerId occurrence href s = .ok value s' ↔
      ∃ targetId c number, localTarget? href = some targetId ∧
        Cursor.skipElement s.cursor = .ok () c ∧
        s.registry.refer ownerId d.name occurrence targetId = (number, s'.registry) ∧
        s'.cursor = c.logging [referenceNote d targetId] ∧ value = .link number := by
  unfold readReference
  cases htarget : localTarget? href with
  | none => simp
  | some targetId =>
    simp only [bind_eq_ok, Session.lift_eq_ok, Session.note_eq_ok, Session.refer_eq_ok, pure_eq_ok]
    constructor
    · intro h
      obtain ⟨_, _, ⟨c, hskip, rfl⟩, _, _, rfl, number, s₁, ⟨hrefer, hcursor⟩, rfl, rfl⟩ := h
      exact ⟨targetId, c, number, rfl, hskip, hrefer, hcursor, rfl⟩
    · intro h
      obtain ⟨_, c, number, ⟨⟩, hskip, hrefer, hcursor, rfl⟩ := h
      exact ⟨(), _, ⟨c, hskip, rfl⟩, (), _, rfl, number, s', ⟨hrefer, hcursor⟩, rfl, rfl⟩

/-- A value that is a feature comes by reference or inline. -/
theorem readFeatureValue_eq_ok {inline : SessionM κ (Feature κ)} {d : Declaration}
    {expected : Option Name} {attributes : List Attribute} {ownerId : String} {occurrence : Nat}
    {value : Value κ} {s s' : Session κ} :
    r.readFeatureValue inline d expected attributes ownerId occurrence s = .ok value s' ↔
      (∃ href, Attribute.find? attributes (some Space.xlink) "href" = some href ∧
        readReference d ownerId occurrence href s = .ok value s') ∨
      (Attribute.find? attributes (some Space.xlink) "href" = none ∧
        ∃ c f s₁ c', r.enterFeature d.name expected s.cursor = .ok () c ∧
          inline ⟨c, s.registry⟩ = .ok f s₁ ∧ Cursor.skipToEnd d.name s₁.cursor = .ok () c' ∧
          s' = ⟨c', s₁.registry⟩ ∧ value = .feature f) := by
  unfold readFeatureValue
  cases hhref : Attribute.find? attributes (some Space.xlink) "href" with
  | some href => simp
  | none =>
    simp only [bind_eq_ok, Session.lift_eq_ok, pure_eq_ok]
    constructor
    · intro h
      obtain ⟨_, _, ⟨c, henter, rfl⟩, f, s₁, hinline, _, _, ⟨c', hskip, rfl⟩, rfl, rfl⟩ := h
      exact .inr ⟨trivial, c, f, s₁, c', henter, hinline, hskip, rfl, rfl⟩
    · intro h
      rcases h with ⟨_, ⟨⟩, _⟩ | ⟨-, c, f, s₁, c', henter, hinline, hskip, rfl, rfl⟩
      exact ⟨(), _, ⟨c, henter, rfl⟩, f, s₁, hinline, (), _, ⟨c', hskip, rfl⟩, rfl, rfl⟩

/-! ### Features -/

/-- The properties of a feature, read one after another up to its end. -/
def readProperties (r : FeatureReader κ) (inline : SessionM κ (Feature κ)) (srs : Option String)
    (type : FeatureType) (id : String) : SessionM κ (Tag × Partway κ) :=
  get >>= fun s => foldTags (liftM Cursor.nextTag) (r.readProperty inline srs type id)
    (s.cursor.remaining + 1) ⟨.initial, []⟩

/-- What comes behind the properties: the end of the feature, if they have come to it. -/
def endProperties (r : FeatureReader κ) (type : FeatureType) (id : String) (read : Tag × Partway κ) :
    SessionM κ (Feature κ) :=
  match read.1 with
  | .stop _ => r.endFeature type id read.2
  | _ => liftM (Cursor.failMarkup (.endInsideFeature type.name) : CursorM (Feature κ))

/-- A feature is begun, its properties are read, and it is ended. -/
theorem featureWithin_succ (r : FeatureReader κ) (srs : Option String) (depth : Nat) :
    r.featureWithin srs (depth + 1) = (liftM r.beginFeature >>= fun begun =>
      r.readProperties (r.featureWithin srs depth) srs begun.1 begun.2 >>=
        r.endProperties begun.1 begun.2) :=
  rfl

/-- A feature is its beginning, its properties and its end. -/
theorem featureWithin_succ_eq_ok {srs : Option String} {depth : Nat} {f : Feature κ}
    {s s' : Session κ} :
    r.featureWithin srs (depth + 1) s = .ok f s' ↔
      ∃ name attributes type, s.cursor.event = .startElement name attributes ∧
        isFeatureId (featureId attributes) = true ∧ r.schema.featureType? name = some type ∧
        type.isAbstract = false ∧ ∃ name' partway s₁,
        r.readProperties (r.featureWithin srs depth) srs type (featureId attributes)
          (s.logging [beginNote name (featureId attributes) s.cursor.position]) =
            .ok (.stop name', partway) s₁ ∧
        r.endFeature type (featureId attributes) partway s₁ = .ok f s' := by
  rw [featureWithin_succ]
  simp only [bind_eq_ok, Session.lift_eq_ok]
  constructor
  · intro h
    obtain ⟨⟨type, id⟩, _, ⟨c, hbegin, rfl⟩, ⟨tag, partway⟩, s₁, hloop, hend⟩ := h
    obtain ⟨name, attributes, hevent, rfl, hid, htype, habstract, rfl⟩ := beginFeature_eq_ok.1 hbegin
    cases tag with
    | stop name' =>
      exact ⟨name, attributes, type, hevent, hid, htype, habstract, name', partway, s₁, hloop, hend⟩
    | start | finish => simp [endProperties] at hend
  · intro h
    obtain ⟨name, attributes, type, hevent, hid, htype, habstract, name', partway, s₁, hloop, hend⟩ := h
    exact ⟨(type, featureId attributes), _,
      ⟨_, beginFeature_eq_ok.2 ⟨name, attributes, hevent, rfl, hid, htype, habstract, rfl⟩, rfl⟩,
      (.stop name', partway), s₁, hloop, hend⟩

/-! ### Documents -/

/-- A document is its outermost feature, once the references that still wait are settled. -/
theorem readDocument_eq_ok {srs : Option String} {d : Document κ} {s s' : Session κ} :
    r.readDocument srs s = .ok d s' ↔
      ∃ name attributes c root s₁ dangling,
        Cursor.nextTag s.cursor = .ok (.start name attributes) c ∧
        r.readFeature srs ⟨c, s.registry⟩ = .ok root s₁ ∧
        s₁.registry.settle = (s'.registry, dangling) ∧
        s'.cursor = s₁.cursor.logging (dangling.map DanglingReference.note) ∧
        d = ⟨root, s'.registry, dangling⟩ := by
  unfold readDocument
  simp only [bind_eq_ok, Session.lift_eq_ok]
  constructor
  · intro h
    obtain ⟨tag, _, ⟨c, hnext, rfl⟩, hrest⟩ := h
    cases tag with
    | stop | finish => simp at hrest
    | start name attributes =>
      obtain ⟨root, s₁, hroot, hrest⟩ := bind_eq_ok.1 hrest
      obtain ⟨dangling, s₂, hsettle, hrest⟩ := bind_eq_ok.1 hrest
      obtain ⟨hsettle, hcursor⟩ := Session.settle_eq_ok.1 hsettle
      rw [get_bind] at hrest
      obtain ⟨rfl, rfl⟩ := pure_eq_ok.1 hrest
      exact ⟨name, attributes, c, root, s₁, dangling, hnext, hroot, hsettle, hcursor, rfl⟩
  · intro h
    obtain ⟨name, attributes, c, root, s₁, dangling, hnext, hroot, hsettle, hcursor, rfl⟩ := h
    refine ⟨.start name attributes, _, ⟨c, hnext, rfl⟩, bind_eq_ok.2 ⟨root, s₁, hroot,
      bind_eq_ok.2 ⟨dangling, s', Session.settle_eq_ok.2 ⟨hsettle, hcursor⟩, rfl⟩⟩⟩

end FeatureReader

end FeatureMarkup

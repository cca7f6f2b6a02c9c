import FeatureMarkup.Proofs.Geometry.Alike
import FeatureMarkup.Proofs.Reader.Derivation
import FeatureMarkup.Proofs.Schema.Places

/-! Documents do not depend on how their readings are cut.

A comment, or a text that comes in other runs, changes neither the document that is read nor
the error, apart from where it was found: `readDocument_sameData`. The reader's state is the
cursor and the registry, and the registry is the same on both sides all the way. The one thing
that tells runs apart is markup kept as it is, so no declaration may ask for it. -/
namespace FeatureMarkup

open Xml (Attribute Reading)
open Tape

variable {α : Type} {limit limit' : Nat}

/-! ### Moves of the cursor -/

namespace Cursor

theorem readsAlike_readWithin {read : CursorM α} (property : Name)
    (hread : ReadsAlike limit limit' read read) :
    ReadsAlike limit limit' (readWithin property read) (readWithin property read) := by
  refine readsAlike_nextTag.bind fun tag => ?_
  cases tag with
  | stop | finish => exact .fail _
  | start name attributes =>
    refine .get fun c c' _ => (hread.inProperty _ _ _).bind fun value =>
      readsAlike_nextTag.bind fun tag => ?_
    cases tag with
    | stop name => exact .pure _
    | start | finish => exact .fail _

theorem readsAlike_skipToEnd (property : Name) :
    ReadsAlike limit limit' (skipToEnd property) (skipToEnd property) := by
  refine (ReadsAlike.children (fun name _ _ => (ReadsAlike.note _ _ _).bind fun _ =>
    readsAlike_skipElement) ()).bind fun ⟨tag, _⟩ => ?_
  cases tag with
  | stop name => exact .pure _
  | start | finish => exact .failMarkup _ _

theorem readsAlike_elementNumber : ReadsAlike limit limit' elementNumber elementNumber := by
  refine readsAlike_elementText.bind fun text => ?_
  cases Number.parse? text with
  | some number => exact .pure _
  | none => exact .fail _

end Cursor

/-! ### Sessions -/

namespace Session
variable {κ : Type}

theorem registry_of_alike {s s' : Session κ} (h : Alike s s') : s'.registry = s.registry :=
  (congrArg Session.registry h.rest).symm

theorem readsAlike_fail (cause : Cause) :
    ReadsAlike limit limit' (fail cause : SessionM κ α) (fail cause) :=
  .run (.fail cause)

theorem readsAlike_notes (entries entries' : List Note) :
    ReadsAlike limit limit' (notes entries : SessionM κ Unit) (notes entries') :=
  .run (.notes _ _)

theorem readsAlike_note (level : Level) (text text' : String) :
    ReadsAlike limit limit' (note level text : SessionM κ Unit) (note level text') :=
  .run (.note _ _ _)

/-- What goes on from a position goes on from another. -/
theorem readsAlike_position {f f' : Position → SessionM κ α}
    (hf : ∀ p p', ReadsAlike limit limit' (f p) (f' p')) :
    ReadsAlike limit limit' (position >>= f) (position >>= f') :=
  .get fun _ _ _ => hf _ _

theorem readsAlike_modify (change : Registry κ → Registry κ) : ReadsAlike limit limit'
    (modify fun s : Session κ => { s with registry := change s.registry } : SessionM κ Unit)
    (modify fun s : Session κ => { s with registry := change s.registry }) := by
  intro s s' halike _ _
  refine ⟨rfl, ⟨?_, halike.event, halike.told⟩, Nat.le_refl _, Nat.le_refl _⟩
  show (⟨s'.cursor, change s.registry⟩ : Session κ) = ⟨s'.cursor, change s'.registry⟩
  rw [registry_of_alike halike]

theorem readsAlike_register (f : Feature κ) :
    ReadsAlike limit limit' (register f) (register f) := by
  refine .get fun s s' halike => ?_
  rw [registry_of_alike halike]
  cases s.registry.register f with
  | ok registry => exact (readsAlike_modify fun _ => registry).bind fun _ => readsAlike_notes _ _
  | error duplicate => exact readsAlike_fail _

theorem readsAlike_refer (ownerId targetId : String) (property : Name) (occurrence : Nat) :
    ReadsAlike limit limit' (refer ownerId property occurrence targetId : SessionM κ Nat)
      (refer ownerId property occurrence targetId) := by
  refine .get fun s s' halike => ?_
  rw [registry_of_alike halike]
  exact (readsAlike_modify fun _ => _).bind fun _ => .pure _

theorem readsAlike_settle :
    ReadsAlike limit limit' (settle : SessionM κ (List DanglingReference)) settle := by
  refine .get fun s s' halike => ?_
  rw [registry_of_alike halike]
  exact (readsAlike_modify fun _ => _).bind fun _ => (readsAlike_notes _ _).bind fun _ => .pure _

end Session

/-! ### Values -/

/-- No declaration asks for markup kept as it is. -/
def Schema.KeepsNoMarkup (s : Schema) : Prop :=
  ∀ type ∈ s.types, ∀ d ∈ type.properties, d.category ≠ .complex

namespace FeatureReader
variable {κ : Type} {r : FeatureReader κ}

theorem readsAlike_readReference (d : Declaration) (ownerId : String) (occurrence : Nat) (href : String) :
    ReadsAlike limit limit' (readReference d ownerId occurrence href : SessionM κ (Value κ))
      (readReference d ownerId occurrence href) := by
  unfold readReference
  cases localTarget? href with
  | none => exact Session.readsAlike_fail _
  | some targetId =>
    exact (ReadsAlike.run Cursor.readsAlike_skipElement).bind fun _ =>
      (Session.readsAlike_note _ _ _).bind fun _ =>
        (Session.readsAlike_refer _ _ _ _).bind fun _ => .pure _

theorem readsAlike_enterFeature (property : Name) (expected : Option Name) :
    ReadsAlike limit limit' (r.enterFeature property expected) (r.enterFeature property expected) := by
  refine .get fun c c' _ => Cursor.readsAlike_nextTag.bind fun tag => ?_
  cases tag with
  | stop | finish => exact .throw rfl
  | start found attributes =>
    refine .guard ?_
    cases expected with
    | none => exact .pure _
    | some expected => exact .ite (.fail _) (.pure _)

section Inline
variable {inline inline' : SessionM κ (Feature κ)} (hinline : ReadsAlike limit limit' inline inline')
include hinline

theorem readsAlike_readFeatureValue (d : Declaration) (expected : Option Name)
    (attributes : List Attribute) (ownerId : String) (occurrence : Nat) : ReadsAlike limit limit'
      (r.readFeatureValue inline d expected attributes ownerId occurrence)
      (r.readFeatureValue inline' d expected attributes ownerId occurrence) := by
  unfold readFeatureValue
  cases Attribute.find? attributes (some Space.xlink) "href" with
  | some href => exact readsAlike_readReference _ _ _ _
  | none =>
    exact (ReadsAlike.run (readsAlike_enterFeature _ _)).bind fun _ => hinline.bind fun _ =>
      (ReadsAlike.run (Cursor.readsAlike_skipToEnd _)).bind fun _ => .pure _

/-- Every value but markup kept as it is is read alike. -/
theorem readsAlike_readByCategory (hgeometry : r.geometry = .standard) {d : Declaration}
    (hd : d.category ≠ .complex) (attributes : List Attribute) (ownerId : String) (occurrence : Nat)
    (srs : Option String) : ReadsAlike limit limit'
      (r.readByCategory inline d attributes ownerId occurrence srs)
      (r.readByCategory inline' d attributes ownerId occurrence srs) := by
  unfold readByCategory
  rw [hgeometry]
  cases hcategory : d.category with
  | complex => exact absurd hcategory hd
  | simple | code => exact (ReadsAlike.run Cursor.readsAlike_elementText).bind fun _ => .pure _
  | measure =>
    exact Session.readsAlike_position fun p p' =>
      ((ReadsAlike.run Cursor.readsAlike_elementNumber).inProperty _ _ _).bind fun _ => .pure _
  | geometry =>
    exact (ReadsAlike.run (Cursor.readsAlike_readWithin _ (Cursor.readsAlike_readGeometry srs))).bind
      fun _ => .pure _
  | envelope =>
    exact (ReadsAlike.run (Cursor.readsAlike_readWithin _ (Cursor.readsAlike_readEnvelope srs))).bind
      fun _ => .pure _
  | feature expected => exact readsAlike_readFeatureValue hinline _ _ _ _ _

end Inline

/-! ### Features -/

theorem readsAlike_acceptProperty (type : FeatureType) (p : Progress) (element : Name) :
    ReadsAlike limit limit' (r.acceptProperty type p element) (r.acceptProperty type p element) := by
  unfold acceptProperty
  rcases r.schema.accept type.properties p element with ⟨outcome, after⟩
  refine (ReadsAlike.notes _ _).bind fun _ => ?_
  cases outcome with
  | ok d => exact .pure _
  | error violation => exact .fail _

/-- A declaration that is come to is one of those of the type. -/
theorem mem_of_acceptProperty {type : FeatureType} {p progress : Progress} {element : Name}
    {d : Declaration} {c c' : Cursor} (h : r.acceptProperty type p element c = .ok (d, progress) c') :
    d ∈ type.properties := by
  obtain ⟨haccept, -⟩ := acceptProperty_eq_ok.1 h
  obtain ⟨current, hcurrent, ⟨-, -, rfl, -⟩ | ⟨-, -, j, -, hj, -⟩⟩ := Progress.accept_eq_ok.1 haccept
  · exact List.mem_of_getElem? hcurrent
  · exact List.mem_of_getElem? hj

theorem readsAlike_readProperty (hgeometry : r.geometry = .standard) (hcustom : r.custom = [])
    {type : FeatureType} (htype : ∀ d ∈ type.properties, d.category ≠ .complex)
    {inline inline' : SessionM κ (Feature κ)} (hinline : ReadsAlike limit limit' inline inline')
    (srs : Option String) (id : String) (element : Name) (attributes : List Attribute)
    (p : Partway κ) : ReadsAlike limit limit'
      (r.readProperty inline srs type id element attributes p)
      (r.readProperty inline' srs type id element attributes p) := by
  have haccept : ReadsAlike limit limit'
      (Tape.run (r.acceptProperty type p.progress element) : SessionM κ (Declaration × Progress))
      (Tape.run (r.acceptProperty type p.progress element)) := .run (readsAlike_acceptProperty _ _ _)
  refine haccept.bind_of_ok fun ⟨d, progress⟩ s s₁ hok => ?_
  obtain ⟨c, hc, -⟩ := run_eq_ok.1 hok
  have hnone := custom?_eq_none hcustom type.name d.name
  refine (Session.readsAlike_note _ _ _).bind fun _ => ?_
  rw [readValue_of_custom?_eq_none hnone, readValue_of_custom?_eq_none hnone]
  exact (readsAlike_readByCategory hinline hgeometry (htype d (mem_of_acceptProperty hc)) _ _ _ _).bind
    fun _ => .pure _

theorem readsAlike_beginFeature :
    ReadsAlike limit limit' r.beginFeature r.beginFeature := by
  refine .get fun c c' halike => ?_
  rw [show c'.event = c.event from halike.event]
  cases c.event with
  | startElement name attributes =>
    refine .guard ?_
    cases r.schema.featureType? name with
    | none => exact .fail _
    | some type =>
      exact .guard (.get fun _ _ _ => (ReadsAlike.note _ _ _).bind fun _ => .pure _)
  | _ => exact .failMarkup _ _

theorem readsAlike_endFeature (type : FeatureType) (id : String) (p : Partway κ) :
    ReadsAlike limit limit' (r.endFeature type id p) (r.endFeature type id p) := by
  unfold endFeature
  cases p.progress.finish type.properties r.checkRest with
  | error violation => exact Session.readsAlike_fail _
  | ok u =>
    exact (Session.readsAlike_modify fun registry => registry.bindLinks _).bind fun _ =>
      (Session.readsAlike_register _).bind fun _ => Session.readsAlike_position fun _ _ =>
        (Session.readsAlike_note _ _ _).bind fun _ => .pure _

theorem readsAlike_endProperties (type : FeatureType) (id : String) (read : Tag × Partway κ) :
    ReadsAlike limit limit' (r.endProperties type id read) (r.endProperties type id read) := by
  obtain ⟨tag, p⟩ := read
  cases tag with
  | stop name => exact readsAlike_endFeature type id p
  | start | finish => exact .run (.failMarkup _ _)

theorem readsAlike_readProperties (hgeometry : r.geometry = .standard) (hcustom : r.custom = [])
    {type : FeatureType} (htype : ∀ d ∈ type.properties, d.category ≠ .complex)
    {inline inline' : SessionM κ (Feature κ)} (hinline : ReadsAlike limit limit' inline inline')
    (srs : Option String) (id : String) : ReadsAlike (limit + 1) (limit' + 1)
      (r.readProperties inline srs type id) (r.readProperties inline' srs type id) := by
  intro s s' halike hs hs'
  exact .foldTags (readsAlike_readProperty hgeometry hcustom htype hinline srs id) _ halike hs hs'
    s.cursor.length_lt_rounds s'.cursor.length_lt_rounds

theorem readsAlike_featureWithin (hgeometry : r.geometry = .standard) (hcustom : r.custom = [])
    (hschema : r.schema.KeepsNoMarkup) (srs : Option String) (depth depth' : Nat) :
    ReadsAlike depth depth' (r.featureWithin srs depth) (r.featureWithin srs depth') := by
  induction depth generalizing depth' with
  | zero => exact fun _ _ _ hs _ => absurd hs (Nat.not_lt_zero _)
  | succ depth ih =>
    obtain _ | depth' := depth'
    · exact fun _ _ _ _ hs' => absurd hs' (Nat.not_lt_zero _)
    rw [featureWithin_succ, featureWithin_succ]
    have hbegin : ReadsAlike (depth + 1) (depth' + 1)
        (Tape.run r.beginFeature : SessionM κ (FeatureType × String)) (Tape.run r.beginFeature) :=
      .run readsAlike_beginFeature
    refine hbegin.bind_of_ok fun ⟨type, id⟩ s s₁ hok => ?_
    obtain ⟨c, hc, -⟩ := run_eq_ok.1 hok
    obtain ⟨name, attributes, -, -, -, hfound, -⟩ := beginFeature_eq_ok.1 hc
    have hmem : type ∈ r.schema.types := List.mem_reverse.1 (List.mem_of_find?_eq_some hfound)
    exact (readsAlike_readProperties hgeometry hcustom (hschema type hmem) (ih depth') srs id).bind
      fun _ => readsAlike_endProperties _ _ _

/-! ### Documents -/

theorem readsAlike_readFeature (hgeometry : r.geometry = .standard) (hcustom : r.custom = [])
    (hschema : r.schema.KeepsNoMarkup) (srs : Option String) :
    ReadsAlike limit limit' (r.readFeature srs) (r.readFeature srs) :=
  .enough (readsAlike_featureWithin hgeometry hcustom hschema srs)

theorem readsAlike_readDocument (hgeometry : r.geometry = .standard) (hcustom : r.custom = [])
    (hschema : r.schema.KeepsNoMarkup) (srs : Option String) :
    ReadsAlike limit limit' (r.readDocument srs) (r.readDocument srs) := by
  have hnext : ReadsAlike limit limit' (Tape.run Cursor.nextTag : SessionM κ Tag)
      (Tape.run Cursor.nextTag) := .run Cursor.readsAlike_nextTag
  refine hnext.bind fun tag => ?_
  cases tag with
  | stop | finish => exact .run (.failMarkup _ _)
  | start name attributes =>
    refine (readsAlike_readFeature hgeometry hcustom hschema srs).bind fun root =>
      Session.readsAlike_settle.bind fun dangling => .get fun s s' halike => ?_
    rw [Session.registry_of_alike halike]
    exact .pure _

/-- Readings that carry the same data give the same document, or they give errors that are the
same apart from places and from the wording of what is wrong with the markup. So do the octets
of two documents that are read so. -/
theorem readDocument_sameData (r : FeatureReader κ) (hgeometry : r.geometry = .standard)
    (hcustom : r.custom = []) (hschema : r.schema.KeepsNoMarkup) (srs : Option String) :
    (∀ rs rs', SameData rs rs' →
      (∃ d s s', r.readDocument srs (.ofCursor (.ofReadings rs)) = .ok d s ∧
        r.readDocument srs (.ofCursor (.ofReadings rs')) = .ok d s') ∨
      (∃ e e' s s', r.readDocument srs (.ofCursor (.ofReadings rs)) = .error e s ∧
        r.readDocument srs (.ofCursor (.ofReadings rs')) = .error e' s' ∧
        e.unplaced = e'.unplaced)) ∧
    (∀ bytes bytes', SameData (Xml.readings bytes) (Xml.readings bytes') →
      (∃ d, r.parse srs bytes = .ok d ∧ r.parse srs bytes' = .ok d) ∨
      (∃ e e', r.parse srs bytes = .error e ∧ r.parse srs bytes' = .error e' ∧
        e.unplaced = e'.unplaced)) := by
  have hreadings : ∀ rs rs', SameData rs rs' →
      (∃ d s s', r.readDocument srs (.ofCursor (.ofReadings rs)) = .ok d s ∧
        r.readDocument srs (.ofCursor (.ofReadings rs')) = .ok d s') ∨
      (∃ e e' s s', r.readDocument srs (.ofCursor (.ofReadings rs)) = .error e s ∧
        r.readDocument srs (.ofCursor (.ofReadings rs')) = .error e' s' ∧
        e.unplaced = e'.unplaced) := by
    intro rs rs' hsame
    have halike : Alike (Session.ofCursor (.ofReadings rs) : Session κ)
        (.ofCursor (.ofReadings rs')) := ⟨rfl, rfl, hsame.told_eq.symm⟩
    have hagrees := readsAlike_readDocument hgeometry hcustom hschema srs halike
      (Nat.lt_succ_self _) (Nat.lt_succ_self _)
    cases hok : r.readDocument srs (.ofCursor (.ofReadings rs)) with
    | ok d s =>
      cases hok' : r.readDocument srs (.ofCursor (.ofReadings rs')) with
      | ok d' s' =>
        rw [hok, hok'] at hagrees
        obtain ⟨rfl, -⟩ := hagrees
        exact .inl ⟨d, s, s', rfl, rfl⟩
      | error e' s' =>
        rw [hok, hok'] at hagrees
        exact hagrees.elim
    | error e s =>
      cases hok' : r.readDocument srs (.ofCursor (.ofReadings rs')) with
      | ok d' s' =>
        rw [hok, hok'] at hagrees
        exact hagrees.elim
      | error e' s' =>
        rw [hok, hok'] at hagrees
        exact .inr ⟨e, e', s, s', rfl, rfl, hagrees⟩
  refine ⟨hreadings, fun bytes bytes' hsame => ?_⟩
  simp only [parse, parseLogged, Cursor.ofBytes]
  rcases hreadings _ _ hsame with ⟨d, s, s', hok, hok'⟩ | ⟨e, e', s, s', hfail, hfail', he⟩
  · exact .inl ⟨d, by rw [hok], by rw [hok']⟩
  · exact .inr ⟨e, e', by rw [hfail], by rw [hfail'], he⟩

/-- A road whose name has a comment in it is the road with the name in one run. -/
theorem readDocument_sameData_road :
    let road := Name.unqualified "Road"
    let name := Name.unqualified "name"
    let reader : FeatureReader Unit :=
      .ofSchema ⟨[⟨road, [.single name .simple], none, false⟩], []⟩
    let readings : List Reading := [⟨6, .ok (.start road [])⟩, ⟨12, .ok (.start name [])⟩,
      ⟨13, .ok (.text "A")⟩, ⟨20, .ok .ignored⟩, ⟨21, .ok (.text "B")⟩, ⟨28, .ok (.stop name)⟩,
      ⟨35, .ok (.stop road)⟩]
    let readings' : List Reading := [⟨6, .ok (.start road [])⟩, ⟨12, .ok (.start name [])⟩,
      ⟨14, .ok (.text ("A" ++ "B"))⟩, ⟨21, .ok (.stop name)⟩, ⟨28, .ok (.stop road)⟩]
    SameData readings readings' ∧
      ∃ d s s', reader.readDocument none (.ofCursor (.ofReadings readings)) = .ok d s ∧
        reader.readDocument none (.ofCursor (.ofReadings readings')) = .ok d s' := by
  intro road name reader readings readings'
  have hcomment : SameData (readings.drop 2) [⟨13, .ok (.text "A")⟩, ⟨21, .ok (.text "B")⟩,
      ⟨28, .ok (.stop name)⟩, ⟨35, .ok (.stop road)⟩] := .cons .ignored
  have hruns : SameData [⟨14, .ok (.text ("A" ++ "B"))⟩, ⟨28, .ok (.stop name)⟩, ⟨35, .ok (.stop road)⟩]
      [⟨13, .ok (.text "A")⟩, ⟨21, .ok (.text "B")⟩, ⟨28, .ok (.stop name)⟩, ⟨35, .ok (.stop road)⟩] :=
    .split
  have hsame : SameData readings readings' :=
    .cons (.cons (hcomment.trans (hruns.symm.trans (.cons (.cons (.cons .nil))))))
  have hschema : reader.schema.KeepsNoMarkup := by
    intro type htype d hd
    obtain rfl := List.mem_singleton.1 htype
    obtain rfl := List.mem_singleton.1 hd
    nofun
  refine ⟨hsame, ?_⟩
  have hread : (yield? (reader.readDocument none (.ofCursor (.ofReadings readings)))).isSome = true := by
    decide +kernel
  obtain ⟨d, hd⟩ := Option.isSome_iff_exists.1 hread
  obtain ⟨s, hok⟩ := yield?_eq_some.1 hd
  rcases (readDocument_sameData reader rfl rfl hschema none).1 readings readings' hsame with
    hboth | ⟨_, _, _, _, hfail, -⟩
  · exact hboth
  · rw [hok] at hfail
    cases hfail

end FeatureReader

end FeatureMarkup

import FeatureMarkup.Proofs.Geometry.Halting
import FeatureMarkup.Proofs.Reader.Extent

/-! Readers of features come to an end.

A feature is read by a loop over its properties, and an inline feature by a recursion from inside
that loop; between the two stand the loops over events and over the children of geometries. No
nesting of elements and no end that is missing keeps any of them going: `Halting` says so for each,
and `readFeature_halts` that every reading comes back after steps that the events left can be
counted against. -/
namespace FeatureMarkup

open Xml (Attribute)
open Tape (events)

variable {κ : Type}

/-! ### The loops and the recursion -/

namespace Cursor

/-- Reads over one element behind an inline feature. -/
def trailingChild (property name : Name) (_ : List Attribute) (_ : Unit) : CursorM Unit := do
  note .warning s!"Ignoring trailing element '{name}' in property '{property}'"
  skipElement

theorem skipToEnd_eq (property : Name) :
    skipToEnd property = (foldChildren (trailingChild property) () >>= fun read =>
      match read.1 with
      | .stop _ => pure ()
      | _ => failMarkup .endOfDocument) :=
  rfl

theorem haltsOver_trailingChild (property : Name) : HaltsOver (trailingChild property) :=
  haltsOver fun name _ _ => (readsElement_skipTrailing property name).forward

end Cursor

namespace FeatureReader
variable (r : FeatureReader κ)

/-- One level of a feature, from how those inside it are read. -/
def featureRound (r : FeatureReader κ) (srs : Option String) (inside : Unit → SessionM κ (Feature κ))
    (_ : Unit) : SessionM κ (Feature κ) :=
  liftM r.beginFeature >>= fun begun =>
    r.readProperties (inside ()) srs begun.1 begun.2 >>= r.endProperties begun.1 begun.2

theorem forward_beginFeature : Forward r.beginFeature := by
  intro c ⟨type, id⟩ c' h
  obtain ⟨_, _, -, -, -, -, -, rfl⟩ := beginFeature_eq_ok.1 h
  exact ⟨List.suffix_refl _, fun hend => hend⟩

theorem forward_acceptProperty (type : FeatureType) (progress : Progress) (element : Name) :
    Forward (r.acceptProperty type progress element) := by
  intro c ⟨d, progress'⟩ c' h
  obtain ⟨-, rfl⟩ := acceptProperty_eq_ok.1 h
  exact ⟨List.suffix_refl _, fun hend => hend⟩

section Inside
variable {limit : Nat} {inline inline' : SessionM κ (Feature κ)} (h : AlikeBelow limit inline inline')
include h

/-- Only a value that is a feature goes down to it, behind the start of its element. -/
theorem alike_readByCategory (d : Declaration) (attributes : List Attribute) (ownerId : String)
    (occurrence : Nat) (srs : Option String) :
    AlikeBelow limit (r.readByCategory inline d attributes ownerId occurrence srs)
      (r.readByCategory inline' d attributes ownerId occurrence srs) := by
  unfold readByCategory
  cases d.category with
  | feature expected =>
    dsimp only
    unfold readFeatureValue
    split
    · exact .refl _
    · exact .same_bind (.run (forward_enterFeature _ _)) fun _ => h.bind_same _
  | _ => exact .refl _

theorem alike_readProperty (srs : Option String) (type : FeatureType) (id : String) (element : Name)
    (attributes : List Attribute) (p : Partway κ) :
    AlikeBelow limit (r.readProperty inline srs type id element attributes p)
      (r.readProperty inline' srs type id element attributes p) := by
  refine .same_bind (.run (r.forward_acceptProperty _ _ _)) fun ⟨d, progress⟩ =>
    .same_bind (still_sessionNote _ _).forward fun _ => .bind_same ?_ _
  unfold readValue
  split
  · exact .refl _
  · exact r.alike_readByCategory h d attributes id _ srs

end Inside

section Loops
variable {r} (hgeometry : r.geometry = .standard) (hcustom : r.custom = []) (srs : Option String)
include hgeometry hcustom

theorem forward_featureWithin_standard (depth : Nat) : Forward (r.featureWithin srs depth) :=
  forward_featureWithin (hgeometry ▸ GeometryReader.forward_standard) hcustom srs depth

theorem forward_readProperty_standard {inline : SessionM κ (Feature κ)} (hinline : Forward inline)
    (type : FeatureType) (id : String) (element : Name) (attributes : List Attribute) (p : Partway κ) :
    Forward (r.readProperty inline srs type id element attributes p) :=
  forward_readProperty (hgeometry ▸ GeometryReader.forward_standard) hcustom hinline srs type id
    element attributes p

theorem shrinks_featureRound : Shrinks (r.featureRound srs) := by
  intro limit inside inside' hforward hinside i
  refine .same_bind (.run r.forward_beginFeature) fun begun => .bind_same (.get fun s => ?_) _
  exact .foldTags (forward_readProperty_standard hgeometry hcustom srs (hforward ()) begun.1 begun.2)
    (r.alike_readProperty (hinside ()) srs begun.1 begun.2) _ _

/-- Features inside features come to an end. -/
theorem halts_featureWithin : Halts (r.featureRound srs) fun depth _ => r.featureWithin srs depth :=
  .of_shrinks (fun _ _ => rfl) (shrinks_featureRound hgeometry hcustom srs)
    fun depth _ => forward_featureWithin_standard hgeometry hcustom srs depth

end Loops

end FeatureReader

/-! ### Steps -/

namespace Cursor

theorem frugal_skipToEnd (property : Name) : Frugal (skipToEnd property) := by
  rw [skipToEnd_eq]
  refine (Affords.foldChildren (fun _ _ _ => ?_) ()).bind_idle fun read => ?_
  · exact .idle_bind (.notes _) fun _ => frugal_skipElement
  · split
    · exact .pure _
    · exact .failMarkup _

/-- The element inside a property pays for the end of the property. -/
theorem frugal_readWithin {α : Type} {read : CursorM α} (hread : Frugal read) (property : Name) :
    Frugal (readWithin property read) := by
  unfold readWithin
  rw [← Tape.run_cursor nextTag]
  refine .nextTag_bind (fun _ _ => ?_) (fun _ => .fail _) (.fail _)
  refine .get fun c => ((hread.inProperty).frame 1).bind fun value => ?_
  exact .nextTag_bind (fun _ _ => .fail _) (fun _ => .pure _) (.fail _)

end Cursor

namespace FeatureReader
variable (r : FeatureReader κ)

/-- An inline feature is come to with two to live on. -/
theorem affords_enterFeature (property : Name) (expected : Option Name) :
    Affords 1 (r.enterFeature property expected) fun _ => 2 := by
  unfold enterFeature
  rw [← Tape.run_cursor Cursor.nextTag]
  refine .get fun c => .nextTag_bind (fun found attributes => ?_) (fun _ => .throw _) (.throw _)
  refine .guard ?_
  split
  · exact .pure_leaving _ (Nat.le_refl _)
  · exact .ite (.fail _) (.pure_leaving _ (Nat.le_refl _))

theorem idle_refer (ownerId targetId : String) (property : Name) (occurrence : Nat) :
    Idle (Session.refer ownerId property occurrence targetId : SessionM κ Nat) :=
  .get fun _ => .bind (.modify fun _ => ⟨rfl, rfl⟩) fun _ => .pure _

theorem frugal_readReference (d : Declaration) (ownerId : String) (occurrence : Nat) (href : String) :
    Frugal (readReference d ownerId occurrence href : SessionM κ (Value κ)) := by
  unfold readReference
  split
  · exact .run (.fail _)
  · exact (Affords.run Cursor.frugal_skipElement).bind_idle fun _ =>
      .bind (.run (.notes _)) fun _ => .bind (idle_refer _ _ _ _) fun _ => .pure _

section Value
variable {inline : SessionM κ (Feature κ)} (hinline : Frugal inline)
include hinline

/-- The start of an inline feature pays for the end of the property. -/
theorem frugal_readFeatureValue (d : Declaration) (expected : Option Name)
    (attributes : List Attribute) (ownerId : String) (occurrence : Nat) :
    Frugal (r.readFeatureValue inline d expected attributes ownerId occurrence) := by
  unfold readFeatureValue
  split
  · exact frugal_readReference d ownerId occurrence _
  · refine .bind (.run (r.affords_enterFeature d.name expected)) fun _ => ?_
    refine (hinline.frame 1).bind fun feature => ?_
    exact (Affords.run (Cursor.frugal_skipToEnd d.name)).bind_idle fun _ => .pure _

theorem frugal_readByCategory (hgeometry : r.geometry = .standard) (d : Declaration)
    (attributes : List Attribute) (ownerId : String) (occurrence : Nat) (srs : Option String) :
    Frugal (r.readByCategory inline d attributes ownerId occurrence srs) := by
  unfold readByCategory
  rw [hgeometry]
  cases d.category with
  | simple | code => exact (Affords.run Cursor.frugal_elementText).bind_idle fun _ => .pure _
  | measure =>
    exact .get fun _ => (Affords.run Cursor.frugal_elementNumber).inProperty.bind_idle fun _ => .pure _
  | geometry =>
    exact (Affords.run (Cursor.frugal_readWithin (Cursor.frugal_readGeometry srs) d.name)).bind_idle
      fun _ => .pure _
  | envelope =>
    exact (Affords.run (Cursor.frugal_readWithin (Cursor.frugal_readEnvelope srs) d.name)).bind_idle
      fun _ => .pure _
  | complex => exact (Affords.run Cursor.frugal_captureElement).bind_idle fun _ => .pure _
  | feature expected => exact r.frugal_readFeatureValue hinline d expected attributes ownerId occurrence

end Value

theorem idle_acceptProperty (type : FeatureType) (progress : Progress) (element : Name) :
    Idle (r.acceptProperty type progress element) := by
  unfold acceptProperty
  refine .bind (.notes _) fun _ => ?_
  split
  · exact .pure _
  · exact .fail _

theorem idle_beginFeature : Idle r.beginFeature := by
  refine .get fun c => ?_
  split
  · refine .guard ?_
    split
    · exact .fail _
    · exact .guard (.get fun _ => .bind (.notes _) fun _ => .pure _)
  · exact .failMarkup _

theorem idle_register (f : Feature κ) : Idle (Session.register f) := by
  refine .get fun s => ?_
  split
  · exact .bind (.modify fun _ => ⟨rfl, rfl⟩) fun _ => .run (.notes _)
  · exact .run (.fail _)

theorem idle_endProperties (type : FeatureType) (id : String) (read : Tag × Partway κ) :
    Idle (r.endProperties type id read) := by
  unfold endProperties
  split
  · unfold endFeature
    split
    · exact .bind (.modify fun _ => ⟨rfl, rfl⟩) fun _ => .bind (idle_register _) fun _ =>
        .get fun _ => .bind (.run (.notes _)) fun _ => .pure _
    · exact .run (.fail _)
  · exact .run (.failMarkup _)

section Features
variable {r} (hgeometry : r.geometry = .standard) (hcustom : r.custom = []) (srs : Option String)
include hgeometry hcustom

theorem frugal_readProperty {inline : SessionM κ (Feature κ)} (hinline : Frugal inline)
    (type : FeatureType) (id : String) (element : Name) (attributes : List Attribute) (p : Partway κ) :
    Frugal (r.readProperty inline srs type id element attributes p) := by
  refine .idle_bind (.run (r.idle_acceptProperty type p.progress element)) fun ⟨d, progress⟩ =>
    .idle_bind (.run (.notes _)) fun _ => ?_
  rw [readValue_of_custom?_eq_none (custom?_eq_none hcustom _ _)]
  exact (r.frugal_readByCategory hinline hgeometry d attributes id _ srs).bind_idle fun _ => .pure _

theorem frugal_featureWithin (depth : Nat) : Frugal (r.featureWithin srs depth) := by
  induction depth with
  | zero => exact .run (.failMarkup _)
  | succ depth ih =>
    have hproperties (type : FeatureType) (id : String) :
        Frugal (r.readProperties (r.featureWithin srs depth) srs type id) :=
      .get fun _ => .foldTags (frugal_readProperty hgeometry hcustom srs ih type id) _ _
    rw [featureWithin_succ]
    exact .idle_bind (.run r.idle_beginFeature) fun begun =>
      (hproperties begun.1 begun.2).bind_idle (r.idle_endProperties begun.1 begun.2)

end Features

/-! ### Every reading -/

/-- Every loop and every recursion that a reader of features goes through comes to an end. -/
structure Halting (r : FeatureReader κ) (srs : Option String) : Prop where
  /-- Up to the next tag. -/
  tag : Halts Cursor.tagRound fun rounds _ => Cursor.nextTagWithin rounds
  /-- Through the text of an element. -/
  text : Halts Cursor.textRound Cursor.textWithin
  /-- Over an element. -/
  skipped : Halts Cursor.skipRound Cursor.skipWithin
  /-- Through the nodes of an element that is kept, and down into each of them. -/
  nodes : Halts Cursor.nodeRound Cursor.nodesWithin
  envelope : Cursor.HaltsOver Cursor.corner
  point : Cursor.HaltsOver Cursor.pointChild
  curve : ∀ dimension, Cursor.HaltsOver (Cursor.curveChild dimension)
  polygon : ∀ dimension, Cursor.HaltsOver (Cursor.polygonChild dimension)
  /-- Through the properties of a multiple geometry. -/
  members : ∀ around, Cursor.HaltsOver (Cursor.membersChild (Tape.enough Cursor.geometryIn around))
  /-- Through the members in one of them. -/
  member : ∀ around, Cursor.HaltsOver (Cursor.memberChild (Tape.enough Cursor.geometryIn around))
  /-- Down into the members. -/
  geometry : Halts Cursor.geometryRound Cursor.geometryIn
  /-- Over what stands behind an inline feature. -/
  trailing : ∀ property, Cursor.HaltsOver (Cursor.trailingChild property)
  /-- Through the properties of a feature. -/
  property : ∀ type id,
    Halts (childRound (liftM Cursor.nextTag) (r.readProperty (r.readFeature srs) srs type id))
      (foldTags (liftM Cursor.nextTag) (r.readProperty (r.readFeature srs) srs type id))
  /-- Down into inline features. -/
  feature : Halts (r.featureRound srs) fun depth _ => r.featureWithin srs depth

/-- Every reading comes to an end, wherever the cursor is and whatever stands behind it. Each round of
each of its loops, and each level that it goes down, takes an event before the end of the document
or is the last one; and the steps with the cursor are no more than twice as many as events are
left, and one. -/
theorem readFeature_halts (r : FeatureReader κ) (hgeometry : r.geometry = .standard)
    (hcustom : r.custom = []) (srs : Option String) :
    r.Halting srs ∧
      Returns Cursor.nextTag ∧ Returns Cursor.elementText ∧ Returns Cursor.skipElement ∧
      Returns Cursor.captureElement ∧ Returns (r.geometry.geometry srs) ∧
      Returns (r.geometry.envelope srs) ∧ Returns (r.readFeature srs) := by
  have hmember := Halts.forward_enough Cursor.forward_geometryIn
  have hforward : Forward (r.readFeature srs) :=
    .get fun s => forward_featureWithin_standard hgeometry hcustom srs _
  refine ⟨?_, ?_, Cursor.frugal_elementText.returns, Cursor.frugal_skipElement.returns,
    Cursor.frugal_captureElement.returns, ?_, ?_, ?_⟩
  · exact {
      tag := Cursor.halts_nextTagWithin
      text := Cursor.halts_textWithin
      skipped := Cursor.halts_skipWithin
      nodes := Cursor.halts_nodesWithin
      envelope := Cursor.haltsOver_corner
      point := Cursor.haltsOver_pointChild
      curve := Cursor.haltsOver_curveChild
      polygon := Cursor.haltsOver_polygonChild
      members := fun around => Cursor.haltsOver (Cursor.forward_membersChild (hmember around))
      member := fun around => Cursor.haltsOver (Cursor.forward_memberChild (hmember around))
      geometry := Cursor.halts_geometryIn
      trailing := Cursor.haltsOver_trailingChild
      property := fun type id =>
        halts_foldTags (forward_readProperty_standard hgeometry hcustom srs hforward type id)
      feature := halts_featureWithin hgeometry hcustom srs }
  · have hnext : Returns (Tape.run Cursor.nextTag : CursorM Tag) := Affords.nextTag.returns
    rwa [Tape.run_cursor] at hnext
  · rw [hgeometry]
    exact (Cursor.frugal_readGeometry srs).returns
  · rw [hgeometry]
    exact (Cursor.frugal_readEnvelope srs).returns
  · have hread : Frugal (r.readFeature srs) :=
      .get fun s => frugal_featureWithin hgeometry hcustom srs _
    exact hread.returns

/-- A road inside a road, neither of which ends: the two events that are left are taken, in five steps
at the most, and three levels are as good as any number of them. -/
theorem readFeature_halts_road :
    let road := Name.unqualified "Road"
    let next := Name.unqualified "next"
    let reader : FeatureReader Unit :=
      .ofSchema ⟨[⟨road, [⟨next, 0, .unbounded, .feature none, by decide⟩], none, false⟩], []⟩
    let session : Session Unit := .ofCursor ((Cursor.ofReadings []).moved 6 (.startElement road [])
      [⟨12, .ok (.start next [])⟩, ⟨18, .ok (.start road [])⟩])
    reader.geometry = .standard ∧ reader.custom = [] ∧
      (∃ n, Calls (reader.readFeature none) session n ∧ 2 ≤ n ∧ n ≤ 5) ∧
      ∀ other, (reader.featureRound none)^[3] other () session = reader.readFeature none session := by
  intro road next reader session
  obtain ⟨hhalting, -, -, -, -, -, -, hreturns⟩ := readFeature_halts reader rfl rfl none
  obtain ⟨n, hcalls, htaken, hle⟩ := hreturns session
  have hall : events (behind (reader.readFeature none session)) = 0 := by decide +kernel
  have htwo : events session = 2 := by decide
  refine ⟨rfl, rfl, ⟨n, hcalls, by omega, by omega⟩, fun other => ?_⟩
  exact hhalting.feature.ends other 3 () (by omega)

end FeatureReader

end FeatureMarkup

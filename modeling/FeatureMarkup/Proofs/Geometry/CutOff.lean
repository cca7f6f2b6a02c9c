import FeatureMarkup.Proofs.Geometry.Extent

/-! Where the reading of a geometry ends.

A geometry or an envelope is read to the end of its element and no further. In a document that
is cut off inside the element it may be read all the same, to the end of the document, since
the loops over children take that for the end of the element. Nothing is made up then: it is
what would be read if the ends that are missing stood there. A boundary is the one part that
asks for its own end, so no document is cut off inside a boundary that is read. -/
namespace FeatureMarkup

open Xml (Attribute Reading)

variable {α : Type}

/-- Readings in which no element that is open before them is ended. -/
def LeavesOpen (readings : List Reading) : Prop :=
  ∀ part, part <+: readings → ¬EndsElement part

/-- What is inside an element leaves it open. -/
theorem Spells.leavesOpen {readings : List Reading} {nodes : List MarkupNode}
    (h : Spells readings nodes) : LeavesOpen readings := by
  intro part hpart hends
  have hdepth := h.depth.2 part hpart
  have hended := hends.ended
  omega

namespace Cursor

/-- The reading has come to the end of the element that the cursor was inside, and has looked at
nothing behind it. -/
def ReadToEnd (m : CursorM α) (c : Cursor) (a : α) (c' : Cursor) : Prop :=
  ∃ inside offset name, c.readings = inside ++ ⟨offset, .ok (.stop name)⟩ :: c'.readings ∧
    EndsElement (inside ++ [⟨offset, .ok (.stop name)⟩]) ∧ c'.event = .endElement name ∧
    ∀ rest, m (c.facing (inside ++ ⟨offset, .ok (.stop name)⟩ :: rest)) = .ok a (c'.facing rest)

/-- The reading has come to the end of a document that does not end the element that the cursor
was inside, and reads the same where the ends that are missing are put there. -/
def ReadToCut (m : CursorM α) (c : Cursor) (a : α) (c' : Cursor) : Prop :=
  LeavesOpen c.readings ∧ c'.event = .endDocument ∧ c'.readings = [] ∧
    ∃ closing, AllStops closing ∧ EndsElement (c.readings ++ closing) ∧
      ∀ rest, ∃ d name, m (c.facing (c.readings ++ closing ++ rest)) = .ok a d ∧
        d.readings = rest ∧ d.event = .endElement name

end Cursor

open Cursor

/-- A part in front of the end of an element leaves the element open. -/
theorem EndsElement.leavesOpen {readings closing : List Reading}
    (h : EndsElement (readings ++ closing)) (hne : closing ≠ []) : LeavesOpen readings := by
  intro part hpart hends
  have hshorter : part ≠ readings ++ closing := by
    rintro rfl
    exact hne (List.append_right_eq_self.1 (hpart.eq_of_length_le (by simp)))
  have hopen := h.still_open part (hpart.trans (List.prefix_append readings closing)) hshorter
  exact absurd hends.ended (Int.ne_of_gt hopen)

namespace ReadsElement
variable {m : CursorM α} {c c' : Cursor} {a : α} {name : Name} {attributes : List Attribute}

/-- A reading that has not come to the end of the document has come to the end of its element. -/
theorem readToEnd (hm : ReadsElement m) (hc : c.event = .startElement name attributes)
    (h : m c = .ok a c') (hnot : ¬c'.AtEnd) : ReadToEnd m c a c' := by
  rcases hm.toEnd name attributes hc h with
    hend | ⟨taken, htakes, inside, nodes, offset, name', hs, rfl, hevent, -⟩
  · exact absurd hend hnot
  · refine ⟨inside, offset, name', ?_, hs.endsElement offset name', hevent, fun rest => ?_⟩
    · simpa [Tape.left] using htakes.left
    · have hagain := htakes.again rest
      rwa [List.append_assoc, List.singleton_append] at hagain

end ReadsElement

namespace ElementReader
variable {m : CursorM α} {c c' : Cursor} {a : α} {name : Name} {attributes : List Attribute}

/-- A reader of one element comes to the end of that element, or the document is cut off
inside it. -/
theorem readToEnd_or_readToCut (hm : ElementReader m)
    (hc : c.event = .startElement name attributes) (h : m c = .ok a c') :
    ReadToEnd m c a c' ∨ ReadToCut m c a c' := by
  by_cases hend : c'.AtEnd
  · obtain ⟨hleft, closing, hne, hall, hclosed⟩ := hm.closes (not_atEnd_of_start hc) h hend
    obtain ⟨d, name', hd, hnil, hevent⟩ := hclosed []
    obtain ⟨inside, offset, name₁, hr, hends, -⟩ :=
      hm.readToEnd (c := c.facing _) hc hd (not_atEnd_of_stop hevent)
    have hwhole : EndsElement (c.readings ++ closing) := by
      rw [hnil, facing_readings, List.append_nil] at hr
      rwa [hr]
    exact .inr ⟨hwhole.leavesOpen hne, hend, hleft, closing, hall, hwhole, hclosed⟩
  · exact .inl (hm.readToEnd hc h hend)

end ElementReader

namespace Cursor
variable {c c' : Cursor}

/-- A boundary is read to its own end, in any document. -/
theorem readRing_readToEnd {dimension : Option Nat} {ring : List Coordinate} {name : Name}
    {attributes : List Attribute} (hc : c.event = .startElement name attributes)
    (h : readRing dimension c = .ok ring c') : ReadToEnd (readRing dimension) c ring c' := by
  obtain ⟨_, hevent⟩ := readRing_ends h
  exact (elementReader_readRing dimension).readToEnd hc h (not_atEnd_of_stop hevent)

/-- A geometry or an envelope that is read leaves the cursor at the end of its element, unless
the document is cut off inside that element. It is then read up to the end of the document, as
it would be with the ends that are missing. -/
theorem geometry_readToEnd_or_readToCut (srs : Option String) (c c' : Cursor) :
    (∀ g, readGeometry srs c = .ok g c' →
      ReadToEnd (readGeometry srs) c g c' ∨ ReadToCut (readGeometry srs) c g c') ∧
    (∀ e, readEnvelope srs c = .ok e c' →
      ReadToEnd (readEnvelope srs) c e c' ∨ ReadToCut (readEnvelope srs) c e c') ∧
    (∀ dimension ring, readRing dimension c = .ok ring c' →
      (∃ name attributes, c.event = .startElement name attributes) →
      ReadToEnd (readRing dimension) c ring c') := by
  refine ⟨fun g h => ?_, fun e h => ?_, fun dimension ring h hstart => ?_⟩
  · obtain ⟨name, attributes, hc⟩ := event_of_gmlElement_bind h
    exact (elementReader_readGeometry srs).readToEnd_or_readToCut hc h
  · obtain ⟨name, attributes, hc⟩ := event_of_gmlElement_bind h
    exact (elementReader_readEnvelope srs).readToEnd_or_readToCut hc h
  · obtain ⟨name, attributes, hc⟩ := hstart
    exact readRing_readToEnd hc h

/-- A point that is ended, and a point and an envelope that are not. -/
theorem geometry_readToEnd_or_readToCut_point :
    let name (localPart : String) : Name := ⟨some Space.gml, localPart, by decide⟩
    let pos : List Reading := [⟨51, .ok (.start (name "pos") [])⟩, ⟨54, .ok (.text "1 2")⟩,
      ⟨60, .ok (.stop (name "pos"))⟩]
    let point (rest : List Reading) := (ofReadings []).moved 46 (.startElement (name "Point") []) rest
    let ended := point (pos ++ [⟨68, .ok (.stop (name "Point"))⟩])
    let box := (ofReadings []).moved 46 (.startElement (name "Box") []) (pos ++ pos)
    (∃ g c', readGeometry none ended = .ok g c' ∧ ReadToEnd (readGeometry none) ended g c') ∧
    (∃ g c', readGeometry none (point pos) = .ok g c' ∧
      ReadToCut (readGeometry none) (point pos) g c') ∧
    (∃ e c', readEnvelope none box = .ok e c' ∧ ReadToCut (readEnvelope none) box e c') := by
  intro name pos point ended box
  have not_both {α : Type} {m : CursorM α} {c c' : Cursor} {a : α} (hend : ReadToEnd m c a c')
      (hcut : c'.event = .endDocument) : False := by
    obtain ⟨_, _, _, -, -, hevent, -⟩ := hend
    cases hevent.symm.trans hcut
  refine ⟨?_, ?_, ?_⟩
  · have hread : told? (fun _ c => c.event) (readGeometry none ended) =
        some (.endElement (name "Point")) := by decide +kernel
    obtain ⟨g, c', h, hevent⟩ := told?_eq_some.1 hread
    refine ⟨g, c', h, ((geometry_readToEnd_or_readToCut none ended c').1 g h).resolve_right ?_⟩
    exact fun hcut => nomatch hevent.symm.trans hcut.2.1
  · have hread : told? (fun _ c => c.event) (readGeometry none (point pos)) = some .endDocument := by
      decide +kernel
    obtain ⟨g, c', h, hevent⟩ := told?_eq_some.1 hread
    refine ⟨g, c', h, ((geometry_readToEnd_or_readToCut none (point pos) c').1 g h).resolve_left ?_⟩
    exact fun hend => not_both hend hevent
  · have hread : told? (fun _ c => c.event) (readEnvelope none box) = some .endDocument := by
      decide +kernel
    obtain ⟨e, c', h, hevent⟩ := told?_eq_some.1 hread
    refine ⟨e, c', h, ((geometry_readToEnd_or_readToCut none box c').2.1 e h).resolve_left ?_⟩
    exact fun hend => not_both hend hevent

/-- A point that is not ended is read, to the end of the document. -/
theorem readGeometry_unended_point :
    let name (localPart : String) : Name := ⟨some Space.gml, localPart, by decide⟩
    let readings : List Reading := [⟨51, .ok (.start (name "pos") [])⟩, ⟨54, .ok (.text "1 2")⟩,
      ⟨60, .ok (.stop (name "pos"))⟩]
    let c := (ofReadings []).moved 46 (.startElement (name "Point") []) readings
    LeavesOpen c.readings ∧ ∃ g c', readGeometry none c = .ok g c' ∧ c'.event = .endDocument := by
  intro name readings c
  have hblank : Text.allBlank "1 2" = false := by decide
  have hspells : Spells c.readings [.element ⟨name "pos", [], [.text "1 2"]⟩] :=
    .element (.text hblank .nil) .nil
  have hread : told? (fun _ c => c.event) (readGeometry none c) = some .endDocument := by
    decide +kernel
  exact ⟨hspells.leavesOpen, told?_eq_some.1 hread⟩

end Cursor

end FeatureMarkup

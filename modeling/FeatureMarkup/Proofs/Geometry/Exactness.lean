import FeatureMarkup.Proofs.Geometry.Members

/-! The positions of a curve are read exactly.

`readCurve_exact`: what a curve yields are the positions written in its children, in order and
none left out, and an element that is closed yields them just if its tokens are as they should be.
That nothing else is yielded is `ReadsAs`; that nothing of this form is refused is built up here,
from the readers of one text to the loop around them. -/
namespace FeatureMarkup.Cursor

open Xml (Attribute)

variable {t : MarkupTree} {outer : Option Nat}

/-! ### One child -/

theorem accepts_singlePosition {p : Coordinate} (hleaf : t.childElements = [])
    (h : Writes t.words [p]) : SucceedsOn singlePosition t p :=
  (SucceedsOn.elementText hleaf).bind_still fun _ => position_eq_ok_iff.2 ⟨h, rfl⟩

theorem accepts_tuplePositions {ps : List Coordinate} (hleaf : t.childElements = [])
    (h : WritesEach (t.words.map (Text.fields t.separator)) ps) :
    SucceedsOn (tuplePositions t.attributes) t ps :=
  (SucceedsOn.elementText hleaf).bind_still fun _ => tuples_eq_ok_iff.2 ⟨h, rfl⟩

/-- A child that holds positions yields them. -/
theorem accepts_curvePositions {ps : List Coordinate} (hleaf : t.childElements = [])
    (h : PositionsIn outer t ps) : SucceedsOn (curvePositions outer t.name t.attributes) t ps := by
  unfold curvePositions
  cases h with
  | list hname hsound hdimension hsizes hwrites =>
    simp only [hname]
    refine .still_bind (fun _ => statedDimension_eq_ok_iff.2 ⟨hsound, rfl, rfl⟩) ?_
    exact (SucceedsOn.elementText hleaf).bind_still fun _ =>
      listPositions_eq_ok_iff.2 ⟨hdimension, hsizes, hwrites, rfl⟩
  | single hname hwrites =>
    simp only [hname]
    exact (accepts_singlePosition hleaf hwrites).bind_still fun _ => rfl
  | tuples hname hwrites =>
    simp only [hname]
    exact accepts_tuplePositions hleaf hwrites

/-! ### A whole curve -/

/-- A curve that holds positions yields them. -/
theorem accepts_readCurve {cs : List Coordinate} (h : CurveRead outer t cs) :
    SucceedsOn (readCurve outer) t cs := by
  obtain ⟨runs, hcs, hruns⟩ := h.runs
  have hchildren : List.Forall₂ (fun child ps => child.childElements = [] ∧ PositionsIn outer child ps)
      t.childElements runs :=
    (List.forall₂_and_left _ _).2 ⟨h.leaves, hruns⟩
  refine .foldChildren_bind (fun child runs runs' hchild => ?_) h.blank (.of_forall₂ hchildren [])
    fun _ c => ?_
  · obtain ⟨ps, rfl, hleaf, hps⟩ := hchild
    exact (accepts_curvePositions hleaf hps).map
  · have hpositions : (runs.reverse ++ []).reverse.flatten = cs := by simp [hcs]
    dsimp only
    rw [hpositions]
    exact guard_eq_ok.2 ⟨Nat.not_lt.2 h.two_le, rfl⟩

/-- What a curve yields is written in its children, all of it and in order; and a curve that is
closed yields positions to its end just if its tokens are as they should be. -/
theorem readCurve_exact (outer : Option Nat) (c : Cursor) (name : Name) (attributes : List Attribute)
    (hc : c.event = .startElement name attributes) :
    (∀ cs c', readCurve outer c = .ok cs c' →
      ∃ t closing c'', AllStops closing ∧ (c'.event ≠ .endDocument → closing = [] ∧ c'' = c') ∧
        (c.facing (c.readings ++ closing)).Spans t c'' ∧ CurveRead outer t cs ∧
        Writes t.curveGroups.flatten cs ∧ CurveWritten outer t) ∧
    (∀ t d, c.Spans t d →
      ((∃ cs c', readCurve outer c = .ok cs c' ∧ c'.readings = d.readings ∧ c'.event = d.event) ↔
        CurveWritten outer t)) := by
  have hsound : ∀ cs c', readCurve outer c = .ok cs c' →
      ∃ t closing c'', AllStops closing ∧ (c'.event ≠ .endDocument → closing = [] ∧ c'' = c') ∧
        (c.facing (c.readings ++ closing)).Spans t c'' ∧ CurveRead outer t cs := fun cs c' h =>
    exists_spans (elementReader_readCurve outer) (readsAs_readCurve outer) hc h
  refine ⟨fun cs c' h => ?_, fun t d hspans => ⟨fun hgiven => ?_, fun hwritten => ?_⟩⟩
  · obtain ⟨t, closing, c'', hall, hwhole, hspans, hread⟩ := hsound cs c' h
    exact ⟨t, closing, c'', hall, hwhole, hspans, hread, hread.writes,
      CurveWritten.iff_exists.2 ⟨cs, hread⟩⟩
  · obtain ⟨cs, c', h, -⟩ := hgiven
    obtain ⟨t', closing, c'', -, -, hspans', hread⟩ := hsound cs c' h
    obtain rfl := (hspans.append closing).unique hspans'
    exact CurveWritten.iff_exists.2 ⟨cs, hread⟩
  · obtain ⟨cs, hread⟩ := CurveWritten.iff_exists.1 hwritten
    obtain ⟨c', h, hend⟩ := accepts_readCurve hread hspans
    exact ⟨cs, c', h, hend⟩

/-- A curve with its positions written in all three ways. -/
theorem readCurve_exact_mixed :
    let child (localPart text : String) (attributes : List Attribute) : MarkupNode :=
      .element ⟨⟨some Space.gml, localPart, by decide⟩, attributes, [.text text]⟩
    let line : MarkupTree := ⟨⟨some Space.gml, "LineString", by decide⟩, [],
      [child "posList" "1 2 3 4" [], .text " ", child "pos" "5 6 7" [],
        child "coordinates" "8;9 10;11" [⟨.unqualified "cs", ";"⟩]]⟩
    ∃ cs c', readCurve none (atTree line) = .ok cs c' ∧ cs.map (·.ordinates.length) = [2, 2, 3, 2, 2] ∧
      Writes ["1", "2", "3", "4", "5", "6", "7", "8", "9", "10", "11"] cs ∧ CurveWritten none line := by
  intro child line
  have hread : told? (fun cs c => (c.event, c.readings.length, cs.map (·.ordinates.length)))
      (readCurve none (atTree line)) = some (.endElement line.name, 0, [2, 2, 3, 2, 2]) := by
    decide +kernel
  obtain ⟨cs, c', h, htold⟩ := told?_eq_some.1 hread
  obtain ⟨hevent, htold⟩ := Prod.mk.inj htold
  obtain ⟨hleft, hsizes⟩ := Prod.mk.inj htold
  obtain ⟨t, closing, c'', -, hwhole, hspans, -, hwrites, hwritten⟩ :=
    (readCurve_exact none (atTree line) line.name line.attributes rfl).1 cs c' h
  obtain ⟨rfl, rfl⟩ := hwhole (by rw [hevent]; nofun)
  rw [List.append_nil, facing_self] at hspans
  obtain rfl := hspans.unique (spans_atTree (List.length_eq_zero_iff.1 hleft) hevent)
  have htokens : line.curveGroups.flatten =
      ["1", "2", "3", "4", "5", "6", "7", "8", "9", "10", "11"] := by decide +kernel
  exact ⟨cs, c'', h, hsizes, htokens ▸ hwrites, hwritten⟩

end FeatureMarkup.Cursor

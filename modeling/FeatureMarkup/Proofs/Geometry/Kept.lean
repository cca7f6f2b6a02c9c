import FeatureMarkup.Proofs.Geometry.Corners

/-! What becomes of the numbers in a geometry.

Every ordinate of a geometry that is read is written by a token in its element, no token counts
twice, and the order is kept. Where a geometry has each of its parts once every token counts: a
point with one position, a polygon with one exterior, an envelope with two corners. What is
there more than once is passed over without a word: all positions of a point but the first of
the last child, all exteriors but the last, and a member property with no element in it. -/
namespace FeatureMarkup

open Xml (Reading)

/-- The tokens write just these ordinates, each token one of them, in whatever order. -/
def WritesAll (tokens : List String) (positions : List Coordinate) : Prop :=
  (tokens.map Number.ofToken?).Perm ((positions.flatMap Coordinate.ordinates).map some)

theorem Writes.all {tokens written : List String} {positions : List Coordinate}
    (h : Writes tokens positions) (hperm : tokens.Perm written) : WritesAll written positions := by
  unfold WritesAll
  rw [← show _ = _ from h]
  exact (hperm.map _).symm

/-- What is in a relation to the parts of several things comes in a share for each of them. -/
theorem exists_shares {α β γ : Type} {R : β → γ → Prop} {f : α → List β} {as : List α} {cs : List γ}
    (h : List.Forall₂ R (as.flatMap f) cs) :
    ∃ shares, cs = shares.flatten ∧ List.Forall₂ (fun a share => List.Forall₂ R (f a) share) as shares := by
  induction as generalizing cs with
  | nil =>
    cases h
    exact ⟨[], rfl, .nil⟩
  | cons a as ih =>
    have hflip : List.Forall₂ (flip R) cs (f a ++ as.flatMap f) := List.Forall₂.flip h
    obtain ⟨shares, hshares, hall⟩ := ih (List.forall₂_drop_append cs (f a) _ hflip).flip
    refine ⟨cs.take (f a).length :: shares, ?_,
      .cons (List.forall₂_take_append cs (f a) _ hflip).flip hall⟩
    rw [List.flatten_cons, ← hshares, List.take_append_drop]

namespace ReadFrom
variable {trees : List MarkupTree} {shapes : List Shape}

theorem flatMap_subperm (h : List.Forall₂ ReadFrom trees shapes) :
    (trees.flatMap MarkupTree.kept).Subperm (trees.flatMap MarkupTree.written) := by
  induction h with
  | nil => exact .refl _
  | cons hpart _ ih => exact hpart.subperm.append ih

theorem flatMap_perm (h : List.Forall₂ ReadFrom trees shapes) (hsingle : ∀ t ∈ trees, t.Single) :
    (trees.flatMap MarkupTree.kept).Perm (trees.flatMap MarkupTree.written) := by
  induction h with
  | nil => exact .refl _
  | cons hpart _ ih =>
    rw [List.forall_mem_cons] at hsingle
    exact (hpart.perm hsingle.1).append (ih hsingle.2)

end ReadFrom

/-- The groups that a geometry is read from: those kept of each of its parts. -/
def MarkupTree.keptOfAll (t : MarkupTree) : List (List String) := t.parts.flatMap kept

theorem GeometryRead.writes {srs : Option String} {t : MarkupTree} {g : Geometry}
    (h : GeometryRead srs t g) : Writes t.keptOfAll.flatten g.shape.positions := by
  rw [← Shape.flatMap_positions_parts]
  exact .flatMap (h.parts.imp fun _ _ hpart => hpart.writes)

namespace Cursor

/-- A geometry or an envelope that is read to its end has its ordinates, in order, from tokens
written in its element, none of them twice; where no part is there more than once every token
is one of them. The members of a multiple geometry are the elements in its member properties,
as many for each property as it has elements. -/
theorem geometry_keeps_tokens (srs : Option String) (c c' : Cursor) (hclosed : c'.event ≠ .endDocument) :
    (∀ g, readGeometry srs c = .ok g c' → ∃ t, c.Spans t c' ∧
      Writes t.keptOfAll.flatten g.shape.positions ∧ t.keptOfAll.Subperm t.written ∧
      ((∀ part ∈ t.parts, part.Single) → WritesAll t.written.flatten g.shape.positions) ∧
      (t.isMultiple = true → ∃ shares, g.shape.parts = shares.flatten ∧
        List.Forall₂ (fun property share => List.Forall₂ (fun member shape =>
          Writes member.kept.flatten shape.positions) property.childElements share)
          t.childElements shares)) ∧
    (∀ e, readEnvelope srs c = .ok e c' → ∃ t lower upper, c.Spans t c' ∧
      MarkupTree.corners? t.childElements = some (lower, upper) ∧
      Writes (lower ++ upper) [e.lower, e.upper] ∧ [lower, upper].Subperm t.written ∧
      (t.written.length ≤ 2 → WritesAll t.written.flatten [e.lower, e.upper])) := by
  refine ⟨fun g h => ?_, fun e h => ?_⟩
  · obtain ⟨name, attributes, hc⟩ := event_of_gmlElement_bind h
    obtain ⟨t, hspans, hread⟩ := (readsAs_readGeometry srs).spans hc h hclosed
    have hsubperm := ReadFrom.flatMap_subperm hread.parts
    rw [← hread.written_eq] at hsubperm
    refine ⟨t, hspans, hread.writes, hsubperm, fun hsingle => ?_, fun hmultiple => ?_⟩
    · have hperm := ReadFrom.flatMap_perm hread.parts hsingle
      rw [← hread.written_eq] at hperm
      exact hread.writes.all hperm.flatten
    · have hparts := hread.parts
      rw [MarkupTree.parts, if_pos hmultiple] at hparts
      exact exists_shares (hparts.imp fun _ _ hpart => hpart.writes)
  · obtain ⟨name, attributes, hc⟩ := event_of_gmlElement_bind h
    obtain ⟨t, hspans, hread⟩ := (readsAs_readEnvelope srs).spans hc h hclosed
    obtain ⟨lower, upper, hcorners, hlower, hupper⟩ := hread.corners
    have hwrites : Writes (lower ++ upper) [e.lower, e.upper] := hlower.append hupper
    have hsubperm := hread.subperm hcorners
    refine ⟨t, lower, upper, hspans, hcorners, hwrites, hsubperm, fun hlength => ?_⟩
    have hperm := (hsubperm.perm_of_length_le (by simpa using hlength)).flatten
    exact hwrites.all (by simpa using hperm)

/-- A polygon whose interior comes first, and a box: every number is kept. -/
theorem geometry_keeps_tokens_polygon :
    let tree (localPart : String) (children : List MarkupNode) : MarkupTree :=
      ⟨⟨some Space.gml, localPart, by decide⟩, [], children⟩
    let ring (text : String) := tree "LinearRing" [.element (tree "posList" [.text text])]
    let polygon := tree "Polygon" [.element (tree "interior" [.element (ring "1 1 2 2")]),
      .element (tree "exterior" [.element (ring "0 0 3 3")])]
    let box := tree "Box" [.element (tree "coordinates" [.text "1,2 3,4"])]
    (∃ g c', readGeometry none (atTree polygon) = .ok g c' ∧
      WritesAll polygon.written.flatten g.shape.positions) ∧
    (∃ e c', readEnvelope none (atTree box) = .ok e c' ∧
      WritesAll box.written.flatten [e.lower, e.upper]) := by
  intro tree ring polygon box
  constructor
  · have hread : told? (fun _ c => (c.event, c.readings.length)) (readGeometry none (atTree polygon)) =
        some (.endElement polygon.name, 0) := by decide +kernel
    obtain ⟨g, c', h, htold⟩ := told?_eq_some.1 hread
    obtain ⟨hevent, hleft⟩ := Prod.mk.inj htold
    obtain ⟨t, hspans, -, -, hall, -⟩ :=
      (geometry_keeps_tokens none (atTree polygon) c' (by rw [hevent]; nofun)).1 g h
    obtain rfl := hspans.unique (spans_atTree (List.length_eq_zero_iff.1 hleft) hevent)
    exact ⟨g, c', h, hall (by decide +kernel)⟩
  · have hread : told? (fun _ c => (c.event, c.readings.length)) (readEnvelope none (atTree box)) =
        some (.endElement box.name, 0) := by decide +kernel
    obtain ⟨e, c', h, htold⟩ := told?_eq_some.1 hread
    obtain ⟨hevent, hleft⟩ := Prod.mk.inj htold
    obtain ⟨t, lower, upper, hspans, -, -, -, hall⟩ :=
      (geometry_keeps_tokens none (atTree box) c' (by rw [hevent]; nofun)).2 e h
    obtain rfl := hspans.unique (spans_atTree (List.length_eq_zero_iff.1 hleft) hevent)
    exact ⟨e, c', h, hall (by decide +kernel)⟩

/-- Of two exteriors one is lost, and of a member that is only referred to nothing is left. -/
theorem geometry_loses_exterior_and_member :
    let tree (localPart : String) (children : List MarkupNode) : MarkupTree :=
      ⟨⟨some Space.gml, localPart, by decide⟩, [], children⟩
    let ring (text : String) := tree "LinearRing" [.element (tree "posList" [.text text])]
    let polygon := tree "Polygon" [.element (tree "exterior" [.element (ring "0 0 1 1")]),
      .element (tree "exterior" [.element (ring "2 2 3 3")])]
    let reference : MarkupTree := ⟨⟨some Space.gml, "pointMember", by decide⟩,
      [⟨⟨some Space.xlink, "href", by decide⟩, "#p"⟩], []⟩
    let points := tree "MultiPoint" [.element reference]
    (∃ g c', readGeometry none (atTree polygon) = .ok g c' ∧ (atTree polygon).Spans polygon c' ∧
      ¬WritesAll polygon.written.flatten g.shape.positions) ∧
    (∃ g c', readGeometry none (atTree points) = .ok g c' ∧ (atTree points).Spans points c' ∧
      points.childElements = [reference] ∧ g.shape.parts = []) := by
  intro tree ring polygon reference points
  constructor
  · have hread : told? (fun g c => (c.event, c.readings.length,
        (g.shape.positions.flatMap Coordinate.ordinates).length)) (readGeometry none (atTree polygon)) =
          some (.endElement polygon.name, 0, 4) := by decide +kernel
    obtain ⟨g, c', h, htold⟩ := told?_eq_some.1 hread
    obtain ⟨hevent, htold⟩ := Prod.mk.inj htold
    obtain ⟨hleft, hfour⟩ := Prod.mk.inj htold
    have height : polygon.written.flatten.length = 8 := by decide +kernel
    refine ⟨g, c', h, spans_atTree (List.length_eq_zero_iff.1 hleft) hevent, fun hall => ?_⟩
    have hlength := hall.length_eq
    rw [List.length_map, List.length_map, height, hfour] at hlength
    cases hlength
  · have hread : told? (fun g c => (c.event, c.readings.length, g.shape.parts.length))
        (readGeometry none (atTree points)) = some (.endElement points.name, 0, 0) := by decide +kernel
    obtain ⟨g, c', h, htold⟩ := told?_eq_some.1 hread
    obtain ⟨hevent, htold⟩ := Prod.mk.inj htold
    obtain ⟨hleft, hnone⟩ := Prod.mk.inj htold
    exact ⟨g, c', h, spans_atTree (List.length_eq_zero_iff.1 hleft) hevent, rfl,
      List.length_eq_zero_iff.1 hnone⟩

end Cursor

end FeatureMarkup

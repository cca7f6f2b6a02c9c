import FeatureMarkup.Proofs.Geometry.Kept

/-! Which reference system the positions of a geometry are in.

A geometry reports the system of its outermost element: the one named there, else the one in
force around it. A member may name a system of its own, and that is then the one in force at
its positions; but only positions come up from a member, so the system reported is that of
every position just where no member names another one. -/
namespace FeatureMarkup

open Xml (Reading)

namespace MarkupTree

/-- The geometries that the positions of a geometry come from, each with the reference system in
force at it: the one that it names, else that of the geometry around it, else the one given. -/
def partsIn (srs : Option String) (t : MarkupTree) : List (Option String × MarkupTree) :=
  if t.isMultiple then t.members.map fun member => (member.srsName <|> (t.srsName <|> srs), member)
  else [(t.srsName <|> srs, t)]

theorem map_snd_partsIn (srs : Option String) (t : MarkupTree) :
    (t.partsIn srs).map Prod.snd = t.parts := by
  unfold partsIn parts
  split
  · rw [List.map_map]
    exact List.map_id _
  · rfl

/-- What is in force at a part is what is in force at the whole, where the part names nothing
else. -/
theorem partsIn_same_iff (srs : Option String) (t : MarkupTree) :
    (∀ part ∈ t.partsIn srs, part.1 = (t.srsName <|> srs)) ↔
      ∀ part ∈ t.parts, part.srsName = none ∨ part.srsName = (t.srsName <|> srs) := by
  have hsame (own given : Option String) : own.or given = given ↔ own = none ∨ own = given := by
    cases own <;> simp
  unfold partsIn parts
  cases t.isMultiple with
  | true => simp [hsame]
  | false => cases hown : t.srsName <;> simp [hown]

end MarkupTree

/-- The positions of a geometry come in runs, one for each part, in order. -/
theorem GeometryRead.runs {srs : Option String} {t : MarkupTree} {g : Geometry}
    (h : GeometryRead srs t g) : ∃ runs, g.shape.positions = runs.flatten ∧
      List.Forall₂ (fun part run => Writes part.2.kept.flatten run) (t.partsIn srs) runs := by
  refine ⟨g.shape.parts.map Shape.positions, ?_, List.forall₂_map_right_iff.2 ?_⟩
  · rw [← Shape.flatMap_positions_parts, List.flatMap_def]
  · have hparts := h.parts
    rw [← MarkupTree.map_snd_partsIn srs t, List.forall₂_map_left_iff] at hparts
    exact hparts.imp fun _ _ hpart => hpart.writes

namespace Cursor

/-- A geometry is read from the element that the cursor is at the start of; in a document that
is cut off inside it, with the ends that are missing put there. -/
theorem exists_geometryIn {srs : Option String} {c c' : Cursor} {g : Geometry}
    (h : readGeometry srs c = .ok g c') :
    ∃ t closing c'', AllStops closing ∧ (c'.event ≠ .endDocument → closing = [] ∧ c'' = c') ∧
      (c.facing (c.readings ++ closing)).Spans t c'' ∧ GeometryIn srs none t g := by
  obtain ⟨name, attributes, hc⟩ := event_of_gmlElement_bind h
  exact exists_spans (elementReader_readGeometry srs) (readsAs_geometryIn srs) hc h

theorem exists_geometryRead {srs : Option String} {c c' : Cursor} {g : Geometry}
    (h : readGeometry srs c = .ok g c') :
    ∃ t closing c'', AllStops closing ∧ (c'.event ≠ .endDocument → closing = [] ∧ c'' = c') ∧
      (c.facing (c.readings ++ closing)).Spans t c'' ∧ GeometryRead srs t g := by
  obtain ⟨t, closing, c'', hall, hwhole, hspans, hread⟩ := exists_geometryIn h
  exact ⟨t, closing, c'', hall, hwhole, hspans, hread.read⟩

/-- A geometry that is read reports the reference system in force at its element. Its positions
are a run for each of its parts, and that system is in force at all of them just where no part
names another one. -/
theorem geometry_reports_system (srs : Option String) (c c' : Cursor) (g : Geometry)
    (h : readGeometry srs c = .ok g c') :
    ∃ t closing c'', AllStops closing ∧ (c'.event ≠ .endDocument → closing = [] ∧ c'' = c') ∧
      (c.facing (c.readings ++ closing)).Spans t c'' ∧ g.srs = (t.srsName <|> srs) ∧
      (∃ runs, g.shape.positions = runs.flatten ∧
        List.Forall₂ (fun part run => Writes part.2.kept.flatten run) (t.partsIn srs) runs) ∧
      ((∀ part ∈ t.partsIn srs, part.1 = g.srs) ↔
        ∀ part ∈ t.parts, part.srsName = none ∨ part.srsName = g.srs) := by
  obtain ⟨t, closing, c'', hall, hwhole, hspans, hread⟩ := exists_geometryRead h
  refine ⟨t, closing, c'', hall, hwhole, hspans, hread.srs_eq, hread.runs, ?_⟩
  rw [hread.srs_eq]
  exact t.partsIn_same_iff srs

/-- A point in a multiple geometry is in the system of the multiple geometry. -/
theorem geometry_reports_system_points :
    let name (localPart : String) : Name := ⟨some Space.gml, localPart, by decide⟩
    let system (srs : String) : Xml.Attribute := ⟨.unqualified "srsName", srs⟩
    let point : MarkupTree := ⟨name "Point", [], [.element ⟨name "pos", [], [.text "1 2"]⟩]⟩
    let points : MarkupTree := ⟨name "MultiPoint", [system "EPSG:4326"],
      [.element ⟨name "pointMember", [], [.element point]⟩]⟩
    ∃ g c', readGeometry none (atTree points) = .ok g c' ∧
      ∀ part ∈ points.partsIn none, part.1 = g.srs := by
  intro name system point points
  have hread : told? (fun g c => (c.event, c.readings.length, g.srs)) (readGeometry none (atTree points)) =
      some (.endElement points.name, 0, some "EPSG:4326") := by decide +kernel
  obtain ⟨g, c', h, htold⟩ := told?_eq_some.1 hread
  obtain ⟨hevent, htold⟩ := Prod.mk.inj htold
  obtain ⟨hleft, hsrs⟩ := Prod.mk.inj htold
  obtain ⟨t, closing, c'', -, hwhole, hspans, -, -, hsame⟩ :=
    geometry_reports_system none (atTree points) c' g h
  obtain ⟨rfl, rfl⟩ := hwhole (by rw [hevent]; nofun)
  rw [List.append_nil, facing_self] at hspans
  obtain rfl := hspans.unique (spans_atTree (List.length_eq_zero_iff.1 hleft) hevent)
  exact ⟨g, c'', h, hsame.2 (by rw [hsrs]; decide +kernel)⟩

/-- The system that a member names is not that of the geometry that has its position. -/
theorem geometry_drops_system_of_member :
    let name (localPart : String) : Name := ⟨some Space.gml, localPart, by decide⟩
    let system (srs : String) : Xml.Attribute := ⟨.unqualified "srsName", srs⟩
    let point : MarkupTree :=
      ⟨name "Point", [system "EPSG:6668"], [.element ⟨name "pos", [], [.text "1 2"]⟩]⟩
    let points : MarkupTree := ⟨name "MultiPoint", [system "EPSG:4326"],
      [.element ⟨name "pointMember", [], [.element point]⟩]⟩
    ∃ g c', readGeometry none (atTree points) = .ok g c' ∧ (atTree points).Spans points c' ∧
      points.partsIn none = [(some "EPSG:6668", point)] ∧ g.shape.positions.length = 1 ∧
      g.srs = some "EPSG:4326" := by
  intro name system point points
  have hread : told? (fun g c => (c.event, c.readings.length, g.shape.positions.length, g.srs))
      (readGeometry none (atTree points)) =
        some (.endElement points.name, 0, 1, some "EPSG:4326") := by decide +kernel
  obtain ⟨g, c', h, htold⟩ := told?_eq_some.1 hread
  obtain ⟨hevent, htold⟩ := Prod.mk.inj htold
  obtain ⟨hleft, htold⟩ := Prod.mk.inj htold
  obtain ⟨hone, hsrs⟩ := Prod.mk.inj htold
  exact ⟨g, c', h, spans_atTree (List.length_eq_zero_iff.1 hleft) hevent, rfl, hone, hsrs⟩

end Cursor

end FeatureMarkup

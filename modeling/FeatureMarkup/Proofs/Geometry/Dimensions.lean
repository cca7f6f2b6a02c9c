import FeatureMarkup.Proofs.Geometry.Systems

/-! Which dimension a position list is in.

A list, the curve around it, the polygon around that and the multiple geometry around all may each
state a dimension. The innermost one that is stated governs, and it is two if none is; what a
member property, a boundary or another geometry states is never looked at. Each of them has to
be a number all the same: `geometry_dimensions` is that the geometry cannot be read otherwise. -/
namespace FeatureMarkup

/-! ### What is in force -/

namespace MarkupTree

/-- The dimension that the first of some elements states which states any. The elements that stand
around one another come innermost first. -/
def nearestDimension? (path : List MarkupTree) : Option Nat := path.findSome? dimension?

@[simp] theorem nearestDimension?_nil : nearestDimension? [] = none := rfl

@[simp] theorem nearestDimension?_cons (t : MarkupTree) (path : List MarkupTree) :
    nearestDimension? (t :: path) = (t.dimension? <|> nearestDimension? path) := by
  unfold nearestDimension?
  rw [List.findSome?_cons]
  cases t.dimension? <;> rfl

/-- What has one of the names of a geometry with no members has none. -/
theorem isMultiple_of_isNamed {t : MarkupTree} {names : List String} (h : t.isNamed names = true)
    (hnames : ∀ n ∈ names, n ∉ ["MultiPoint", "MultiCurve", "MultiLineString", "MultiSurface",
      "MultiPolygon"]) : t.isMultiple = false := by
  have hmem : t.name.localPart ∈ names := by simpa [isNamed] using h
  simpa [isMultiple, isNamed] using hnames _ hmem

/-- The position lists in a geometry, each with the elements around it that it can have a dimension
from: the curve, the polygon that it is a ring of, and the multiple geometries around. -/
inductive HoldsList : MarkupTree → List MarkupTree → Prop where
  | line {t list} : t.isNamed ["LineString", "LinearRing"] = true → list ∈ t.childElements →
      list.name.localPart = "posList" → HoldsList t [list, t]
  | ring {t boundary ring list} : t.isNamed ["Polygon"] = true → boundary ∈ t.childElements →
      ring ∈ boundary.childElements → list ∈ ring.childElements → list.name.localPart = "posList" →
      HoldsList t [list, ring, t]
  | member {t member path} : t.isMultiple = true → member ∈ t.members → HoldsList member path →
      HoldsList t (path ++ [t])

/-- The curves that are kept of a geometry with no members, each with the polygon that it is a ring
of, if it is one: the last exterior and all interiors. -/
def partPaths (t : MarkupTree) : List (List MarkupTree) :=
  if t.isNamed ["Polygon"] then
    (t.exteriors.getLast?.toList ++ t.interiors).flatMap fun boundary =>
      boundary.childElements.map fun ring => [ring, t]
  else if t.isNamed ["LineString", "LinearRing"] then [[t]]
  else []

/-- The curves that are kept of a geometry, each with the geometries around it. -/
def curvePaths (t : MarkupTree) : List (List MarkupTree) :=
  if t.isMultiple then t.members.flatMap fun member => member.partPaths.map (· ++ [t])
  else t.partPaths

end MarkupTree

open MarkupTree

/-- The curves of a shape, of a polygon its rings. -/
def Shape.curves : Shape → List (List Coordinate)
  | .point _ | .multiPoint _ => []
  | .lineString line => [line]
  | .polygon p => p.exterior :: p.interiors
  | .multiLineString lines => lines
  | .multiPolygon polygons => polygons.flatMap fun p => p.exterior :: p.interiors

theorem Shape.flatMap_curves_parts (s : Shape) : s.parts.flatMap curves = s.curves := by
  cases s <;> simp [parts, curves, List.flatMap_map]

/-- A list is cut into positions of the dimension that is stated nearest to it, and all that could
state one states a number. -/
def ListGrouped (path : List MarkupTree) : Prop :=
  ∃ list around ps, path = list :: around ∧ PositionsIn (nearestDimension? around) list ps ∧
    list.dimensionIn (nearestDimension? around) = (nearestDimension? path).getD 2 ∧
    ∀ t ∈ path, t.SoundDimension

/-- A curve is read with the dimension that is stated nearest to it. -/
def CurveAt (path : List MarkupTree) (cs : List Coordinate) : Prop :=
  ∃ line around, path = line :: around ∧ CurveRead (nearestDimension? path) line cs

/-! ### In a part -/

variable {around path : List MarkupTree} {t list : MarkupTree} {s : Shape}

theorem CurveRead.listGrouped {cs : List Coordinate} (h : CurveRead (nearestDimension? around) t cs)
    (hlist : list ∈ t.childElements) (hname : list.name.localPart = "posList")
    (haround : ∀ e ∈ around, e.SoundDimension) : ListGrouped (list :: around) := by
  obtain ⟨runs, -, hruns⟩ := h.runs
  obtain ⟨ps, -, hps⟩ := forall₂_mem hruns hlist
  refine ⟨list, around, ps, rfl, hps, by rw [nearestDimension?_cons, dimensionIn], ?_⟩
  refine List.forall_mem_cons.2 ⟨?_, haround⟩
  cases hps with
  | list _ hsound => exact hsound
  | single hname' | tuples hname' =>
    rw [hname] at hname'
    exact absurd hname' (by decide)

namespace PartRead

/-- Every list in a geometry with no members is in the dimension stated nearest to it. -/
theorem listGrouped (around : List MarkupTree) (h : PartRead (nearestDimension? around) t s)
    (hpath : t.HoldsList path) (haround : ∀ e ∈ around, e.SoundDimension) : ListGrouped (path ++ around) := by
  have hall : ∀ e ∈ t :: around, e.SoundDimension := List.forall_mem_cons.2 ⟨h.sound, haround⟩
  cases hpath with
  | member hmultiple =>
    rw [h.tree_single] at hmultiple
    cases hmultiple
  | line hnamed hlist hposList =>
    cases h with
    | curve _ hline =>
      have hread := hline.curve
      rw [← nearestDimension?_cons] at hread
      exact hread.listGrouped hlist hposList hall
    | point hname | polygon hname => simp [isNamed, hname] at hnamed
  | @ring _ boundary ring _ hnamed hboundary hring hlist hposList =>
    cases h with
    | polygon _ _ hpolygon =>
      obtain ⟨cs, hread⟩ := hpolygon.boundaries boundary hboundary
      obtain ⟨only, honly, -, hline⟩ := hread.ring
      obtain rfl : ring = only := by simpa [honly] using hring
      have hread := hline.curve
      rw [← nearestDimension?_cons, ← nearestDimension?_cons] at hread
      exact hread.listGrouped hlist hposList (List.forall_mem_cons.2 ⟨hline.sound, hall⟩)
    | point hname => simp [isNamed, hname] at hnamed
    | curve hname => rcases hname with hname | hname <;> simp [isNamed, hname] at hnamed

/-- Every curve that is kept of a geometry with no members is in the dimension stated nearest. -/
theorem curvesAt (around : List MarkupTree) (h : PartRead (nearestDimension? around) t s) :
    List.Forall₂ CurveAt (t.partPaths.map (· ++ around)) s.curves := by
  cases h with
  | point hname =>
    have hnone : t.partPaths = [] := by simp [partPaths, isNamed, hname]
    rw [hnone]
    exact .nil
  | @curve line hname hline =>
    have hone : t.partPaths = [[t]] := by rcases hname with hname | hname <;> simp [partPaths, isNamed, hname]
    have hread := hline.curve
    rw [← nearestDimension?_cons] at hread
    rw [hone]
    exact .cons ⟨t, around, rfl, hread⟩ .nil
  | @polygon p hname _ hpolygon =>
    have hrings {boundary : MarkupTree} {cs : List Coordinate}
        (hread : BoundaryRead (t.dimension? <|> nearestDimension? around) boundary cs) :
        List.Forall₂ CurveAt ((boundary.childElements.map fun ring => [ring, t]).map (· ++ around)) [cs] := by
      obtain ⟨ring, hring, -, hline⟩ := hread.ring
      have hcurve := hline.curve
      rw [← nearestDimension?_cons, ← nearestDimension?_cons] at hcurve
      rw [hring]
      exact .cons ⟨ring, t :: around, rfl, hcurve⟩ .nil
    obtain ⟨last, hlast, hexterior⟩ := hpolygon.exterior
    have hpaths : t.partPaths = (last :: t.interiors).flatMap fun boundary =>
        boundary.childElements.map fun ring => [ring, t] := by
      simp [partPaths, isNamed, hname, hlast]
    have hboundaries := List.Forall₂.cons hexterior hpolygon.interiors
    rw [hpaths, List.map_flatMap, Shape.curves, ← List.flatMap_singleton' (p.exterior :: p.interiors)]
    exact List.rel_flatMap hboundaries fun _ _ hread => hrings hread

end PartRead

/-! ### In a whole geometry -/

theorem ShapeIn.listGrouped (h : ShapeIn none t s) (hpath : t.HoldsList path) : ListGrouped path := by
  cases h with
  | single hpart =>
    have hgrouped := PartRead.listGrouped [] hpart hpath nofun
    rwa [List.append_nil] at hgrouped
  | members hmultiple _ hsound _ hparts =>
    cases hpath with
    | line hnamed | ring hnamed =>
      rw [isMultiple_of_isNamed hnamed (by decide)] at hmultiple
      cases hmultiple
    | @member _ member path _ hmember hinside =>
      obtain ⟨part, -, hpart⟩ := forall₂_mem hparts hmember
      exact PartRead.listGrouped [t] (by simpa using hpart) hinside (by simpa using hsound)

theorem ShapeIn.curvesAt (h : ShapeIn none t s) : List.Forall₂ CurveAt t.curvePaths s.curves := by
  cases h with
  | single hpart =>
    have hcurves := PartRead.curvesAt [] hpart
    simpa [curvePaths, hpart.tree_single] using hcurves
  | members hmultiple _ _ _ hparts =>
    rw [curvePaths, if_pos hmultiple, ← s.flatMap_curves_parts]
    exact List.rel_flatMap hparts fun _ _ hpart => PartRead.curvesAt [t] (by simpa using hpart)

namespace Cursor

/-- In a geometry that is read, every position list and every curve that is kept is cut into
positions of the dimension stated nearest to it, and nothing that could state a dimension states
anything but a number. So if anything does, the geometry cannot be read. -/
theorem geometry_dimensions (srs : Option String) (c : Cursor) :
    (∀ g c', readGeometry srs c = .ok g c' →
      ∃ t closing c'', AllStops closing ∧ (c'.event ≠ .endDocument → closing = [] ∧ c'' = c') ∧
        (c.facing (c.readings ++ closing)).Spans t c'' ∧ (∀ path, t.HoldsList path → ListGrouped path) ∧
        List.Forall₂ CurveAt t.curvePaths g.shape.curves) ∧
    (∀ t d path e, c.Spans t d → t.HoldsList path → e ∈ path → ¬e.SoundDimension →
      ∀ g c', readGeometry srs c ≠ .ok g c') := by
  refine ⟨fun g c' h => ?_, fun t d path e hspans hpath he hunsound g c' h => ?_⟩
  · obtain ⟨t, closing, c'', hall, hwhole, hspans, hread⟩ := exists_geometryIn h
    exact ⟨t, closing, c'', hall, hwhole, hspans, fun path => hread.shape.listGrouped,
      hread.shape.curvesAt⟩
  · obtain ⟨t', closing, c'', -, -, hspans', hread⟩ := exists_geometryIn h
    obtain rfl := (hspans.append closing).unique hspans'
    obtain ⟨-, -, -, -, -, -, hsound⟩ := hread.shape.listGrouped hpath
    exact hunsound (hsound e he)

/-- A surface in three dimensions with a ring in two, whose member property states another one; and
the same where the polygon states none that is a number. -/
theorem geometry_dimensions_surface :
    let tree (localPart dimension : String) (children : List MarkupNode) : MarkupTree :=
      ⟨⟨some Space.gml, localPart, by decide⟩,
        if dimension = "" then [] else [⟨.unqualified "srsDimension", dimension⟩], children⟩
    let ring (dimension text : String) :=
      tree "LinearRing" dimension [.element (tree "posList" "" [.text text])]
    let surface (dimension : String) := tree "MultiSurface" "3" [.element (tree "surfaceMember" "2"
      [.element (tree "Polygon" dimension [
        .element (tree "exterior" "" [.element (ring "2" "0 0 1 1 2 2")]),
        .element (tree "interior" "2" [.element (ring "" "0 0 0 1 1 1")])])])]
    (∃ g c', readGeometry none (atTree (surface "")) = .ok g c' ∧
      List.Forall₂ CurveAt (surface "").curvePaths g.shape.curves ∧
      g.shape.curves.map (·.map (·.ordinates.length)) = [[2, 2, 2], [3, 3]]) ∧
    ∀ g c', readGeometry none (atTree (surface "x")) ≠ .ok g c' := by
  intro tree ring surface
  constructor
  · have hread : told? (fun g c => (c.event, c.readings.length,
        g.shape.curves.map (·.map (·.ordinates.length)))) (readGeometry none (atTree (surface ""))) =
          some (.endElement (surface "").name, 0, [[2, 2, 2], [3, 3]]) := by decide +kernel
    obtain ⟨g, c', h, htold⟩ := told?_eq_some.1 hread
    obtain ⟨hevent, htold⟩ := Prod.mk.inj htold
    obtain ⟨hleft, hsizes⟩ := Prod.mk.inj htold
    obtain ⟨t, closing, c'', -, hwhole, hspans, -, hcurves⟩ :=
      (geometry_dimensions none (atTree (surface ""))).1 g c' h
    obtain ⟨rfl, rfl⟩ := hwhole (by rw [hevent]; nofun)
    rw [List.append_nil, facing_self] at hspans
    obtain rfl := hspans.unique (spans_atTree (List.length_eq_zero_iff.1 hleft) hevent)
    exact ⟨g, c'', h, hcurves, hsizes⟩
  · have hspans : (atTree (surface "x")).Spans (surface "x")
        ((ofReadings []).moved 0 (.endElement (surface "x").name) []) := spans_atTree rfl rfl
    refine (geometry_dimensions none (atTree (surface "x"))).2 (surface "x") _ _ _ hspans
      (.member (by decide +kernel) (.head _) (.ring (by decide +kernel) (.head _) (.head _) (.head _) rfl))
      (.tail _ (.tail _ (.head _))) (by decide +kernel)

end Cursor

end FeatureMarkup

import FeatureMarkup.Proofs.Cursor.Calls
import FeatureMarkup.Proofs.Geometry.Extent

/-! Readers of geometries come to an end.

A geometry is read by loops over children, one inside the other, and by a recursion for the
members of a multiple geometry. What each loop does with a child is named here, as it stands in the
reader; none of it goes back, so every loop halts. A member is begun behind the start of its
element and behind that of the property around it, so the recursion halts too. All of it is frugal
with steps: a child lives on the events of its own element. -/
namespace FeatureMarkup.Cursor

open Xml (Attribute)

variable {α σ : Type}

/-! ### The loops -/

/-- Reads one child of a point. -/
def pointChild (name : Name) (attributes : List Attribute) (_ : Option Coordinate) :
    CursorM (Option Coordinate) :=
  match name.localPart with
  | "pos" => some <$> singlePosition
  | "coordinates" => List.head? <$> tuplePositions attributes
  | _ => failChild name

theorem readPoint_eq : readPoint = (foldChildren pointChild none >>= fun read =>
    match read.2 with
    | some position => pure position
    | none => failGeometry .missingPosition) :=
  rfl

/-- Reads one child of a curve, before those read already. -/
def curveChild (dimension : Option Nat) (name : Name) (attributes : List Attribute)
    (runs : List (List Coordinate)) : CursorM (List (List Coordinate)) :=
  (· :: runs) <$> curvePositions dimension name attributes

theorem readCurve_eq (dimension : Option Nat) :
    readCurve dimension = (foldChildren (curveChild dimension) [] >>= fun read =>
      if read.2.reverse.flatten.length < 2 then
        failGeometry .shortCurve >>= fun _ : Unit => pure read.2.reverse.flatten
      else pure read.2.reverse.flatten) :=
  rfl

/-- Reads one child of a polygon: a boundary. -/
def polygonChild (dimension : Option Nat) (name : Name) (_ : List Attribute)
    (read : Option (List Coordinate) × List (List Coordinate)) :
    CursorM (Option (List Coordinate) × List (List Coordinate)) :=
  match read with
  | (exterior, interiors) =>
    match name.localPart with
    | "exterior" | "outerBoundaryIs" => do return (some (← readRing dimension), interiors)
    | "interior" | "innerBoundaryIs" => do return (exterior, interiors ++ [← readRing dimension])
    | _ => failChild name

theorem readPolygon_eq (dimension : Option Nat) :
    readPolygon dimension = (foldChildren (polygonChild dimension) (none, []) >>= fun read =>
      match read.2.1 with
      | some exterior => pure { exterior, interiors := read.2.2 }
      | none => failGeometry .missingExterior) :=
  rfl

/-- Reads one member of a multiple geometry. -/
def memberChild (member : CursorM Geometry) (_ : Name) (_ : List Attribute) (members : List Geometry) :
    CursorM (List Geometry) :=
  (members ++ [·]) <$> member

/-- Reads one property of a multiple geometry, with the members in it. -/
def membersChild (member : CursorM Geometry) (_ : Name) (_ : List Attribute) (members : List Geometry) :
    CursorM (List Geometry) := do
  let (_, members) ← foldChildren (memberChild member) members
  return members

theorem readMembers_eq (member : CursorM Geometry) :
    readMembers member = (foldChildren (membersChild member) [] >>= fun read => pure read.2) :=
  rfl

/-! None of them goes back, so all of them halt. -/

theorem haltsOver_corner : HaltsOver corner :=
  haltsOver fun name attributes corners => (elementReader_corner name attributes corners).forward

theorem haltsOver_pointChild : HaltsOver pointChild := by
  refine haltsOver fun name attributes _ => ?_
  unfold pointChild
  split
  · exact elementReader_singlePosition.map.forward
  · exact (elementReader_tuplePositions attributes).map.forward
  · exact .fail _

theorem haltsOver_curveChild (dimension : Option Nat) : HaltsOver (curveChild dimension) :=
  haltsOver fun name attributes _ => (elementReader_curvePositions dimension name attributes).map.forward

theorem haltsOver_polygonChild (dimension : Option Nat) : HaltsOver (polygonChild dimension) := by
  have hring := (elementReader_readRing dimension).forward
  refine haltsOver fun name _ ⟨exterior, interiors⟩ => ?_
  dsimp only [polygonChild]
  split
  · exact hring.bind fun _ => .pure _
  · exact hring.bind fun _ => .pure _
  · exact hring.bind fun _ => .pure _
  · exact hring.bind fun _ => .pure _
  · exact .fail _

section Members
variable {member : CursorM Geometry}

theorem forward_memberChild (hmember : Forward member) (name : Name) (attributes : List Attribute)
    (members : List Geometry) : Forward (memberChild member name attributes members) :=
  hmember.map _

theorem forward_membersChild (hmember : Forward member) (name : Name) (attributes : List Attribute)
    (members : List Geometry) : Forward (membersChild member name attributes members) :=
  .bind (.foldChildren (forward_memberChild hmember) members) fun _ => .pure _

end Members

/-! ### The recursion -/

/-- One level of a geometry, from how those inside it are read. Around it there are a reference
system and a dimension. -/
def geometryRound (inside : Option String × Option Nat → CursorM Geometry)
    (around : Option String × Option Nat) : CursorM Geometry := do
  let (name, attributes) ← gmlElement
  let srs := Attribute.find? attributes none "srsName" <|> around.1
  let id := Attribute.find? attributes (some Space.gml32) "id" <|>
    Attribute.find? attributes (some Space.gml) "id"
  let dimension := (← statedDimension attributes) <|> around.2
  note .debug s!"Parsing geometry {name} (srs: {Text.Quoted.encodeOption srs})"
  let members := readMembers (inside (srs, dimension))
  let shape ← match name.localPart with
    | "Point" => .point <$> readPoint
    | "LineString" | "LinearRing" => .lineString <$> readCurve dimension
    | "Polygon" => .polygon <$> readPolygon dimension
    | "MultiPoint" => .multiPoint <$> (members >>= membersOf name Shape.point?)
    | "MultiCurve" | "MultiLineString" =>
      .multiLineString <$> (members >>= membersOf name Shape.lineString?)
    | "MultiSurface" | "MultiPolygon" =>
      .multiPolygon <$> (members >>= membersOf name Shape.polygon?)
    | _ => fail (.unsupportedGeometry name)
  return { id, srs, shape }

/-- A geometry in so many levels at most. As many as `Tape.enough` allows are what `readGeometry`
allows. -/
def geometryIn (depth : Nat) (around : Option String × Option Nat) : CursorM Geometry :=
  geometryWithin depth around.1 around.2

/-- A member is begun behind the start of its own element, at least. -/
theorem alike_readMembers {limit : Nat} {member member' : CursorM Geometry} (hmember : Forward member')
    (h : AlikeBelow limit member member') :
    AlikeBelow (limit + 1) (readMembers member) (readMembers member') := by
  rw [readMembers_eq, readMembers_eq]
  have hinner (members : List Geometry) :=
    AlikeBelow.foldChildren (forward_memberChild hmember) (fun _ _ _ => h.map _) members
  refine .bind_same (.foldChildren (forward_membersChild hmember) (fun _ _ members => ?_) []) _
  exact .bind_same ((hinner members).mono (Nat.le_succ limit)) _

theorem shrinks_geometryRound : Shrinks geometryRound := by
  intro limit inside inside' hforward hinside around
  refine .same_bind still_gmlElement.forward fun ⟨name, attributes⟩ =>
    .same_bind (steady_statedDimension attributes).still.forward fun stated =>
      .same_bind (Still.note _ _).forward fun _ => ?_
  have hmembers := alike_readMembers (hforward _)
    (hinside (Attribute.find? attributes none "srsName" <|> around.1, stated <|> around.2))
  dsimp only
  -- only the members of a multiple geometry are read by the recursion
  split
  case h_5 | h_6 | h_7 | h_8 | h_9 => exact ((hmembers.bind_same _).map _).bind_same _
  all_goals exact .refl _

theorem forward_geometryIn (depth : Nat) (around : Option String × Option Nat) :
    Forward (geometryIn depth around) :=
  (elementReader_geometryWithin depth around.1 around.2).forward

/-- Geometries inside geometries come to an end. -/
theorem halts_geometryIn : Halts geometryRound geometryIn :=
  .of_shrinks (fun _ _ => rfl) shrinks_geometryRound forward_geometryIn

/-! ### Steps -/

theorem idle_numbers (tokens : List String) : Idle (numbers tokens) := by
  refine .mapM (fun token => ?_) tokens
  split
  · exact .pure _
  · exact .fail _

theorem idle_statedDimension (attributes : List Attribute) : Idle (statedDimension attributes) := by
  unfold statedDimension
  split
  · exact .pure _
  · split
    · exact .pure _
    · exact .fail _

theorem idle_position {problem : GeometryProblem} (ordinates : List Float) :
    Idle (match Coordinate.ofOrdinates? ordinates with
      | some position => pure position
      | none => failGeometry problem) := by
  split
  · exact .pure _
  · exact .fail _

theorem frugal_singlePosition : Frugal singlePosition :=
  frugal_elementText.bind_idle fun _ => (idle_numbers _).bind fun _ => idle_position _

theorem idle_tuplePosition (separator tuple : String) : Idle (tuplePosition separator tuple) :=
  (idle_numbers _).bind fun _ => idle_position _

theorem frugal_tuplePositions (attributes : List Attribute) : Frugal (tuplePositions attributes) :=
  frugal_elementText.bind_idle fun _ => .mapM (idle_tuplePosition _) _

theorem idle_listPositions (dimension : Nat) (text : String) : Idle (listPositions dimension text) :=
  .guard (.bind (idle_numbers _) fun _ => .guard (.pure _))

theorem idle_gmlElement : Idle gmlElement := by
  refine .get fun c => ?_
  split
  · exact .ite (.pure _) (.fail _)
  · exact .fail _

theorem frugal_corner (name : Name) (attributes : List Attribute) (corners : Corners) :
    Frugal (corner name attributes corners) := by
  unfold corner
  split
  · exact frugal_singlePosition.bind_idle fun _ => .pure _
  · exact frugal_singlePosition.bind_idle fun _ => .pure _
  · exact frugal_singlePosition.bind_idle fun _ => .pure _
  · exact (frugal_tuplePositions attributes).bind_idle fun _ => .pure _
  · exact .fail _

theorem frugal_readEnvelope (srs : Option String) : Frugal (readEnvelope srs) := by
  refine .idle_bind idle_gmlElement fun element => .guard ?_
  refine (Affords.foldChildren frugal_corner _).bind_idle fun read => ?_
  dsimp only
  split
  · exact .pure _
  · exact .fail _

theorem frugal_pointChild (name : Name) (attributes : List Attribute) (position : Option Coordinate) :
    Frugal (pointChild name attributes position) := by
  unfold pointChild
  split
  · exact frugal_singlePosition.map _
  · exact (frugal_tuplePositions attributes).map _
  · exact .fail _

theorem frugal_readPoint : Frugal readPoint := by
  rw [readPoint_eq]
  refine (Affords.foldChildren frugal_pointChild _).bind_idle fun read => ?_
  split
  · exact .pure _
  · exact .fail _

theorem frugal_curvePositions (dimension : Option Nat) (name : Name) (attributes : List Attribute) :
    Frugal (curvePositions dimension name attributes) := by
  unfold curvePositions
  split
  · exact .idle_bind (idle_statedDimension attributes) fun _ =>
      frugal_elementText.bind_idle fun text => idle_listPositions _ text
  · exact frugal_singlePosition.bind_idle fun _ => .pure _
  · exact frugal_tuplePositions attributes
  · exact .fail _

theorem frugal_readCurve (dimension : Option Nat) : Frugal (readCurve dimension) := by
  rw [readCurve_eq]
  refine (Affords.foldChildren (fun name attributes _ => ?_) _).bind_idle fun _ => .guard (.pure _)
  exact (frugal_curvePositions dimension name attributes).map _

/-- A boundary lives on the start of its ring, which pays for the end of the boundary too. -/
theorem frugal_readRing (dimension : Option Nat) : Frugal (readRing dimension) := by
  unfold readRing
  rw [← Tape.run_cursor nextTag]
  refine .nextTag_bind (fun name attributes => ?_) (fun _ => .fail _) (.fail _)
  refine .guard (.idle_bind (idle_statedDimension attributes) fun stated => ?_)
  refine ((frugal_readCurve _).frame 1).bind fun ring => ?_
  exact .nextTag_bind (fun _ _ => .fail _) (fun _ => .pure _) (.fail _)

theorem frugal_polygonChild (dimension : Option Nat) (name : Name) (attributes : List Attribute)
    (read : Option (List Coordinate) × List (List Coordinate)) :
    Frugal (polygonChild dimension name attributes read) := by
  obtain ⟨exterior, interiors⟩ := read
  have hring := frugal_readRing dimension
  dsimp only [polygonChild]
  split
  · exact hring.bind_idle fun _ => .pure _
  · exact hring.bind_idle fun _ => .pure _
  · exact hring.bind_idle fun _ => .pure _
  · exact hring.bind_idle fun _ => .pure _
  · exact .fail _

theorem frugal_readPolygon (dimension : Option Nat) : Frugal (readPolygon dimension) := by
  rw [readPolygon_eq]
  refine (Affords.foldChildren (frugal_polygonChild dimension) _).bind_idle fun read => ?_
  split
  · exact .pure _
  · exact .fail _

theorem idle_membersOf (container : Name) (kind : Shape → Option α) (members : List Geometry) :
    Idle (membersOf container kind members) := by
  unfold membersOf
  split
  · exact .pure _
  · exact .fail _

theorem frugal_readMembers {member : CursorM Geometry} (hmember : Frugal member) :
    Frugal (readMembers member) := by
  rw [readMembers_eq]
  refine (Affords.foldChildren (fun _ _ members => ?_) _).bind_idle fun _ => .pure _
  exact (Affords.foldChildren (fun _ _ _ => hmember.map _) members).bind_idle fun _ => .pure _

theorem frugal_geometryWithin (depth : Nat) (srs : Option String) (dimension : Option Nat) :
    Frugal (geometryWithin depth srs dimension) := by
  induction depth generalizing srs dimension with
  | zero => exact .failMarkup _
  | succ depth ih =>
    have hend {m : CursorM Shape} (hm : Frugal m) (finish : Shape → Geometry) :
        Frugal (m >>= fun shape => pure (finish shape)) :=
      hm.bind_idle fun _ => .pure _
    have hmembers {β : Type} (srs : Option String) (dimension : Option Nat) (container : Name)
        (kind : Shape → Option β) :
        Frugal (readMembers (geometryWithin depth srs dimension) >>= membersOf container kind) :=
      (frugal_readMembers (ih srs dimension)).bind_idle fun _ => idle_membersOf _ _ _
    unfold geometryWithin
    refine .idle_bind idle_gmlElement fun element => ?_
    obtain ⟨name, attributes⟩ := element
    refine .idle_bind (idle_statedDimension attributes) fun stated => .idle_bind (.notes _) fun _ => ?_
    dsimp only
    split
    · exact hend (frugal_readPoint.map _) _
    · exact hend ((frugal_readCurve _).map _) _
    · exact hend ((frugal_readCurve _).map _) _
    · exact hend ((frugal_readPolygon _).map _) _
    · exact hend ((hmembers _ _ _ _).map _) _
    · exact hend ((hmembers _ _ _ _).map _) _
    · exact hend ((hmembers _ _ _ _).map _) _
    · exact hend ((hmembers _ _ _ _).map _) _
    · exact hend ((hmembers _ _ _ _).map _) _
    · exact hend (.fail _) _

theorem frugal_readGeometry (srs : Option String) : Frugal (readGeometry srs) :=
  .get fun _ => frugal_geometryWithin _ srs none

end FeatureMarkup.Cursor

import FeatureMarkup.Geometry.Positions
import FeatureMarkup.Text.Quoted

/-! Reading geometries and envelopes.

A reader of geometries is two functions, each called with the cursor at the start of
an element and the reference system to assume, and each to leave the cursor at its
end. `GeometryReader.standard` reads the simple shapes of the markup language, with
the names of its older version too. A multiple geometry hands its reference system
and its dimension down to its members. -/
namespace FeatureMarkup

open Xml (Attribute)

/-- What reads geometries and envelopes. -/
structure GeometryReader where
  geometry : (srs : Option String) → CursorM Geometry
  envelope : (srs : Option String) → CursorM Envelope

namespace Cursor

/-- The element of the markup language that the cursor is at the start of. -/
def gmlElement : CursorM (Name × List Attribute) := do
  match (← get).event with
  | .startElement name attributes =>
    if Space.isGml name.space then return (name, attributes)
    else fail (.unsupportedGeometry name)
  | _ => failMarkup .noGeometryElement

/-- Fails for a child that has no place here. -/
def failChild (name : Name) : CursorM α :=
  failGeometry (.unexpectedElement name.localPart)

/-! ### Envelopes -/

/-- The corners of an envelope met so far: the named ones, and others in order. -/
structure Corners where
  lower : Option Coordinate
  upper : Option Coordinate
  others : List Coordinate

/-- The lower and the upper corner: the named one, or the first of the others that is
left. -/
def Corners.pair? (c : Corners) : Option (Coordinate × Coordinate) :=
  match c.lower, c.upper, c.others with
  | some lower, some upper, _ => some (lower, upper)
  | some lower, none, upper :: _ => some (lower, upper)
  | none, some upper, lower :: _ => some (lower, upper)
  | none, none, lower :: upper :: _ => some (lower, upper)
  | _, _, _ => none

/-- Reads one child of an envelope. -/
def corner (name : Name) (attributes : List Attribute) (c : Corners) : CursorM Corners := do
  match name.localPart with
  | "lowerCorner" => return { c with lower := some (← singlePosition) }
  | "upperCorner" => return { c with upper := some (← singlePosition) }
  | "pos" => return { c with others := c.others ++ [← singlePosition] }
  | "coordinates" => return { c with others := c.others ++ (← tuplePositions attributes) }
  | _ => failChild name

/-- Reads an envelope. -/
def readEnvelope (srs : Option String) : CursorM Envelope := do
  let (name, attributes) ← gmlElement
  if name.localPart ≠ "Envelope" ∧ name.localPart ≠ "Box" then
    fail (.unsupportedGeometry name)
  let srs := Attribute.find? attributes none "srsName" <|> srs
  let (_, corners) ← foldChildren corner ⟨none, none, []⟩
  match corners.pair? with
  | some (lower, upper) => return { lower, upper, srs }
  | none => failGeometry .missingCorner

/-! ### Points and curves -/

/-- Reads the position of a point. -/
def readPoint : CursorM Coordinate := do
  let (_, position) ← foldChildren (fun name attributes _ =>
    match name.localPart with
    | "pos" => some <$> singlePosition
    | "coordinates" => List.head? <$> tuplePositions attributes
    | _ => failChild name) none
  match position with
  | some position => return position
  | none => failGeometry .missingPosition

/-- Reads one child of a curve, with the dimension in force around it. -/
def curvePositions (dimension : Option Nat) (name : Name) (attributes : List Attribute) :
    CursorM (List Coordinate) := do
  match name.localPart with
  | "posList" =>
    let stated ← statedDimension attributes
    listPositions ((stated <|> dimension).getD 2) (← elementText)
  | "pos" => return [← singlePosition]
  | "coordinates" => tuplePositions attributes
  | _ => failChild name

/-- Reads the positions of a curve: two at least. -/
def readCurve (dimension : Option Nat) : CursorM (List Coordinate) := do
  let (_, runs) ← foldChildren (fun name attributes runs =>
    (· :: runs) <$> curvePositions dimension name attributes) []
  let positions := runs.reverse.flatten
  if positions.length < 2 then
    failGeometry .shortCurve
  return positions

/-! ### Surfaces -/

/-- Reads a boundary: one ring and nothing else. -/
def readRing (dimension : Option Nat) : CursorM (List Coordinate) := do
  match ← nextTag with
  | .start name attributes =>
    if name.localPart ≠ "LinearRing" then
      failGeometry .notARing
    let stated ← statedDimension attributes
    let ring ← readCurve (stated <|> dimension)
    match ← nextTag with
    | .stop _ => return ring
    | _ => failGeometry .moreThanOneRing
  | _ => failGeometry .notARing

/-- Reads the boundaries of a polygon. -/
def readPolygon (dimension : Option Nat) : CursorM Polygon := do
  let (_, exterior, interiors) ← foldChildren (fun name _ (exterior, interiors) =>
    match name.localPart with
    | "exterior" | "outerBoundaryIs" => do return (some (← readRing dimension), interiors)
    | "interior" | "innerBoundaryIs" => do return (exterior, interiors ++ [← readRing dimension])
    | _ => failChild name) (none, [])
  match exterior with
  | some exterior => return { exterior, interiors }
  | none => failGeometry .missingExterior

/-! ### Geometries -/

/-- The position that a member of a multiple geometry is. -/
def Shape.point? : Shape → Option Coordinate
  | .point position => some position
  | _ => none

/-- The line that a member of a multiple geometry is. -/
def Shape.lineString? : Shape → Option (List Coordinate)
  | .lineString line => some line
  | _ => none

/-- The polygon that a member of a multiple geometry is. -/
def Shape.polygon? : Shape → Option Polygon
  | .polygon polygon => some polygon
  | _ => none

/-- What the members of a multiple geometry are, if each is of the right kind. -/
def membersOf (container : Name) (kind : Shape → Option α) (members : List Geometry) :
    CursorM (List α) :=
  match members.mapM fun member => kind member.shape with
  | some shapes => pure shapes
  | none => failGeometry (.wrongMember container.localPart)

/-- Reads the members of a multiple geometry with `member`: each child is a property
that holds any number of them. -/
def readMembers (member : CursorM Geometry) : CursorM (List Geometry) := do
  let (_, members) ← foldChildren (fun _ _ members => do
    let (_, members) ← foldChildren (fun _ _ members => (members ++ [·]) <$> member) members
    return members) []
  return members

/-- Reads a geometry, multiple geometries being nested so deep at most, with the
reference system and the dimension in force around it. -/
def geometryWithin : Nat → (srs : Option String) → (dimension : Option Nat) → CursorM Geometry
  | 0, _, _ => failMarkup .endOfDocument
  | depth + 1, srs, dimension => do
    let (name, attributes) ← gmlElement
    let srs := Attribute.find? attributes none "srsName" <|> srs
    let id := Attribute.find? attributes (some Space.gml32) "id" <|>
      Attribute.find? attributes (some Space.gml) "id"
    let dimension := (← statedDimension attributes) <|> dimension
    note .debug s!"Parsing geometry {name} (srs: {Text.Quoted.encodeOption srs})"
    let members := readMembers (geometryWithin depth srs dimension)
    let shape ← match name.localPart with
      | "Point" => .point <$> readPoint
      | "LineString" | "LinearRing" => .lineString <$> readCurve dimension
      | "Polygon" => .polygon <$> readPolygon dimension
      | "MultiPoint" => .multiPoint <$> (members >>= membersOf name Shape.point?)
      | "MultiCurve" | "MultiLineString" =>
        .multiLineString <$> (members >>= membersOf name Shape.lineString?)
      | "MultiSurface" | "MultiPolygon" =>
        .multiPolygon <$> (members >>= membersOf name Shape.polygon?)
      | _ => fail (.unsupportedGeometry name)
    return { id, srs, shape }

/-- Reads a geometry. Every level of nesting takes a reading, so there are no more of
them than readings. -/
def readGeometry (srs : Option String) : CursorM Geometry := do
  geometryWithin ((← get).remaining + 1) srs none

end Cursor

/-- The reader of the simple shapes of the markup language. -/
def GeometryReader.standard : GeometryReader :=
  ⟨Cursor.readGeometry, Cursor.readEnvelope⟩

end FeatureMarkup

/-! Geometries: positions, and shapes made of them. -/
namespace FeatureMarkup

/-- A position with two or three ordinates. -/
structure Coordinate where
  x : Float
  y : Float
  z : Option Float

/-- The position with these ordinates, if they are two or three. -/
def Coordinate.ofOrdinates? : List Float → Option Coordinate
  | [x, y] => some ⟨x, y, none⟩
  | [x, y, z] => some ⟨x, y, some z⟩
  | _ => none

/-- A surface with holes. -/
structure Polygon where
  exterior : List Coordinate
  interiors : List (List Coordinate)

/-- The shape of a geometry. -/
inductive Shape where
  | point (position : Coordinate)
  | lineString (line : List Coordinate)
  | polygon (polygon : Polygon)
  | multiPoint (points : List Coordinate)
  | multiLineString (lines : List (List Coordinate))
  | multiPolygon (polygons : List Polygon)

/-- A shape with an id and a reference system, where it has them. -/
structure Geometry where
  id : Option String
  srs : Option String
  shape : Shape

/-- A box between two corners. -/
structure Envelope where
  lower : Coordinate
  upper : Coordinate
  srs : Option String

end FeatureMarkup

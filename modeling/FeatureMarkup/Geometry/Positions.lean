import FeatureMarkup.Cursor.Reading
import FeatureMarkup.Geometry.Basic

/-! Positions in text.

A single position is two or three numbers; a position list is numbers in groups of
the dimension in force; tuples stand between blanks, each with its numbers between a
separator of the element's own. A number is read without the blanks around it and
reported with them. -/
namespace FeatureMarkup.Cursor

open Xml (Attribute)

/-- Fails for the geometry where the cursor is. -/
def failGeometry (problem : GeometryProblem) : CursorM α :=
  fail (.geometry problem)

/-- The numbers that tokens write. -/
def numbers (tokens : List String) : CursorM (List Float) :=
  tokens.mapM fun token =>
    match Number.parse? (Text.trim token) with
    | some number => pure number
    | none => fail (.malformedNumber token)

/-- The dimension an element states, if it states one. -/
def statedDimension (attributes : List Attribute) : CursorM (Option Nat) := do
  match Attribute.find? attributes none "srsDimension" with
  | none => return none
  | some text =>
    match Number.parseNatural? (Text.trim text) with
    | some dimension => return some dimension
    | none => fail (.malformedNumber text)

/-- The one position in an element's text. -/
def singlePosition : CursorM Coordinate := do
  let ordinates ← numbers (Text.words (← elementText))
  match Coordinate.ofOrdinates? ordinates with
  | some position => return position
  | none => failGeometry (.ordinateCount ordinates.length)

/-- The position of one tuple. -/
def tuplePosition (separator tuple : String) : CursorM Coordinate := do
  let ordinates ← numbers (Text.fields separator tuple)
  match Coordinate.ofOrdinates? ordinates with
  | some position => return position
  | none => failGeometry (.badTuple tuple)

/-- The positions of the tuples in an element's text; the element may state what
separates ordinates. -/
def tuplePositions (attributes : List Attribute) : CursorM (List Coordinate) := do
  let separator := (Attribute.find? attributes none "cs").getD ","
  (Text.words (← elementText)).mapM (tuplePosition separator)

/-- So many groups of `size` elements, one after another. -/
def takeGroups (size : Nat) : Nat → List α → List (List α)
  | 0, _ => []
  | count + 1, values => values.take size :: takeGroups size count (values.drop size)

/-- A list cut into groups of `size`, what is left over being dropped. -/
def groupsOf (size : Nat) (values : List α) : List (List α) :=
  takeGroups size (values.length / size) values

/-- The positions in the text of a position list. -/
def listPositions (dimension : Nat) (text : String) : CursorM (List Coordinate) := do
  if dimension < 2 ∨ 3 < dimension then
    failGeometry (.unsupportedDimension dimension)
  let ordinates ← numbers (Text.words text)
  if ordinates.length % dimension ≠ 0 then
    failGeometry (.unevenPositions ordinates.length dimension)
  return (groupsOf dimension ordinates).filterMap Coordinate.ofOrdinates?

end FeatureMarkup.Cursor

import Mathlib.Data.List.Flatten
import Mathlib.Data.List.Perm.Subperm
import Mathlib.Data.List.TakeWhile
import FeatureMarkup.Proofs.Markup.Acceptance
import FeatureMarkup.Geometry.Reader

/-! The numbers that are written in a geometry, and those that its reader keeps.

Positions are written in the text of some elements, as tokens in groups: a group for each tuple
of `coordinates`, one for all the text of any other. `written` is every group inside an element.
What a reader keeps is less where a part is there more than once: of a point the last position,
of a polygon the last exterior, of an envelope two corners. -/
namespace FeatureMarkup

open Xml (Attribute)

/-! ### Tokens and positions -/

/-- The number that a token writes, read without the blanks around it. -/
def Number.ofToken? (token : String) : Option Float := Number.parse? (Text.trim token)

/-- The ordinates of a position, in order. -/
def Coordinate.ordinates (p : Coordinate) : List Float := p.x :: p.y :: p.z.toList

theorem Coordinate.ofOrdinates?_eq_some {ordinates : List Float} {p : Coordinate}
    (h : ofOrdinates? ordinates = some p) : p.ordinates = ordinates := by
  unfold ofOrdinates? at h
  split at h <;> cases h <;> rfl

/-- The tokens write the ordinates of the positions, each one of them, in order. -/
def Writes (tokens : List String) (positions : List Coordinate) : Prop :=
  tokens.map Number.ofToken? = (positions.flatMap Coordinate.ordinates).map some

namespace Writes

theorem nil : Writes [] [] := rfl

theorem append {tokens more : List String} {positions others : List Coordinate}
    (h : Writes tokens positions) (h' : Writes more others) :
    Writes (tokens ++ more) (positions ++ others) := by
  unfold Writes at *
  rw [List.map_append, List.flatMap_append, List.map_append, h, h']

/-- What is written part by part is written as a whole. -/
theorem flatMap {α β : Type} {groups : α → List (List String)} {positions : β → List Coordinate}
    {as : List α} {bs : List β}
    (h : List.Forall₂ (fun a b => Writes (groups a).flatten (positions b)) as bs) :
    Writes (as.flatMap groups).flatten (bs.flatMap positions) := by
  induction h with
  | nil => exact .nil
  | cons h _ ih =>
    rw [List.flatMap_cons, List.flatten_append, List.flatMap_cons]
    exact h.append ih

/-- One position is written with two tokens at least. -/
theorem ne_nil {tokens : List String} {p : Coordinate} (h : Writes tokens [p]) : tokens ≠ [] := by
  rintro rfl
  cases h

end Writes

/-- Each group of tokens writes one of the positions. -/
def WritesEach (groups : List (List String)) (positions : List Coordinate) : Prop :=
  List.Forall₂ (fun group p => Writes group [p]) groups positions

theorem WritesEach.writes {groups : List (List String)} {positions : List Coordinate}
    (h : WritesEach groups positions) : Writes groups.flatten positions := by
  induction h with
  | nil => exact .nil
  | cons h _ ih => exact h.append ih

/-! ### Groups of tokens -/

namespace MarkupTree

/-- The words of the text that stands in an element itself. -/
def words (t : MarkupTree) : List String := Text.words (Text.trim t.ownText)

/-- What stands between the ordinates of a tuple in an element. -/
def separator (t : MarkupTree) : String := (Attribute.find? t.attributes none "cs").getD ","

/-- The tokens that an element writes positions with, in groups. -/
def groups (t : MarkupTree) : List (List String) :=
  match t.name.localPart with
  | "pos" | "posList" | "lowerCorner" | "upperCorner" => [t.words].filter (· ≠ [])
  | "coordinates" => t.words.map (Text.fields t.separator)
  | _ => []

theorem groups_of_text {t : MarkupTree}
    (h : t.name.localPart ∈ ["pos", "posList", "lowerCorner", "upperCorner"]) :
    t.groups = [t.words].filter (· ≠ []) := by
  simp only [List.mem_cons, List.not_mem_nil, or_false] at h
  rcases h with h | h | h | h <;> simp only [groups, h]

theorem flatten_groups_of_text {t : MarkupTree}
    (h : t.name.localPart ∈ ["pos", "posList", "lowerCorner", "upperCorner"]) :
    t.groups.flatten = t.words := by
  rw [groups_of_text h]
  cases hwords : t.words <;> simp

theorem groups_of_tuples {t : MarkupTree} (h : t.name.localPart = "coordinates") :
    t.groups = t.words.map (Text.fields t.separator) := by
  simp only [groups, h]

/-- The one position in the text of an element is written by its one group. -/
theorem writesEach_of_position {t : MarkupTree} {p : Coordinate}
    (h : t.name.localPart ∈ ["pos", "posList", "lowerCorner", "upperCorner"])
    (hp : Writes t.words [p]) : WritesEach t.groups [p] := by
  rw [groups_of_text h, List.filter_cons_of_pos (by simpa using hp.ne_nil)]
  exact .cons hp .nil

end MarkupTree

mutual

/-- The groups of tokens inside an element, its own and those of the elements in it. -/
def MarkupTree.written : MarkupTree → List (List String)
  | ⟨name, attributes, children⟩ =>
    MarkupTree.groups ⟨name, attributes, children⟩ ++ MarkupNode.writtenAll children

/-- The groups of tokens inside a node. -/
def MarkupNode.written : MarkupNode → List (List String)
  | .element tree => tree.written
  | .text _ => []

/-- The groups of tokens inside a run of nodes. -/
def MarkupNode.writtenAll : List MarkupNode → List (List String)
  | [] => []
  | node :: rest => node.written ++ MarkupNode.writtenAll rest

end

namespace MarkupTree

theorem written_eq (t : MarkupTree) : t.written = t.groups ++ t.childElements.flatMap written := by
  have hall (nodes : List MarkupNode) :
      MarkupNode.writtenAll nodes = (MarkupNode.trees nodes).flatMap written := by
    induction nodes with
    | nil => rfl
    | cons node nodes ih =>
      rw [MarkupNode.writtenAll, ih]
      cases node <;> rfl
  obtain ⟨name, attributes, children⟩ := t
  rw [written, hall, childElements_eq]

/-- An element with nothing but blank text of its own writes what its children write. -/
theorem written_of_blank {t : MarkupTree} (h : Text.allBlank t.ownText = true) :
    t.written = t.childElements.flatMap written := by
  have htrim : Text.trim t.ownText = "" := by
    have hdrop : t.ownText.toList.dropWhile Text.isBlank = [] := by
      rw [List.dropWhile_eq_nil_iff]
      simpa [Text.allBlank] using h
    simp [Text.trim, Text.trimChars, hdrop]
  have hwords : t.words = [] := by
    rw [words, htrim]
    rfl
  have hgroups : t.groups = [] := by
    unfold groups
    split <;> simp [hwords]
  rw [written_eq, hgroups, List.nil_append]

/-- An element with no elements in it writes its own groups. -/
theorem written_of_leaf {t : MarkupTree} (h : t.childElements = []) : t.written = t.groups := by
  rw [written_eq, h]
  exact List.append_nil _

theorem flatMap_written_of_leaves {trees : List MarkupTree}
    (h : ∀ tree ∈ trees, tree.childElements = []) : trees.flatMap written = trees.flatMap groups :=
  List.flatMap_congr fun tree htree => written_of_leaf (h tree htree)

/-! ### What is kept -/

/-- Whether an element has one of these local names. -/
def isNamed (t : MarkupTree) (names : List String) : Bool := names.contains t.name.localPart

/-- The groups of a curve: all of its children. -/
def curveGroups (t : MarkupTree) : List (List String) := t.childElements.flatMap groups

/-- The groups of a boundary: those of the ring in it. -/
def boundaryGroups (t : MarkupTree) : List (List String) := t.childElements.flatMap curveGroups

/-- The group that the position of a point is read from: the first one of the last child. -/
def pointGroup? (t : MarkupTree) : Option (List String) := t.childElements.getLast?.bind (·.groups.head?)

/-- Whether a boundary is the exterior of a polygon. -/
def isExterior (t : MarkupTree) : Bool := t.isNamed ["exterior", "outerBoundaryIs"]

/-- The boundaries of a polygon that are exteriors. -/
def exteriors (t : MarkupTree) : List MarkupTree := t.childElements.filter isExterior

/-- The other boundaries of a polygon. -/
def interiors (t : MarkupTree) : List MarkupTree := t.childElements.filter (!·.isExterior)

/-- The groups that a geometry with no members is read from. Of a polygon they are those of the
last exterior and of all interiors. -/
def kept (t : MarkupTree) : List (List String) :=
  match t.name.localPart with
  | "Point" => t.pointGroup?.toList
  | "Polygon" => t.exteriors.getLast?.toList.flatMap boundaryGroups ++ t.interiors.flatMap boundaryGroups
  | _ => t.curveGroups

/-- A geometry with no members has each of its parts once. -/
def Single (t : MarkupTree) : Prop :=
  (t.name.localPart = "Point" → t.written.length ≤ 1) ∧
    (t.name.localPart = "Polygon" → t.exteriors.length ≤ 1)

instance (t : MarkupTree) : Decidable t.Single :=
  inferInstanceAs (Decidable ((_ → _) ∧ (_ → _)))

/-- Whether an element is a geometry with members. -/
def isMultiple (t : MarkupTree) : Bool :=
  t.isNamed ["MultiPoint", "MultiCurve", "MultiLineString", "MultiSurface", "MultiPolygon"]

/-- The members of a multiple geometry: whatever stands in its children. -/
def members (t : MarkupTree) : List MarkupTree := t.childElements.flatMap childElements

/-- The geometries that the positions of a geometry come from: its members, if it has members,
else itself. -/
def parts (t : MarkupTree) : List MarkupTree := if t.isMultiple then t.members else [t]

end MarkupTree

/-! ### Shapes -/

/-- The positions of a polygon, the exterior first. -/
def Polygon.positions (p : Polygon) : List Coordinate := p.exterior ++ p.interiors.flatten

namespace Shape

/-- The positions of a shape, in order. -/
def positions : Shape → List Coordinate
  | .point position => [position]
  | .lineString line => line
  | .polygon surface => surface.positions
  | .multiPoint points => points
  | .multiLineString lines => lines.flatten
  | .multiPolygon polygons => polygons.flatMap Polygon.positions

/-- The shapes that a shape is made of: those of its members, if it has members, else itself. -/
def parts : Shape → List Shape
  | .multiPoint points => points.map .point
  | .multiLineString lines => lines.map .lineString
  | .multiPolygon polygons => polygons.map .polygon
  | shape => [shape]

/-- Whether a shape has members. -/
def isMultiple : Shape → Bool
  | .multiPoint _ | .multiLineString _ | .multiPolygon _ => true
  | _ => false

/-- All positions are those of the parts. -/
theorem flatMap_positions_parts (s : Shape) : s.parts.flatMap positions = s.positions := by
  cases s <;> simp [parts, positions, List.flatMap_map]

end Shape

end FeatureMarkup

import FeatureMarkup.Proofs.Cursor.Alike
import FeatureMarkup.Geometry.Reader

/-! Geometries do not depend on how readings are cut.

What is read of an element is its text as a whole and its children one after another, so every
reader of geometries agrees with itself on states that are alike. Geometries inside geometries
are allowed as many levels as there are readings left, on either side. -/
namespace FeatureMarkup.Cursor

open Xml (Attribute)

variable {α : Type} {limit limit' : Nat}

/-! ### Positions -/

theorem readsAlike_numbers (tokens : List String) :
    ReadsAlike limit limit' (numbers tokens) (numbers tokens) := by
  refine .mapM (fun token => ?_) tokens
  cases Number.parse? (Text.trim token) with
  | some number => exact .pure _
  | none => exact .fail _

theorem readsAlike_statedDimension (attributes : List Attribute) :
    ReadsAlike limit limit' (statedDimension attributes) (statedDimension attributes) := by
  unfold statedDimension
  cases Attribute.find? attributes none "srsDimension" with
  | none => exact .pure _
  | some text =>
    dsimp only
    cases Number.parseNatural? (Text.trim text) with
    | some dimension => exact .pure _
    | none => exact .fail _

/-- What becomes of the numbers of a single position. -/
theorem readsAlike_position {problem : GeometryProblem} (ordinates : List Float) :
    let position : CursorM Coordinate := match Coordinate.ofOrdinates? ordinates with
      | some position => pure position
      | none => failGeometry problem
    ReadsAlike limit limit' position position := by
  dsimp only
  cases Coordinate.ofOrdinates? ordinates with
  | some position => exact .pure _
  | none => exact .fail _

theorem readsAlike_singlePosition : ReadsAlike limit limit' singlePosition singlePosition :=
  readsAlike_elementText.bind fun _ => (readsAlike_numbers _).bind fun _ => readsAlike_position _

theorem readsAlike_tuplePosition (separator tuple : String) :
    ReadsAlike limit limit' (tuplePosition separator tuple) (tuplePosition separator tuple) :=
  (readsAlike_numbers _).bind fun _ => readsAlike_position _

theorem readsAlike_tuplePositions (attributes : List Attribute) :
    ReadsAlike limit limit' (tuplePositions attributes) (tuplePositions attributes) :=
  readsAlike_elementText.bind fun _ => .mapM (readsAlike_tuplePosition _) _

theorem readsAlike_listPositions (dimension : Nat) (text : String) :
    ReadsAlike limit limit' (listPositions dimension text) (listPositions dimension text) :=
  .guard ((readsAlike_numbers _).bind fun _ => .guard (.pure _))

/-! ### Envelopes, points and curves -/

theorem readsAlike_gmlElement : ReadsAlike limit limit' gmlElement gmlElement := by
  refine .get fun c c' halike => ?_
  rw [show c'.event = c.event from halike.event]
  cases c.event with
  | startElement name attributes => exact .ite (.pure _) (.fail _)
  | _ => exact .failMarkup _ _

theorem readsAlike_corner (name : Name) (attributes : List Attribute) (corners : Corners) :
    ReadsAlike limit limit' (corner name attributes corners) (corner name attributes corners) := by
  unfold corner
  split
  · exact readsAlike_singlePosition.bind fun _ => .pure _
  · exact readsAlike_singlePosition.bind fun _ => .pure _
  · exact readsAlike_singlePosition.bind fun _ => .pure _
  · exact (readsAlike_tuplePositions attributes).bind fun _ => .pure _
  · exact .fail _

theorem readsAlike_readEnvelope (srs : Option String) :
    ReadsAlike limit limit' (readEnvelope srs) (readEnvelope srs) := by
  refine readsAlike_gmlElement.bind fun ⟨name, attributes⟩ => .guard ?_
  refine (ReadsAlike.children readsAlike_corner _).bind fun ⟨_, corners⟩ => ?_
  dsimp only
  cases corners.pair? with
  | some pair => exact .pure _
  | none => exact .fail _

theorem readsAlike_readPoint : ReadsAlike limit limit' readPoint readPoint := by
  refine (ReadsAlike.children (fun name attributes _ => ?_) none).bind fun ⟨_, position⟩ => ?_
  · split
    · exact readsAlike_singlePosition.map _
    · exact (readsAlike_tuplePositions attributes).map _
    · exact .fail _
  · cases position with
    | some position => exact .pure _
    | none => exact .fail _

theorem readsAlike_curvePositions (dimension : Option Nat) (name : Name)
    (attributes : List Attribute) : ReadsAlike limit limit'
      (curvePositions dimension name attributes) (curvePositions dimension name attributes) := by
  unfold curvePositions
  split
  · exact (readsAlike_statedDimension attributes).bind fun stated =>
      readsAlike_elementText.bind fun text => readsAlike_listPositions _ text
  · exact readsAlike_singlePosition.bind fun _ => .pure _
  · exact readsAlike_tuplePositions attributes
  · exact .fail _

theorem readsAlike_readCurve (dimension : Option Nat) :
    ReadsAlike limit limit' (readCurve dimension) (readCurve dimension) :=
  (ReadsAlike.children (fun name attributes _ =>
    (readsAlike_curvePositions dimension name attributes).map _) []).bind fun _ => .guard (.pure _)

/-! ### Surfaces -/

theorem readsAlike_readRing (dimension : Option Nat) :
    ReadsAlike limit limit' (readRing dimension) (readRing dimension) := by
  refine readsAlike_nextTag.bind fun tag => ?_
  cases tag with
  | stop | finish => exact .fail _
  | start name attributes =>
    refine .guard ((readsAlike_statedDimension attributes).bind fun stated =>
      (readsAlike_readCurve _).bind fun ring => readsAlike_nextTag.bind fun tag => ?_)
    cases tag with
    | stop name => exact .pure _
    | start | finish => exact .fail _

theorem readsAlike_readPolygon (dimension : Option Nat) :
    ReadsAlike limit limit' (readPolygon dimension) (readPolygon dimension) := by
  refine (ReadsAlike.children (fun name _ ⟨exterior, interiors⟩ => ?_) (none, [])).bind
    fun ⟨_, exterior, interiors⟩ => ?_
  · cases exterior with
    | some exterior => exact .pure _
    | none => exact .fail _
  · dsimp only
    split
    · exact (readsAlike_readRing dimension).bind fun _ => .pure _
    · exact (readsAlike_readRing dimension).bind fun _ => .pure _
    · exact (readsAlike_readRing dimension).bind fun _ => .pure _
    · exact (readsAlike_readRing dimension).bind fun _ => .pure _
    · exact .fail _

/-! ### Geometries -/

theorem readsAlike_membersOf (container : Name) (kind : Shape → Option α) (members : List Geometry) :
    ReadsAlike limit limit' (membersOf container kind members) (membersOf container kind members) := by
  unfold membersOf
  cases members.mapM fun member => kind member.shape with
  | some shapes => exact .pure _
  | none => exact .fail _

/-- The tag of a property stands before each member. -/
theorem readsAlike_readMembers {member member' : CursorM Geometry}
    (hm : ReadsAlike limit limit' member member') :
    ReadsAlike (limit + 1) (limit' + 1) (readMembers member) (readMembers member') :=
  (ReadsAlike.foldChildren (fun _ _ members =>
    (ReadsAlike.children (fun _ _ _ => hm.map _) members).bind fun _ => .pure _) []).bind
      fun _ => .pure _

theorem readsAlike_geometryWithin (depth depth' : Nat) (srs : Option String) (dimension : Option Nat) :
    ReadsAlike depth depth' (geometryWithin depth srs dimension)
      (geometryWithin depth' srs dimension) := by
  induction depth generalizing depth' srs dimension with
  | zero => exact fun _ _ _ hs _ => absurd hs (Nat.not_lt_zero _)
  | succ depth ih =>
    obtain _ | depth' := depth'
    · exact fun _ _ _ _ hs' => absurd hs' (Nat.not_lt_zero _)
    unfold geometryWithin
    refine readsAlike_gmlElement.bind fun ⟨name, attributes⟩ =>
      (readsAlike_statedDimension attributes).bind fun stated => (ReadsAlike.note _ _ _).bind fun _ => ?_
    have hmembers := readsAlike_readMembers
      (ih depth' (Attribute.find? attributes none "srsName" <|> srs) (stated <|> dimension))
    dsimp only
    split
    · exact (readsAlike_readPoint.map _).bind fun _ => .pure _
    · exact ((readsAlike_readCurve _).map _).bind fun _ => .pure _
    · exact ((readsAlike_readCurve _).map _).bind fun _ => .pure _
    · exact ((readsAlike_readPolygon _).map _).bind fun _ => .pure _
    · exact ((hmembers.bind fun _ => readsAlike_membersOf _ _ _).map _).bind fun _ => .pure _
    · exact ((hmembers.bind fun _ => readsAlike_membersOf _ _ _).map _).bind fun _ => .pure _
    · exact ((hmembers.bind fun _ => readsAlike_membersOf _ _ _).map _).bind fun _ => .pure _
    · exact ((hmembers.bind fun _ => readsAlike_membersOf _ _ _).map _).bind fun _ => .pure _
    · exact ((hmembers.bind fun _ => readsAlike_membersOf _ _ _).map _).bind fun _ => .pure _
    · exact (ReadsAlike.fail _).bind fun _ => .pure _

theorem readsAlike_readGeometry (srs : Option String) :
    ReadsAlike limit limit' (readGeometry srs) (readGeometry srs) :=
  .enough fun depth depth' => readsAlike_geometryWithin depth depth' srs none

end FeatureMarkup.Cursor

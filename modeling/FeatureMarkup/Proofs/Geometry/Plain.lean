import FeatureMarkup.Geometry.Reader
import FeatureMarkup.Proofs.Cursor.Plain

/-! What geometry readers are put together from.

They move, report and fail where they are, so that no error of theirs has a wrapper and none
depends on what has been reported. They may fail for any cause. -/
namespace FeatureMarkup.Cursor

open Xml (Attribute)

variable {α : Type}

/-! ### Positions -/

theorem anyPlain_fail (cause : Cause) : AnyPlain (fail cause : CursorM α) := .fail trivial

theorem anyPlain_elementText : AnyPlain elementText := plain_elementText fun _ => trivial

theorem anyPlain_foldChildren {σ : Type} {body : Name → List Attribute → σ → CursorM σ}
    (hbody : ∀ name attributes a, AnyPlain (body name attributes a)) (a : σ) :
    AnyPlain (foldChildren body a) :=
  plain_foldChildren (fun _ => trivial) hbody a

theorem anyPlain_elementNumber : AnyPlain elementNumber := by
  refine .bind anyPlain_elementText fun text => ?_
  split
  · exact .pure _
  · exact anyPlain_fail _

theorem anyPlain_numbers (tokens : List String) : AnyPlain (numbers tokens) := by
  refine .mapM (fun token => ?_) _
  split
  · exact .pure _
  · exact anyPlain_fail _

theorem anyPlain_statedDimension (attributes : List Attribute) :
    AnyPlain (statedDimension attributes) := by
  unfold statedDimension
  split
  · exact .pure _
  · split
    · exact .pure _
    · exact anyPlain_fail _

theorem anyPlain_singlePosition : AnyPlain singlePosition := by
  refine .bind anyPlain_elementText fun _ => .bind (anyPlain_numbers _) fun ordinates => ?_
  split
  · exact .pure _
  · exact anyPlain_fail _

theorem anyPlain_tuplePosition (separator tuple : String) :
    AnyPlain (tuplePosition separator tuple) := by
  refine .bind (anyPlain_numbers _) fun ordinates => ?_
  split
  · exact .pure _
  · exact anyPlain_fail _

theorem anyPlain_tuplePositions (attributes : List Attribute) :
    AnyPlain (tuplePositions attributes) :=
  .bind anyPlain_elementText fun _ => .mapM (anyPlain_tuplePosition _) _

theorem anyPlain_listPositions (dimension : Nat) (text : String) :
    AnyPlain (listPositions dimension text) :=
  .guard trivial (.bind (anyPlain_numbers _) fun _ => .guard trivial (.pure _))

/-! ### Envelopes and simple shapes -/

theorem anyPlain_gmlElement : AnyPlain gmlElement := by
  refine .get (fun c => ?_) fun _ => rfl
  split
  · exact .ite (.pure _) (anyPlain_fail _)
  · exact anyPlain_fail _

theorem anyPlain_corner (name : Name) (attributes : List Attribute) (corners : Corners) :
    AnyPlain (corner name attributes corners) := by
  unfold corner
  split
  · exact .bind anyPlain_singlePosition fun _ => .pure _
  · exact .bind anyPlain_singlePosition fun _ => .pure _
  · exact .bind anyPlain_singlePosition fun _ => .pure _
  · exact .bind (anyPlain_tuplePositions _) fun _ => .pure _
  · exact anyPlain_fail _

theorem anyPlain_readEnvelope (srs : Option String) : AnyPlain (readEnvelope srs) := by
  refine .bind anyPlain_gmlElement fun _ =>
    .guard trivial (.bind (anyPlain_foldChildren anyPlain_corner _) fun read => ?_)
  dsimp only
  split
  · exact .pure _
  · exact anyPlain_fail _

theorem anyPlain_readPoint : AnyPlain readPoint := by
  refine .bind (anyPlain_foldChildren (fun name attributes _ => ?_) _) fun read => ?_
  · split
    · exact anyPlain_singlePosition.map _
    · exact (anyPlain_tuplePositions _).map _
    · exact anyPlain_fail _
  · dsimp only
    split
    · exact .pure _
    · exact anyPlain_fail _

theorem anyPlain_curvePositions (dimension : Option Nat) (name : Name)
    (attributes : List Attribute) : AnyPlain (curvePositions dimension name attributes) := by
  unfold curvePositions
  split
  · exact .bind (anyPlain_statedDimension _) fun _ =>
      .bind anyPlain_elementText fun _ => anyPlain_listPositions _ _
  · exact .bind anyPlain_singlePosition fun _ => .pure _
  · exact anyPlain_tuplePositions _
  · exact anyPlain_fail _

theorem anyPlain_readCurve (dimension : Option Nat) : AnyPlain (readCurve dimension) :=
  .bind (anyPlain_foldChildren (fun _ _ _ => (anyPlain_curvePositions _ _ _).map _) _) fun _ =>
    .guard trivial (.pure _)

theorem anyPlain_readRing (dimension : Option Nat) : AnyPlain (readRing dimension) := by
  refine .bind (plain_nextTag fun _ => trivial) fun tag => ?_
  cases tag with
  | stop | finish => exact anyPlain_fail _
  | start =>
    refine .guard trivial (.bind (anyPlain_statedDimension _) fun _ =>
      .bind (anyPlain_readCurve _) fun _ => .bind (plain_nextTag fun _ => trivial) fun tag => ?_)
    cases tag with
    | stop => exact .pure _
    | start | finish => exact anyPlain_fail _

theorem anyPlain_readPolygon (dimension : Option Nat) : AnyPlain (readPolygon dimension) := by
  refine .bind (anyPlain_foldChildren (fun name _ _ => ?_) _) fun read => ?_
  · dsimp only
    split
    · exact .bind (anyPlain_readRing _) fun _ => .pure _
    · exact .bind (anyPlain_readRing _) fun _ => .pure _
    · exact .bind (anyPlain_readRing _) fun _ => .pure _
    · exact .bind (anyPlain_readRing _) fun _ => .pure _
    · exact anyPlain_fail _
  · dsimp only
    split
    · exact .pure _
    · exact anyPlain_fail _

/-! ### Geometries -/

theorem anyPlain_membersOf (container : Name) (kind : Shape → Option α) (members : List Geometry) :
    AnyPlain (membersOf container kind members) := by
  unfold membersOf
  split
  · exact .pure _
  · exact anyPlain_fail _

theorem anyPlain_readMembers {member : CursorM Geometry} (hmember : AnyPlain member) :
    AnyPlain (readMembers member) :=
  .bind (anyPlain_foldChildren (fun _ _ _ =>
    .bind (anyPlain_foldChildren (fun _ _ _ => hmember.map _) _) fun _ => .pure _) _) fun _ => .pure _

theorem anyPlain_geometryWithin (depth : Nat) (srs : Option String) (dimension : Option Nat) :
    AnyPlain (geometryWithin depth srs dimension) := by
  induction depth generalizing srs dimension with
  | zero => exact anyPlain_fail _
  | succ depth ih =>
    refine .bind anyPlain_gmlElement fun ⟨name, attributes⟩ =>
      .bind (anyPlain_statedDimension _) fun stated => .bind (.note _ _) fun _ => ?_
    have hmembers := anyPlain_readMembers
      (ih (Attribute.find? attributes none "srsName" <|> srs) (stated <|> dimension))
    dsimp only
    split
    · exact .bind (anyPlain_readPoint.map _) fun _ => .pure _
    · exact .bind ((anyPlain_readCurve _).map _) fun _ => .pure _
    · exact .bind ((anyPlain_readCurve _).map _) fun _ => .pure _
    · exact .bind ((anyPlain_readPolygon _).map _) fun _ => .pure _
    · exact .bind ((hmembers.bind (anyPlain_membersOf _ _)).map _) fun _ => .pure _
    · exact .bind ((hmembers.bind (anyPlain_membersOf _ _)).map _) fun _ => .pure _
    · exact .bind ((hmembers.bind (anyPlain_membersOf _ _)).map _) fun _ => .pure _
    · exact .bind ((hmembers.bind (anyPlain_membersOf _ _)).map _) fun _ => .pure _
    · exact .bind ((hmembers.bind (anyPlain_membersOf _ _)).map _) fun _ => .pure _
    · exact .bind (anyPlain_fail _) fun _ => .pure _

theorem anyPlain_readGeometry (srs : Option String) : AnyPlain (readGeometry srs) :=
  .get (fun _ => anyPlain_geometryWithin _ _ _) fun _ => rfl

end FeatureMarkup.Cursor

import FeatureMarkup.Proofs.Cursor.CutOff
import FeatureMarkup.Geometry.Reader

/-! How much of a document a geometry is read from.

Every reader of geometries reads one element, and what has no element of its own, numbers
and attributes, takes nothing. Geometries inside geometries need no more depth than there
are readings left. -/
namespace FeatureMarkup

open Xml (Attribute)

variable {α β σ : Type}

namespace Cursor

/-! ### Positions -/

theorem steady_numbers (tokens : List String) : Steady (numbers tokens) := by
  refine .mapM (fun token => ?_) tokens
  cases Number.parse? (Text.trim token) with
  | some number => exact .pure _
  | none => exact .fail _

theorem steady_statedDimension (attributes : List Attribute) :
    Steady (statedDimension attributes) := by
  unfold statedDimension
  cases Attribute.find? attributes none "srsDimension" with
  | none => exact .pure _
  | some text =>
    dsimp only
    cases Number.parseNatural? (Text.trim text) with
    | some dimension => exact .pure _
    | none => exact .fail _

/-- What becomes of the numbers of a single position. -/
theorem steady_position {problem : GeometryProblem} (ordinates : List Float) :
    Steady (match Coordinate.ofOrdinates? ordinates with
      | some position => pure position
      | none => failGeometry problem) := by
  cases Coordinate.ofOrdinates? ordinates with
  | some position => exact .pure _
  | none => exact .fail _

theorem elementReader_singlePosition : ElementReader singlePosition :=
  .bind_steady .elementText fun _ => (steady_numbers _).bind fun _ => steady_position _

theorem steady_tuplePosition (separator tuple : String) : Steady (tuplePosition separator tuple) :=
  (steady_numbers _).bind fun _ => steady_position _

theorem elementReader_tuplePositions (attributes : List Attribute) :
    ElementReader (tuplePositions attributes) :=
  .bind_steady .elementText fun _ => .mapM (steady_tuplePosition _) _

theorem steady_listPositions (dimension : Nat) (text : String) :
    Steady (listPositions dimension text) :=
  .guard (.bind (steady_numbers _) fun _ => .guard (.pure _))

/-! ### Envelopes, points and curves -/

theorem still_gmlElement : Still gmlElement := by
  refine .get (fun c => ?_) fun c rs => rfl
  cases c.event with
  | startElement name attributes => exact .ite (.pure _) (.fail _)
  | _ => exact .fail _

/-- What begins with an element of the markup language is read at the start of one. -/
theorem event_of_gmlElement_bind {f : Name × List Attribute → CursorM α} {c c' : Cursor} {a : α}
    (h : (gmlElement >>= f) c = .ok a c') :
    ∃ name attributes, c.event = .startElement name attributes := by
  obtain ⟨element, c₁, hstart, -⟩ := bind_eq_ok.1 h
  unfold gmlElement at hstart
  rw [get_bind] at hstart
  cases hevent : c.event with
  | startElement name attributes => exact ⟨name, attributes, rfl⟩
  | _ =>
    rw [hevent] at hstart
    exact absurd hstart failMarkup_ne_ok

theorem elementReader_corner (name : Name) (attributes : List Attribute) (corners : Corners) :
    ElementReader (corner name attributes corners) := by
  unfold corner
  split
  · exact elementReader_singlePosition.bind_steady fun _ => .pure _
  · exact elementReader_singlePosition.bind_steady fun _ => .pure _
  · exact elementReader_singlePosition.bind_steady fun _ => .pure _
  · exact (elementReader_tuplePositions attributes).bind_steady fun _ => .pure _
  · exact .fail _

theorem elementReader_readEnvelope (srs : Option String) : ElementReader (readEnvelope srs) := by
  refine .still_bind still_gmlElement fun element => .guard ?_
  refine .foldChildren elementReader_corner _ (fun _ _ _ => rfl) fun ⟨_, corners⟩ => ?_
  dsimp only
  cases corners.pair? with
  | some pair => exact .pure _
  | none => exact .fail _

theorem elementReader_readPoint : ElementReader readPoint := by
  refine .foldChildren (fun name attributes _ => ?_) _ (fun _ _ _ => rfl) fun ⟨_, position⟩ => ?_
  · split
    · exact elementReader_singlePosition.map
    · exact (elementReader_tuplePositions attributes).map
    · exact .fail _
  · cases position with
    | some position => exact .pure _
    | none => exact .fail _

theorem elementReader_curvePositions (dimension : Option Nat) (name : Name)
    (attributes : List Attribute) : ElementReader (curvePositions dimension name attributes) := by
  unfold curvePositions
  split
  · exact .still_bind (steady_statedDimension attributes).still fun stated =>
      .bind_steady .elementText fun text => steady_listPositions _ text
  · exact elementReader_singlePosition.bind_steady fun _ => .pure _
  · exact elementReader_tuplePositions attributes
  · exact .fail _

theorem elementReader_readCurve (dimension : Option Nat) : ElementReader (readCurve dimension) :=
  .foldChildren (fun name attributes _ =>
    (elementReader_curvePositions dimension name attributes).map) _ (fun _ _ _ => rfl)
      fun _ => .guard (.pure _)

/-! ### Surfaces and geometries -/

/-- A boundary is read to its own end. -/
theorem readRing_ends {dimension : Option Nat} {c c' : Cursor} {ring : List Coordinate}
    (h : readRing dimension c = .ok ring c') : ∃ name, c'.event = .endElement name := by
  obtain ⟨tag, c₁, -, h⟩ := bind_eq_ok.1 h
  cases tag with
  | stop | finish => exact absurd h fail_ne_ok
  | start name attributes =>
    dsimp only at h
    split at h
    · obtain ⟨_, _, hfail, -⟩ := bind_eq_ok.1 h
      exact absurd hfail fail_ne_ok
    · obtain ⟨stated, c₂, -, h⟩ := bind_eq_ok.1 h
      obtain ⟨found, c₃, -, h⟩ := bind_eq_ok.1 h
      obtain ⟨tag, c₄, hnext, h⟩ := bind_eq_ok.1 h
      cases tag with
      | start | finish => exact absurd h fail_ne_ok
      | stop name =>
        obtain ⟨-, rfl⟩ := pure_eq_ok.1 h
        obtain ⟨-, _, -, hreach⟩ := nextTag_eq_stop_iff.1 hnext
        exact ⟨name, hreach.event⟩

theorem elementReader_readRing (dimension : Option Nat) : ElementReader (readRing dimension) := by
  refine .of_ends (.enter (fun name attributes => .guard (.still_bind
    (steady_statedDimension attributes).still fun stated =>
      (elementReader_readCurve _).toReadsElement.alone (fun _ _ => .pure _) ?_)) ?_) ?_
  · intro ring tag c a c' hstop
    cases tag with
    | stop name => exact absurd rfl (hstop name)
    | start | finish => exact fail_ne_ok
  · intro tag c a c' hstart
    cases tag with
    | start name attributes => exact absurd rfl (hstart name attributes)
    | stop | finish => exact fail_ne_ok
  · intro c ring c' h
    obtain ⟨name, hevent⟩ := readRing_ends h
    exact not_atEnd_of_stop hevent

theorem elementReader_readPolygon (dimension : Option Nat) : ElementReader (readPolygon dimension) := by
  refine .foldChildren (fun name _ ⟨exterior, interiors⟩ => ?_) _ (fun _ _ _ => rfl)
    fun ⟨_, exterior, interiors⟩ => ?_
  · cases exterior with
    | some exterior => exact .pure _
    | none => exact .fail _
  · dsimp only
    split
    · exact (elementReader_readRing dimension).bind_steady fun _ => .pure _
    · exact (elementReader_readRing dimension).bind_steady fun _ => .pure _
    · exact (elementReader_readRing dimension).bind_steady fun _ => .pure _
    · exact (elementReader_readRing dimension).bind_steady fun _ => .pure _
    · exact .fail _

theorem steady_membersOf (container : Name) (kind : Shape → Option α) (members : List Geometry) :
    Steady (membersOf container kind members) := by
  unfold membersOf
  cases members.mapM fun member => kind member.shape with
  | some shapes => exact .pure _
  | none => exact .fail _

theorem elementReader_readMembers {member : CursorM Geometry} (hm : ElementReader member) :
    ElementReader (readMembers member) :=
  .foldChildren (fun _ _ _ => .foldChildren (fun _ _ _ => hm.map) _ (fun _ _ _ => rfl)
    fun _ => .pure _) _ (fun _ _ _ => rfl) fun _ => .pure _

theorem elementReader_geometryWithin (depth : Nat) (srs : Option String) (dimension : Option Nat) :
    ElementReader (geometryWithin depth srs dimension) := by
  induction depth generalizing srs dimension with
  | zero => exact .fail _
  | succ depth ih =>
    unfold geometryWithin
    refine .still_bind still_gmlElement fun ⟨name, attributes⟩ =>
      .still_bind (steady_statedDimension attributes).still fun stated =>
        .still_bind (.note _ _) fun _ => ?_
    have hmembers := elementReader_readMembers (ih (Attribute.find? attributes none "srsName" <|> srs)
      (stated <|> dimension))
    dsimp only
    split
    · exact (elementReader_readPoint.map).bind_steady fun _ => .pure _
    · exact ((elementReader_readCurve _).map).bind_steady fun _ => .pure _
    · exact ((elementReader_readCurve _).map).bind_steady fun _ => .pure _
    · exact ((elementReader_readPolygon _).map).bind_steady fun _ => .pure _
    · exact ((hmembers.bind_steady fun _ => steady_membersOf _ _ _).map).bind_steady fun _ => .pure _
    · exact ((hmembers.bind_steady fun _ => steady_membersOf _ _ _).map).bind_steady fun _ => .pure _
    · exact ((hmembers.bind_steady fun _ => steady_membersOf _ _ _).map).bind_steady fun _ => .pure _
    · exact ((hmembers.bind_steady fun _ => steady_membersOf _ _ _).map).bind_steady fun _ => .pure _
    · exact ((hmembers.bind_steady fun _ => steady_membersOf _ _ _).map).bind_steady fun _ => .pure _
    · exact (ElementReader.fail _).bind_steady fun _ => .pure _

/-! ### Depth -/

theorem follows_foldChildren {limit : Nat} {body body' : Name → List Attribute → σ → CursorM σ}
    (hforward : ∀ name attributes a, Forward (body name attributes a))
    (hbody : ∀ name attributes a, Follows limit (body name attributes a) (body' name attributes a))
    (a : σ) : Follows (limit + 1) (foldChildren body a) (foldChildren body' a) := by
  refine .get fun c => ?_
  rw [← Tape.run_cursor nextTag]
  exact .foldTags hforward hbody _ a

theorem follows_readMembers {limit : Nat} {member member' : CursorM Geometry}
    (hm : ReadsElement member) (h : Follows limit member member') :
    Follows (limit + 1) (readMembers member) (readMembers member') := by
  have hmember : ∀ members : List Geometry,
      ReadsElement ((fun geometry => members ++ [geometry]) <$> member) := fun members => hm.map
  have hinner : ∀ members : List Geometry, ReadsElement
      (foldChildren (fun _ _ members => (members ++ [·]) <$> member) members) :=
    fun members => .foldChildren (fun _ _ members => hmember members) members
  refine .bind (follows_foldChildren (fun _ _ members => ?_) (fun _ _ members => ?_) [])
    (ReadsElement.foldChildren (fun _ _ members => ?_) []).forward fun r => .refl _
  · exact ((hinner members).bind_still fun _ => .pure _).forward
  · refine .bind ?_ (hinner members).forward fun r => .refl _
    exact (follows_foldChildren (fun _ _ members => (hmember members).forward)
      (fun _ _ members => h.map) members).mono (Nat.le_succ limit)
  · exact (hinner members).bind_still fun _ => .pure _

/-- Multiple geometries are nested no deeper than there are readings left. -/
theorem follows_geometryWithin (depth limit : Nat) (srs : Option String) (dimension : Option Nat) :
    Follows limit (geometryWithin depth srs dimension) (geometryWithin limit srs dimension) := by
  induction depth generalizing limit srs dimension with
  | zero => exact fun _ _ _ _ h => absurd h failMarkup_ne_ok
  | succ depth ih =>
    obtain _ | limit := limit
    · exact fun _ _ _ hs _ => absurd hs (Nat.not_lt_zero _)
    unfold geometryWithin
    refine .bind (.refl _) still_gmlElement.forward fun ⟨name, attributes⟩ =>
      .bind (.refl _) (steady_statedDimension attributes).still.forward fun stated =>
        .bind (.refl _) (Still.note _ _).forward fun _ => ?_
    have hread := elementReader_readMembers (elementReader_geometryWithin depth
      (Attribute.find? attributes none "srsName" <|> srs) (stated <|> dimension))
    have hmembers := follows_readMembers (elementReader_geometryWithin depth _ _).toReadsElement
      (ih limit (Attribute.find? attributes none "srsName" <|> srs) (stated <|> dimension))
    dsimp only
    split
    case h_5 | h_6 | h_7 | h_8 | h_9 =>
      exact ((hmembers.bind hread.forward fun _ => .refl _).map).bind
        ((hread.bind_steady fun _ => steady_membersOf _ _ _).map).forward fun _ => .refl _
    all_goals exact .refl _

theorem readsElement_readGeometry (srs : Option String) : ReadsElement (readGeometry srs) where
  forward := .get fun _ => (elementReader_geometryWithin _ srs none).forward
  toEnd name attributes :=
    .enough (fun depth => (elementReader_geometryWithin depth srs none).toEnd name attributes)
      fun depth limit => follows_geometryWithin depth limit srs none

theorem elementReader_readGeometry (srs : Option String) : ElementReader (readGeometry srs) := by
  refine ⟨readsElement_readGeometry srs, fun c g c' hnot h hend => ?_⟩
  obtain ⟨hleft, closing, hne, hall, hclosed⟩ :=
    (elementReader_geometryWithin _ srs none).closes hnot h hend
  refine ⟨hleft, closing, hne, hall, fun rest => ?_⟩
  obtain ⟨d, name, hd, hrest⟩ := hclosed rest
  exact ⟨d, name, follows_geometryWithin _ _ srs none (length_lt_rounds _) hd, hrest⟩

end Cursor

end FeatureMarkup

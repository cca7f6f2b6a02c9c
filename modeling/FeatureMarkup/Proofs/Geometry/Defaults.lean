import FeatureMarkup.Proofs.Geometry.Plain
import FeatureMarkup.Proofs.Reference.Filled

/-! What the reference system that is assumed does to a geometry.

It is handed down with the elements around it taking its place, and all that comes of it is the
reference system of the geometry: two runs with and without one are in step, and the geometry of
the first is that of the second with the system filled in. -/
namespace FeatureMarkup.Cursor

open Xml (Attribute)

variable {α : Type}

theorem lockstep_readEnvelope (around given : Option String) :
    Lockstep SameButLog (· = Envelope.fill given ·) (readEnvelope (around <|> given))
      (readEnvelope around) := by
  refine .bind anyPlain_gmlElement.lockstep ?_
  rintro ⟨name, attributes⟩ _ rfl
  refine .guard (.bind (anyPlain_foldChildren anyPlain_corner _).lockstep ?_)
  rintro ⟨tag, corners⟩ _ rfl
  dsimp only
  cases corners.pair? with
  | none => exact .fail _
  | some pair => exact .pure (by simp [Envelope.fill, Option.or_assoc])

/-! ### Members -/

theorem membersOf_fill (given : Option String) (container : Name) (kind : Shape → Option α)
    (members : List Geometry) :
    membersOf container kind (members.map (Geometry.fill given)) = membersOf container kind members := by
  unfold membersOf
  rw [List.mapM_map]
  rfl

theorem lockstep_readMembers {given : Option String} {member member' : CursorM Geometry}
    (hmember : Lockstep SameButLog (· = Geometry.fill given ·) member member') :
    Lockstep SameButLog (· = List.map (Geometry.fill given) ·) (readMembers member)
      (readMembers member') := by
  refine .bind (.foldChildren (V := (· = List.map (Geometry.fill given) ·))
    (fun _ _ gs gs' hgs => ?_) rfl) fun r r' hr => .pure hr.2
  refine .bind (.foldChildren (V := (· = List.map (Geometry.fill given) ·))
    (fun _ _ gs gs' hgs => .map hmember fun g g' hg => ?_) hgs) fun r r' hr => .pure hr.2
  rw [hgs, hg, List.map_append, List.map_singleton]

theorem lockstep_members {β : Type} {given : Option String} {member member' : CursorM Geometry}
    (hmember : Lockstep SameButLog (· = Geometry.fill given ·) member member') (container : Name)
    (kind : Shape → Option α) (shape : List α → β) :
    Lockstep SameButLog Eq (shape <$> (readMembers member >>= membersOf container kind))
      (shape <$> (readMembers member' >>= membersOf container kind)) := by
  refine .map (.bind (lockstep_readMembers hmember) ?_) fun _ _ => congrArg shape
  rintro _ gs rfl
  rw [membersOf_fill]
  exact (anyPlain_membersOf _ _ _).lockstep

/-! ### Geometries -/

/-- Only the system of the geometry itself depends on the one that is given. The induction is on
the levels of nesting that are allowed: what is in force around a member is what the geometry
around it hands down, before what is given. -/
theorem lockstep_geometryWithin (depth : Nat) (around given : Option String) (dimension : Option Nat) :
    Lockstep SameButLog (· = Geometry.fill given ·) (geometryWithin depth (around <|> given) dimension)
      (geometryWithin depth around dimension) := by
  induction depth generalizing around dimension with
  | zero => exact .fail _
  | succ depth ih =>
    refine .bind anyPlain_gmlElement.lockstep ?_
    rintro ⟨name, attributes⟩ _ rfl
    refine .bind (anyPlain_statedDimension _).lockstep ?_
    rintro stated _ rfl
    refine .bind (.notes _ _) fun _ _ _ => ?_
    have hsystem : (Attribute.find? attributes none "srsName" <|> (around <|> given)) =
        ((Attribute.find? attributes none "srsName" <|> around) <|> given) := by
      simp [Option.or_assoc]
    have hmember := ih (Attribute.find? attributes none "srsName" <|> around) (stated <|> dimension)
    have hshape {id system : Option String} {m m' : CursorM Shape} (hm : Lockstep SameButLog Eq m m') :
        Lockstep SameButLog (· = Geometry.fill given ·)
          (m >>= fun shape => pure (⟨id, system <|> given, shape⟩ : Geometry))
          (m' >>= fun shape => pure (⟨id, system, shape⟩ : Geometry)) :=
      hm.bind fun shape shape' h => .pure (by rw [h]; rfl)
    dsimp only
    rw [hsystem]
    split
    · exact hshape (anyPlain_readPoint.map _).lockstep
    · exact hshape ((anyPlain_readCurve _).map _).lockstep
    · exact hshape ((anyPlain_readCurve _).map _).lockstep
    · exact hshape ((anyPlain_readPolygon _).map _).lockstep
    · exact hshape (lockstep_members hmember _ _ _)
    · exact hshape (lockstep_members hmember _ _ _)
    · exact hshape (lockstep_members hmember _ _ _)
    · exact hshape (lockstep_members hmember _ _ _)
    · exact hshape (lockstep_members hmember _ _ _)
    · exact hshape (.fail _)

theorem lockstep_readGeometry (around given : Option String) :
    Lockstep SameButLog (· = Geometry.fill given ·) (readGeometry (around <|> given))
      (readGeometry around) := by
  refine .get fun c d h => ?_
  rw [h.eq_with]
  exact lockstep_geometryWithin _ _ _ _

end FeatureMarkup.Cursor

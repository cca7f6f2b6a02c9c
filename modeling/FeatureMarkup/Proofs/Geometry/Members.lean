import FeatureMarkup.Proofs.Geometry.Positions

/-! What a geometry is read from.

A geometry is read from its own element or, if it is a multiple one, from its members, each of
which is a geometry with no members. `ReadFrom` tells what of such an element is kept, and
`GeometryRead` puts a whole geometry together: a shape for each part, in order, and the
reference system of the outermost element. `GeometryIn` says more, in what dimension each of
them is read, and that is what is carried down to the members. -/
namespace FeatureMarkup

open Xml (Attribute)

variable {α : Type} {c c' : Cursor} {name : Name} {attributes : List Attribute}

/-- A geometry with no members is read from the groups that are kept: they write its positions,
they are some of the groups in it, and all of them if it has each of its parts once. -/
structure ReadFrom (t : MarkupTree) (s : Shape) : Prop where
  writes : Writes t.kept.flatten s.positions
  subperm : t.kept.Subperm t.written
  perm : t.Single → t.kept.Perm t.written

/-- A shape is read from the parts of an element, one for each, and nothing else is written in
the element. -/
structure ShapeRead (t : MarkupTree) (s : Shape) : Prop where
  multiple_eq : s.isMultiple = t.isMultiple
  written_eq : t.written = t.parts.flatMap MarkupTree.written
  parts : List.Forall₂ ReadFrom t.parts s.parts

/-- The reference system that an element names. -/
def MarkupTree.srsName (t : MarkupTree) : Option String := Attribute.find? t.attributes none "srsName"

/-- A geometry has a shape and a reference system from its element; if the element names none, it
is the one in force around it. -/
structure GeometryRead (srs : Option String) (t : MarkupTree) (g : Geometry) : Prop
    extends ShapeRead t g.shape where
  srs_eq : g.srs = (t.srsName <|> srs)

theorem Shape.parts_of_single {s : Shape} (h : s.isMultiple = false) : s.parts = [s] := by
  cases s <;> first | rfl | cases h

theorem MarkupTree.parts_of_single {t : MarkupTree} (h : t.isMultiple = false) : t.parts = [t] := by
  simp [parts, h]

namespace ShapeRead

theorem of_single {t : MarkupTree} {s : Shape} (ht : t.isMultiple = false) (hs : s.isMultiple = false)
    (h : ReadFrom t s) : ShapeRead t s where
  multiple_eq := hs.trans ht.symm
  written_eq := by simp [MarkupTree.parts_of_single ht]
  parts := by
    rw [MarkupTree.parts_of_single ht, Shape.parts_of_single hs]
    exact .cons h .nil

theorem of_members {t : MarkupTree} {s : Shape} (ht : t.isMultiple = true) (hs : s.isMultiple = true)
    (hwritten : t.written = t.members.flatMap MarkupTree.written)
    (h : List.Forall₂ ReadFrom t.members s.parts) : ShapeRead t s where
  multiple_eq := hs.trans ht.symm
  written_eq := by rw [MarkupTree.parts, if_pos ht, hwritten]
  parts := by rwa [MarkupTree.parts, if_pos ht]

end ShapeRead

/-! ### Geometries with no members -/

namespace ReadFrom
variable {t : MarkupTree}

theorem point {p : Coordinate} {group : List String} (hname : t.name.localPart = "Point")
    (hwritten : t.written = t.childElements.flatMap MarkupTree.groups)
    (hgroup : t.pointGroup? = some group) (hwrites : Writes group [p]) : ReadFrom t (.point p) := by
  have hkept : t.kept = [group] := by simp [MarkupTree.kept, hname, hgroup]
  have hmem : group ∈ t.written := by
    obtain ⟨last, hlast, hhead⟩ := Option.bind_eq_some_iff.1 hgroup
    rw [hwritten]
    exact List.mem_flatMap.2 ⟨last, List.mem_of_getLast? hlast, List.mem_of_head? hhead⟩
  have hsub : t.kept.Subperm t.written := by
    rw [hkept]
    exact (List.singleton_sublist.2 hmem).subperm
  refine ⟨?_, hsub, fun hsingle => hsub.perm_of_length_le ?_⟩
  · rwa [hkept, List.flatten_singleton]
  · simpa [hkept] using hsingle.1 hname

theorem curve {line : List Coordinate}
    (hname : t.name.localPart = "LineString" ∨ t.name.localPart = "LinearRing")
    (hwritten : t.written = t.curveGroups) (hwrites : Writes t.curveGroups.flatten line) :
    ReadFrom t (.lineString line) := by
  have hkept : t.kept = t.curveGroups := by
    rcases hname with hname | hname <;> simp [MarkupTree.kept, hname]
  have hall : t.kept.Perm t.written := by rw [hkept, hwritten]
  refine ⟨?_, hall.subperm, fun _ => hall⟩
  rw [hkept]
  exact hwrites

theorem polygon {p : Polygon} {last : MarkupTree} (hname : t.name.localPart = "Polygon")
    (hwritten : t.written = t.childElements.flatMap MarkupTree.boundaryGroups)
    (hlast : t.exteriors.getLast? = some last)
    (hexterior : Writes last.boundaryGroups.flatten p.exterior)
    (hinteriors : List.Forall₂ (fun b ring => Writes b.boundaryGroups.flatten ring) t.interiors
      p.interiors) : ReadFrom t (.polygon p) := by
  have hkept : t.kept = last.boundaryGroups ++ t.interiors.flatMap MarkupTree.boundaryGroups := by
    simp [MarkupTree.kept, hname, hlast]
  have hall : (t.exteriors.flatMap MarkupTree.boundaryGroups ++
      t.interiors.flatMap MarkupTree.boundaryGroups).Perm t.written := by
    rw [hwritten, ← List.flatMap_append]
    exact (List.filter_append_perm _ _).flatMap_right _
  refine ⟨?_, ?_, fun hsingle => ?_⟩
  · have hrings : Writes (t.interiors.flatMap MarkupTree.boundaryGroups).flatten
        (p.interiors.flatMap id) := .flatMap hinteriors
    rw [List.flatMap_id] at hrings
    rw [hkept, List.flatten_append]
    exact hexterior.append hrings
  · rw [hkept]
    refine (hall.subperm_left).1 (.append (List.Sublist.subperm ?_) (.refl _))
    have hsub := (List.singleton_sublist.2 (List.mem_of_getLast? hlast)).flatMap MarkupTree.boundaryGroups
    rwa [List.flatMap_singleton] at hsub
  · have hlength := hsingle.2 hname
    obtain ⟨before, hsplit⟩ := List.getLast?_eq_some_iff.1 hlast
    obtain rfl : before = [] := by
      rw [hsplit, List.length_append, List.length_singleton] at hlength
      exact List.length_eq_zero_iff.1 (by omega)
    rw [hkept]
    simpa [hsplit] using hall

end ReadFrom

/-! ### With the dimension in force -/

/-- A geometry with no members is read from its element, with the dimension in force around it. -/
inductive PartRead (outer : Option Nat) (t : MarkupTree) : Shape → Prop where
  | point {p group} : t.name.localPart = "Point" → t.SoundDimension →
      t.written = t.childElements.flatMap MarkupTree.groups → t.pointGroup? = some group →
      Writes group [p] → PartRead outer t (.point p)
  | curve {line} : t.name.localPart = "LineString" ∨ t.name.localPart = "LinearRing" →
      LineRead outer t line → PartRead outer t (.lineString line)
  | polygon {p} : t.name.localPart = "Polygon" → t.SoundDimension →
      PolygonRead (t.dimension? <|> outer) t p → PartRead outer t (.polygon p)

/-- A geometry is read from its element, with the dimension in force around it: by itself, or from
its members with the dimension in force in it. -/
inductive ShapeIn (outer : Option Nat) (t : MarkupTree) (s : Shape) : Prop where
  | single : PartRead outer t s → ShapeIn outer t s
  | members : t.isMultiple = true → s.isMultiple = true → t.SoundDimension →
      t.written = t.members.flatMap MarkupTree.written →
      List.Forall₂ (PartRead (t.dimension? <|> outer)) t.members s.parts → ShapeIn outer t s

/-- A geometry is read from its element, with the reference system and the dimension in force
around it. -/
structure GeometryIn (srs : Option String) (outer : Option Nat) (t : MarkupTree) (g : Geometry) :
    Prop where
  shape : ShapeIn outer t g.shape
  srs_eq : g.srs = (t.srsName <|> srs)

section Dimension
variable {outer : Option Nat} {t : MarkupTree} {s : Shape}

theorem PartRead.tree_single (h : PartRead outer t s) : t.isMultiple = false := by
  cases h with
  | point hname | polygon hname => simp [MarkupTree.isMultiple, MarkupTree.isNamed, hname]
  | curve hname => rcases hname with hname | hname <;> simp [MarkupTree.isMultiple, MarkupTree.isNamed, hname]

theorem PartRead.shape_single (h : PartRead outer t s) : s.isMultiple = false := by
  cases h <;> rfl

theorem PartRead.sound (h : PartRead outer t s) : t.SoundDimension := by
  cases h with
  | point _ hsound | polygon _ hsound => exact hsound
  | curve _ hline => exact hline.sound

theorem PartRead.readFrom (h : PartRead outer t s) : ReadFrom t s := by
  cases h with
  | point hname _ hwritten hgroup hwrites => exact .point hname hwritten hgroup hwrites
  | curve hname hline => exact .curve hname hline.curve.written_eq hline.curve.writes
  | polygon hname _ hread =>
    obtain ⟨last, hlast, hexterior⟩ := hread.exterior
    exact .polygon hname hread.written_eq hlast hexterior.writes
      (hread.interiors.imp fun _ _ hring => hring.writes)

theorem ShapeIn.shapeRead (h : ShapeIn outer t s) : ShapeRead t s := by
  cases h with
  | single hpart => exact .of_single hpart.tree_single hpart.shape_single hpart.readFrom
  | members ht hs _ hwritten hparts =>
    exact .of_members ht hs hwritten (hparts.imp fun _ _ hpart => hpart.readFrom)

/-- A shape with no members is read from its element by itself. -/
theorem ShapeIn.partRead (h : ShapeIn outer t s) (hs : s.isMultiple = false) : PartRead outer t s := by
  cases h with
  | single hpart => exact hpart
  | members _ hmultiple =>
    rw [hs] at hmultiple
    cases hmultiple

theorem GeometryIn.read {srs : Option String} {g : Geometry} (h : GeometryIn srs outer t g) :
    GeometryRead srs t g :=
  ⟨h.shape.shapeRead, h.srs_eq⟩

end Dimension

/-! ### Members -/

theorem forall₂_of_mapM_some {β : Type} {f : α → Option β} {as : List α} {bs : List β}
    (h : as.mapM f = some bs) : List.Forall₂ (fun a b => f a = some b) as bs := by
  induction as generalizing bs with
  | nil =>
    cases h
    exact .nil
  | cons a as ih =>
    rw [List.mapM_cons] at h
    obtain ⟨b, hb, hrest⟩ := Option.bind_eq_some_iff.1 h
    obtain ⟨rest, hall, hbs⟩ := Option.bind_eq_some_iff.1 hrest
    cases hbs
    exact .cons hb (ih hall)

/-- Members that are all of one kind of shape with no members are read from their elements. -/
theorem GeometryIn.partRead_all {srs : Option String} {outer : Option Nat} {kind : Shape → Option α}
    {shape : α → Shape} {trees : List MarkupTree} {gs : List Geometry} {as : List α}
    (hkind : ∀ s a, kind s = some a → s = shape a) (hsingle : ∀ a, (shape a).isMultiple = false)
    (hread : List.Forall₂ (GeometryIn srs outer) trees gs)
    (h : List.Forall₂ (fun member a => kind member.shape = some a) gs as) :
    List.Forall₂ (fun tree a => PartRead outer tree (shape a)) trees as := by
  induction hread generalizing as with
  | nil =>
    cases h
    exact .nil
  | @cons tree g _ _ hg _ ih =>
    cases h with
    | @cons _ a _ _ ha hrest =>
      have hshape := hkind _ _ ha
      have hpart := hg.shape.partRead (by rw [hshape, hsingle])
      rw [hshape] at hpart
      exact .cons hpart (ih hrest)

namespace Cursor

/-- The members of a multiple geometry are whatever stands in its children, in order. -/
theorem readsAs_readMembers {member : CursorM Geometry} {F : MarkupTree → Geometry → Prop}
    (hm : ∀ name attributes, ReadsAs name attributes member F) :
    ReadsAs name attributes (readMembers member) fun t gs =>
      t.written = t.members.flatMap MarkupTree.written ∧ List.Forall₂ F t.members gs := by
  refine (ReadsAs.foldChildren (R := fun found t found' =>
    t.written = t.childElements.flatMap MarkupTree.written ∧
      ∃ more, found' = found ++ more ∧ List.Forall₂ F t.childElements more)
    (fun name attributes found => ?_) []).bind_pure ?_
  · refine (ReadsAs.foldChildren (R := fun found t found' => ∃ g, found' = found ++ [g] ∧ F t g)
      (fun name attributes found => (hm name attributes).map fun children g hg => ⟨g, rfl, hg⟩)
      found).bind_pure ?_
    rintro children ⟨tag, members⟩ ⟨hblank, halong⟩
    exact ⟨MarkupTree.written_of_blank hblank, halong.forall₂⟩
  · rintro children ⟨tag, members⟩ ⟨hblank, halong⟩
    have hwritten := halong.forall_mem fun _ _ _ hstep => hstep.1
    have hmembers := halong.invariant
      (P := fun done found => List.Forall₂ F (done.flatMap MarkupTree.childElements) found)
      .nil fun done tree found _ hdone hstep => by
        obtain ⟨-, more, rfl, hmore⟩ := hstep
        simpa using List.rel_append hdone hmore
    refine ⟨?_, hmembers⟩
    rw [MarkupTree.written_of_blank hblank, MarkupTree.members, List.flatMap_assoc]
    exact List.flatMap_congr hwritten

/-- Each member is of the kind that is asked for. -/
theorem membersOf_eq_ok {container : Name} {kind : Shape → Option α} {members : List Geometry}
    {shapes : List α} (h : membersOf container kind members c = .ok shapes c') :
    List.Forall₂ (fun member shape => kind member.shape = some shape) members shapes := by
  unfold membersOf at h
  cases hmapped : members.mapM fun member => kind member.shape with
  | none =>
    rw [hmapped] at h
    exact absurd h fail_ne_ok
  | some found =>
    rw [hmapped] at h
    obtain ⟨rfl, -⟩ := pure_eq_ok.1 h
    exact forall₂_of_mapM_some hmapped

/-- A multiple geometry is read from members that are geometries with no members. -/
theorem readsAs_members {srs : Option String} {outer : Option Nat} {member : CursorM Geometry}
    {container : Name} {kind : Shape → Option α} {shape : α → Shape} {shapes : List α → Shape}
    (hkind : ∀ s a, kind s = some a → s = shape a)
    (hsingle : ∀ a, (shape a).isMultiple = false)
    (hshapes : ∀ as, (shapes as).isMultiple = true ∧ (shapes as).parts = as.map shape)
    (hm : ∀ name attributes, ReadsAs name attributes member (GeometryIn srs outer)) :
    ReadsAs name attributes (shapes <$> (readMembers member >>= membersOf container kind)) fun t s =>
      s.isMultiple = true ∧ t.written = t.members.flatMap MarkupTree.written ∧
        List.Forall₂ (PartRead outer) t.members s.parts := by
  have hread : ReadsAs name attributes (readMembers member >>= membersOf container kind) fun t as =>
      t.written = t.members.flatMap MarkupTree.written ∧
        List.Forall₂ (fun tree a => PartRead outer tree (shape a)) t.members as := by
    refine (readsAs_readMembers hm).bind_still (fun _ => (steady_membersOf _ _ _).still) ?_
    rintro children gs c as c' ⟨hwritten, hmembers⟩ h
    exact ⟨hwritten, GeometryIn.partRead_all hkind hsingle hmembers (membersOf_eq_ok h)⟩
  refine hread.map ?_
  rintro children as ⟨hwritten, hall⟩
  refine ⟨(hshapes as).1, hwritten, ?_⟩
  rw [(hshapes as).2]
  exact List.forall₂_map_right_iff.2 hall

theorem Shape.point?_eq_some {s : Shape} {p : Coordinate} (h : Shape.point? s = some p) : s = .point p := by
  cases s <;> cases h
  rfl

theorem Shape.lineString?_eq_some {s : Shape} {line : List Coordinate} (h : Shape.lineString? s = some line) :
    s = .lineString line := by
  cases s <;> cases h
  rfl

theorem Shape.polygon?_eq_some {s : Shape} {p : Polygon} (h : Shape.polygon? s = some p) : s = .polygon p := by
  cases s <;> cases h
  rfl

/-- The element that a geometry is read at is the one that the cursor is at the start of. -/
theorem readsAs_gmlElement_bind {f : Name × List Attribute → CursorM α} {R : MarkupTree → α → Prop}
    (hforward : Forward (gmlElement >>= f)) (hf : ReadsAs name attributes (f (name, attributes)) R) :
    ReadsAs name attributes (gmlElement >>= f) R where
  forward := hforward
  whole := by
    refine Carries.still_bind still_gmlElement fun c element c' hc h => ?_
    unfold gmlElement at h
    rw [get_bind, show c.event = .startElement name attributes from hc] at h
    dsimp only at h
    split at h
    · obtain ⟨rfl, -⟩ := pure_eq_ok.1 h
      exact hf.whole
    · exact absurd h fail_ne_ok

/-- A geometry is read from its element, at any depth. -/
theorem readsAs_geometryWithin (depth : Nat) (srs : Option String) (outer : Option Nat) :
    ReadsAs name attributes (geometryWithin depth srs outer) (GeometryIn srs outer) := by
  induction depth generalizing name attributes srs outer with
  | zero => exact .fail _
  | succ depth ih =>
    have hforward := (elementReader_geometryWithin (depth + 1) srs outer).forward
    unfold geometryWithin at hforward ⊢
    refine readsAs_gmlElement_bind hforward ?_
    -- Of the element only the attributes are known yet, and its dimension with them.
    let dimension := MarkupTree.dimension? ⟨name, attributes, []⟩ <|> outer
    let system := Attribute.find? attributes none "srsName" <|> srs
    refine (readsAs_statedDimension_bind (R := fun t g =>
      (t.SoundDimension → ShapeIn outer t g.shape) ∧ g.srs = (t.srsName <|> srs)) ?_).mono
      fun children g h => ⟨h.2.1 h.1, h.2.2⟩
    refine .still_bind (.note _ _) fun _ => ?_
    have hmembers : ∀ name' attributes', ReadsAs name' attributes' (geometryWithin depth system dimension)
        (GeometryIn system dimension) := fun _ _ => ih _ _
    have hshape {m : CursorM Shape} {id : Option String}
        (hm : ReadsAs name attributes m fun t s => t.SoundDimension → ShapeIn outer t s) :
        ReadsAs name attributes (m >>= fun shape => pure (⟨id, system, shape⟩ : Geometry)) fun t g =>
          (t.SoundDimension → ShapeIn outer t g.shape) ∧ g.srs = (t.srsName <|> srs) :=
      hm.bind_pure fun children shape hread => ⟨hread, rfl⟩
    dsimp only
    split
    case h_1 hname =>
      refine hshape (readsAs_readPoint.map fun children p h hsound => ?_)
      obtain ⟨hwritten, group, hgroup, hwrites⟩ := h
      exact .single (.point hname hsound hwritten hgroup hwrites)
    case h_2 hname | h_3 hname =>
      exact hshape ((readsAs_readCurve _).map fun children line h hsound =>
        .single (.curve (by simp [hname]) ⟨hsound, h⟩))
    case h_4 hname =>
      exact hshape ((readsAs_readPolygon _).map fun children p h hsound =>
        .single (.polygon hname hsound h))
    case h_5 hname =>
      refine hshape ((readsAs_members (fun _ _ => Shape.point?_eq_some) (fun _ => rfl)
        (fun _ => ⟨rfl, rfl⟩) hmembers).mono fun children s h hsound => ?_)
      exact .members (by simp [MarkupTree.isMultiple, MarkupTree.isNamed, hname]) h.1 hsound h.2.1 h.2.2
    case h_6 hname | h_7 hname =>
      refine hshape ((readsAs_members (fun _ _ => Shape.lineString?_eq_some) (fun _ => rfl)
        (fun _ => ⟨rfl, rfl⟩) hmembers).mono fun children s h hsound => ?_)
      exact .members (by simp [MarkupTree.isMultiple, MarkupTree.isNamed, hname]) h.1 hsound h.2.1 h.2.2
    case h_8 hname | h_9 hname =>
      refine hshape ((readsAs_members (fun _ _ => Shape.polygon?_eq_some) (fun _ => rfl)
        (fun _ => ⟨rfl, rfl⟩) hmembers).mono fun children s h hsound => ?_)
      exact .members (by simp [MarkupTree.isMultiple, MarkupTree.isNamed, hname]) h.1 hsound h.2.1 h.2.2
    case h_10 => exact hshape (.fail _)

/-- No dimension is in force around the outermost element. -/
theorem readsAs_geometryIn (srs : Option String) :
    ReadsAs name attributes (readGeometry srs) (GeometryIn srs none) where
  forward := (readsElement_readGeometry srs).forward
  whole := .enough (fun depth => (readsAs_geometryWithin depth srs none).whole)
    fun depth limit => follows_geometryWithin depth limit srs none

theorem readsAs_readGeometry (srs : Option String) :
    ReadsAs name attributes (readGeometry srs) (GeometryRead srs) :=
  (readsAs_geometryIn srs).mono fun _ _ h => h.read

end Cursor

end FeatureMarkup

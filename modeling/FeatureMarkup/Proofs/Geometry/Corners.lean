import FeatureMarkup.Proofs.Geometry.Members

/-! What an envelope is read from.

Corners may be named or not. A named corner counts in the place of its name, the last one of
that name; the places that are left are taken by the others, in order. -/
namespace FeatureMarkup

open Xml (Attribute)

variable {α β : Type}

/-! ### Two out of many -/

/-- The lower and the upper corner: the named one, or the first of the others that is left. -/
def cornerPair : Option α → Option α → List α → Option (α × α)
  | some lower, some upper, _ => some (lower, upper)
  | some lower, none, upper :: _ => some (lower, upper)
  | none, some upper, lower :: _ => some (lower, upper)
  | none, none, lower :: upper :: _ => some (lower, upper)
  | _, _, _ => none

theorem Cursor.Corners.pair?_eq (corners : Cursor.Corners) :
    corners.pair? = cornerPair corners.lower corners.upper corners.others := by
  obtain ⟨_ | lower, _ | upper, others⟩ := corners <;>
    rcases others with _ | ⟨first, _ | ⟨second, others⟩⟩ <;> rfl

/-- Choosing corners is the same for what is in a relation. -/
theorem exists_cornerPair {R : α → β → Prop} {lower upper : Option α} {lower' upper' : Option β}
    {others : List α} {others' : List β} {first second : β} (hlower : Option.Rel R lower lower')
    (hupper : Option.Rel R upper upper') (hothers : List.Forall₂ R others others')
    (h : cornerPair lower' upper' others' = some (first, second)) :
    ∃ a b, cornerPair lower upper others = some (a, b) ∧ R a first ∧ R b second := by
  cases hlower with
  | some hlower =>
    cases hupper with
    | some hupper =>
      cases h
      exact ⟨_, _, rfl, hlower, hupper⟩
    | none =>
      cases hothers with
      | nil => cases h
      | cons hother _ =>
        cases h
        exact ⟨_, _, rfl, hlower, hother⟩
  | none =>
    cases hupper with
    | some hupper =>
      cases hothers with
      | nil => cases h
      | cons hother _ =>
        cases h
        exact ⟨_, _, rfl, hother, hupper⟩
    | none =>
      cases hothers with
      | nil => cases h
      | cons hfirst hrest =>
        cases hrest with
        | nil => cases h
        | cons hsecond _ =>
          cases h
          exact ⟨_, _, rfl, hfirst, hsecond⟩

/-- The corners chosen are two of all there are. -/
theorem cornerPair_subperm {lowers uppers others : List α} {first second : α}
    (h : cornerPair lowers.getLast? uppers.getLast? others = some (first, second)) :
    [first, second].Subperm (lowers ++ (uppers ++ others)) := by
  have last_sublist {as : List α} {a : α} (ha : as.getLast? = some a) : [a].Sublist as :=
    List.singleton_sublist.2 (List.mem_of_getLast? ha)
  have first_sublist (a : α) (as : List α) : [a].Sublist (a :: as) :=
    List.singleton_sublist.2 List.mem_cons_self
  cases hlower : lowers.getLast? with
  | some lower =>
    cases hupper : uppers.getLast? with
    | some upper =>
      rw [hlower, hupper] at h
      cases h
      have huppers := (last_sublist hupper).trans (List.sublist_append_left uppers others)
      exact ((last_sublist hlower).append huppers).subperm
    | none =>
      rw [hlower, hupper] at h
      rw [List.getLast?_eq_none_iff.1 hupper]
      rcases others with _ | ⟨upper, others⟩
      · cases h
      cases h
      exact ((last_sublist hlower).append (first_sublist _ others)).subperm
  | none =>
    rw [List.getLast?_eq_none_iff.1 hlower, List.nil_append]
    cases hupper : uppers.getLast? with
    | some upper =>
      rw [hlower, hupper] at h
      rcases others with _ | ⟨lower, others⟩
      · cases h
      cases h
      have hboth := ((last_sublist hupper).append (first_sublist first others)).subperm
      exact (List.Perm.swap second first []).subperm.trans hboth
    | none =>
      rw [hlower, hupper] at h
      rw [List.getLast?_eq_none_iff.1 hupper, List.nil_append]
      rcases others with _ | ⟨lower, _ | ⟨upper, others⟩⟩
      · cases h
      · cases h
      cases h
      exact ((first_sublist _ others).cons_cons _).subperm

/-! ### The corners of an element -/

namespace MarkupTree

/-- The elements that have this local name. -/
def withName (localPart : String) (trees : List MarkupTree) : List MarkupTree :=
  trees.filter (·.name.localPart = localPart)

/-- The elements that have neither the name of a lower corner nor that of an upper one. -/
def unnamedCorners (trees : List MarkupTree) : List MarkupTree :=
  trees.filter fun tree => tree.name.localPart ≠ "lowerCorner" ∧ tree.name.localPart ≠ "upperCorner"

/-- The groups that the corners of an envelope are read from. -/
def corners? (trees : List MarkupTree) : Option (List String × List String) :=
  cornerPair ((withName "lowerCorner" trees).flatMap groups).getLast?
    ((withName "upperCorner" trees).flatMap groups).getLast? ((unnamedCorners trees).flatMap groups)

/-- Every element is a lower corner, an upper corner, or neither. -/
theorem corners_perm (trees : List MarkupTree) :
    (withName "lowerCorner" trees ++ (withName "upperCorner" trees ++ unnamedCorners trees)).Perm
      trees := by
  induction trees with
  | nil => exact .refl _
  | cons tree trees ih =>
    unfold withName unnamedCorners at *
    by_cases hlower : tree.name.localPart = "lowerCorner"
    · simpa [hlower] using ih.cons tree
    · by_cases hupper : tree.name.localPart = "upperCorner"
      · simpa [hupper] using List.perm_middle.trans (ih.cons tree)
      · rw [← List.append_assoc] at ih ⊢
        simpa [hlower, hupper] using List.perm_middle.trans (ih.cons tree)

end MarkupTree

open MarkupTree

/-- How a child of an envelope changes the corners met so far. -/
inductive CornerRead (corners : Cursor.Corners) (t : MarkupTree) : Cursor.Corners → Prop where
  | lower {p} : t.name.localPart = "lowerCorner" → WritesEach t.groups [p] →
      CornerRead corners t { corners with lower := some p }
  | upper {p} : t.name.localPart = "upperCorner" → WritesEach t.groups [p] →
      CornerRead corners t { corners with upper := some p }
  | other {ps} : t.name.localPart ≠ "lowerCorner" → t.name.localPart ≠ "upperCorner" →
      WritesEach t.groups ps → CornerRead corners t { corners with others := corners.others ++ ps }

/-- The corners met so far are those of the children: of each name the last, and all others. -/
structure CornersFrom (trees : List MarkupTree) (corners : Cursor.Corners) : Prop where
  lower : Option.Rel (fun group p => Writes group [p])
    ((withName "lowerCorner" trees).flatMap groups).getLast? corners.lower
  upper : Option.Rel (fun group p => Writes group [p])
    ((withName "upperCorner" trees).flatMap groups).getLast? corners.upper
  others : WritesEach ((unnamedCorners trees).flatMap groups) corners.others

theorem CornersFrom.step {done : List MarkupTree} {tree : MarkupTree}
    {corners corners' : Cursor.Corners} (h : CornersFrom done corners)
    (hstep : CornerRead corners tree corners') : CornersFrom (done ++ [tree]) corners' := by
  cases hstep with
  | lower hname hp =>
    obtain ⟨group, _, hgroup, hnone, hgroups⟩ := List.forall₂_cons_right_iff.1 hp
    cases hnone
    refine ⟨?_, ?_, ?_⟩
    · simpa [withName, List.filter_append, hname, hgroups] using Option.Rel.some hgroup
    · simpa [withName, List.filter_append, hname] using h.upper
    · simpa [unnamedCorners, List.filter_append, hname] using h.others
  | upper hname hp =>
    obtain ⟨group, _, hgroup, hnone, hgroups⟩ := List.forall₂_cons_right_iff.1 hp
    cases hnone
    refine ⟨?_, ?_, ?_⟩
    · simpa [withName, List.filter_append, hname] using h.lower
    · simpa [withName, List.filter_append, hname, hgroups] using Option.Rel.some hgroup
    · simpa [unnamedCorners, List.filter_append, hname] using h.others
  | other hlower hupper hps =>
    refine ⟨?_, ?_, ?_⟩
    · simpa [withName, List.filter_append, hlower] using h.lower
    · simpa [withName, List.filter_append, hupper] using h.upper
    · have hmore := List.rel_append h.others hps
      simpa [WritesEach, unnamedCorners, List.filter_append, hlower, hupper] using hmore

/-- An envelope has its corners and its reference system from its element. -/
structure EnvelopeRead (srs : Option String) (t : MarkupTree) (e : Envelope) : Prop where
  written_eq : t.written = t.childElements.flatMap groups
  corners : ∃ lower upper, corners? t.childElements = some (lower, upper) ∧
    Writes lower [e.lower] ∧ Writes upper [e.upper]
  srs_eq : e.srs = (t.srsName <|> srs)

/-- The groups chosen for the corners are two of those that are written. -/
theorem EnvelopeRead.subperm {srs : Option String} {t : MarkupTree} {e : Envelope}
    {lower upper : List String} (h : EnvelopeRead srs t e)
    (hcorners : corners? t.childElements = some (lower, upper)) :
    [lower, upper].Subperm t.written := by
  have hall := (corners_perm t.childElements).flatMap_right groups
  rw [List.flatMap_append, List.flatMap_append] at hall
  rw [h.written_eq]
  exact hall.subperm_left.1 (cornerPair_subperm hcorners)

namespace Cursor
variable {name : Name} {attributes : List Attribute}

theorem readsAs_corner (corners : Corners) :
    ReadsAs name attributes (corner name attributes corners) fun t corners' =>
      t.childElements = [] ∧ CornerRead corners t corners' := by
  unfold corner
  split
  next hname =>
    exact (readsAs_singlePosition (by simp [hname])).bind_pure fun children p h =>
      ⟨h.1, .lower hname h.2⟩
  next hname =>
    exact (readsAs_singlePosition (by simp [hname])).bind_pure fun children p h =>
      ⟨h.1, .upper hname h.2⟩
  next hname =>
    exact (readsAs_singlePosition (by simp [hname])).bind_pure fun children p h =>
      ⟨h.1, .other (by simp [hname]) (by simp [hname]) h.2⟩
  next hname =>
    exact (readsAs_tuplePositions hname).bind_pure fun children ps h =>
      ⟨h.1, .other (by simp [hname]) (by simp [hname]) h.2⟩
  · exact .fail _

/-- An envelope is read from two of the groups in it. -/
theorem readsAs_readEnvelope (srs : Option String) :
    ReadsAs name attributes (readEnvelope srs) (EnvelopeRead srs) := by
  refine readsAs_gmlElement_bind (elementReader_readEnvelope srs).forward (.guard fun _ => ?_)
  refine (ReadsAs.foldChildren (R := fun corners t corners' =>
    t.childElements = [] ∧ CornerRead corners t corners')
    (fun name attributes corners => readsAs_corner corners) ⟨none, none, []⟩).bind_still
    (fun ⟨_, corners⟩ => ?_) ?_
  · dsimp only
    cases corners.pair? with
    | some pair => exact .pure _
    | none => exact .fail _
  · rintro children ⟨tag, corners⟩ c e c' ⟨hblank, halong⟩ h
    dsimp only at h
    cases hpair : corners.pair? with
    | none =>
      rw [hpair] at h
      exact absurd h fail_ne_ok
    | some pair =>
      obtain ⟨lower, upper⟩ := pair
      rw [hpair] at h
      obtain ⟨rfl, -⟩ := pure_eq_ok.1 h
      have hleaves := halong.forall_mem fun _ _ _ hstep => hstep.1
      have hfrom := halong.invariant (P := CornersFrom) ⟨.none, .none, .nil⟩
        fun done tree _ _ hdone hstep => hdone.step hstep.2
      refine ⟨?_, ?_, rfl⟩
      · rw [written_of_blank hblank, flatMap_written_of_leaves hleaves]
      · rw [Corners.pair?_eq] at hpair
        exact exists_cornerPair (R := fun group p => Writes group [p]) hfrom.lower hfrom.upper
          hfrom.others hpair

end Cursor

end FeatureMarkup

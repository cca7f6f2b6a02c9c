import FeatureMarkup.Proofs.Geometry.Curves
import FeatureMarkup.Proofs.Geometry.Extent

/-! Which positions are read from an element.

Each reader is told by a relation between its element, with all that is in it, and what it
yields: the readers of positions by the tokens in a text, the loops around them by an
invariant over the children that have been read. -/
namespace FeatureMarkup

open Xml (Attribute)

variable {α β : Type} {c c' : Cursor}

/-- What leaves the cursor is done for each element of a list just if it can be done for each. -/
theorem mapM_eq_ok_iff {f : α → CursorM β} {R : α → β → Prop}
    (hf : ∀ a b c c', f a c = .ok b c' ↔ R a b ∧ c = c') {as : List α} {bs : List β} :
    as.mapM f c = .ok bs c' ↔ List.Forall₂ R as bs ∧ c = c' := by
  induction as generalizing bs with
  | nil =>
    rw [List.mapM_nil, pure_eq_ok, List.forall₂_nil_left_iff]
    exact and_congr_left fun _ => eq_comm
  | cons a as ih =>
    rw [List.mapM_cons]
    constructor
    · intro h
      obtain ⟨b, c₁, hb, h⟩ := bind_eq_ok.1 h
      obtain ⟨hR, rfl⟩ := (hf a b c c₁).1 hb
      obtain ⟨bs, c₂, hbs, h⟩ := bind_eq_ok.1 h
      obtain ⟨rfl, rfl⟩ := pure_eq_ok.1 h
      obtain ⟨hall, rfl⟩ := ih.1 hbs
      exact ⟨.cons hR hall, rfl⟩
    · rintro ⟨hall, rfl⟩
      cases hall with
      | @cons _ b _ bs hb hbs =>
        exact bind_eq_ok.2 ⟨b, c, (hf a b c c).2 ⟨hb, rfl⟩, bind_eq_ok.2 ⟨bs, c, ih.2 ⟨hbs, rfl⟩, rfl⟩⟩

namespace Cursor

/-! ### Numbers -/

theorem numbers_eq_ok_iff {tokens : List String} {ordinates : List Float} :
    numbers tokens c = .ok ordinates c' ↔
      tokens.map Number.ofToken? = ordinates.map some ∧ c = c' := by
  unfold numbers
  rw [mapM_eq_ok_iff (R := fun token number => Number.ofToken? token = some number),
    ← List.forall₂_eq_eq_eq, List.forall₂_map_left_iff, List.forall₂_map_right_iff]
  intro token number c c'
  unfold Number.ofToken?
  cases Number.parse? (Text.trim token) with
  | none => exact ⟨fun h => absurd h fail_ne_ok, nofun⟩
  | some found => simp

theorem statedDimension_eq_ok_iff {t : MarkupTree} {stated : Option Nat} :
    statedDimension t.attributes c = .ok stated c' ↔
      t.SoundDimension ∧ stated = t.dimension? ∧ c = c' := by
  unfold statedDimension MarkupTree.SoundDimension MarkupTree.dimension? MarkupTree.dimensionText?
  cases Attribute.find? t.attributes none "srsDimension" with
  | none => simp [eq_comm]
  | some text =>
    dsimp only
    cases hnumber : Number.parseNatural? (Text.trim text) with
    | none => simp [hnumber]
    | some dimension => simp [hnumber, eq_comm]

/-! ### Positions -/

/-- Groups of the size that positions have are these positions. -/
theorem filterMap_takeGroups {size : Nat} {ps : List Coordinate}
    (h : ∀ p ∈ ps, p.ordinates.length = size) :
    (takeGroups size ps.length (ps.flatMap Coordinate.ordinates)).filterMap Coordinate.ofOrdinates? =
      ps := by
  induction ps with
  | nil => rfl
  | cons p ps ih =>
    obtain ⟨hp, hps⟩ := List.forall_mem_cons.1 h
    rw [List.length_cons, takeGroups, List.flatMap_cons, ← hp, List.take_left, List.drop_left,
      List.filterMap_cons_some p.ofOrdinates?_ordinates, hp, ih hps]

/-- The numbers of one position. -/
theorem position_eq_ok_iff {tokens : List String} {problem : List Float → GeometryProblem}
    {p : Coordinate} :
    (numbers tokens >>= fun ordinates => match Coordinate.ofOrdinates? ordinates with
      | some position => pure position
      | none => failGeometry (problem ordinates)) c = .ok p c' ↔ Writes tokens [p] ∧ c = c' := by
  have hwrites : Writes tokens [p] ↔ tokens.map Number.ofToken? = p.ordinates.map some := by
    simp [Writes]
  rw [hwrites]
  constructor
  · intro h
    obtain ⟨ordinates, c₁, hnumbers, h⟩ := bind_eq_ok.1 h
    obtain ⟨hordinates, rfl⟩ := numbers_eq_ok_iff.1 hnumbers
    cases hposition : Coordinate.ofOrdinates? ordinates with
    | none =>
      rw [hposition] at h
      exact absurd h fail_ne_ok
    | some position =>
      rw [hposition] at h
      obtain ⟨rfl, rfl⟩ := pure_eq_ok.1 h
      exact ⟨by rw [Coordinate.ofOrdinates?_eq_some hposition, hordinates], rfl⟩
  · rintro ⟨hordinates, rfl⟩
    refine bind_eq_ok.2 ⟨p.ordinates, c, numbers_eq_ok_iff.2 ⟨hordinates, rfl⟩, ?_⟩
    rw [p.ofOrdinates?_ordinates]
    rfl

theorem tuplePosition_eq_ok_iff {separator tuple : String} {p : Coordinate} :
    tuplePosition separator tuple c = .ok p c' ↔ Writes (Text.fields separator tuple) [p] ∧ c = c' :=
  position_eq_ok_iff

theorem tuples_eq_ok_iff {separator : String} {tuples : List String} {ps : List Coordinate} :
    tuples.mapM (tuplePosition separator) c = .ok ps c' ↔
      WritesEach (tuples.map (Text.fields separator)) ps ∧ c = c' := by
  rw [WritesEach, List.forall₂_map_left_iff]
  exact mapM_eq_ok_iff (R := fun tuple p => Writes (Text.fields separator tuple) [p])
    fun _ _ _ _ => tuplePosition_eq_ok_iff

/-- A position list is read as groups of the dimension that leave nothing over. -/
theorem listPositions_eq_ok_iff {dimension : Nat} {text : String} {ps : List Coordinate} :
    listPositions dimension text c = .ok ps c' ↔ (dimension = 2 ∨ dimension = 3) ∧
      (∀ p ∈ ps, p.ordinates.length = dimension) ∧ Writes (Text.words text) ps ∧ c = c' := by
  have hgroups {ps : List Coordinate} (hdimension : dimension = 2 ∨ dimension = 3)
      (hsizes : ∀ p ∈ ps, p.ordinates.length = dimension) {values : List Float}
      (hvalues : ps.flatMap Coordinate.ordinates = values)
      (hlength : values.length = ps.length * dimension) :
      (groupsOf dimension values).filterMap Coordinate.ofOrdinates? = ps := by
    rw [groupsOf, hlength, Nat.mul_div_cancel _ (by omega), ← hvalues, filterMap_takeGroups hsizes]
  unfold listPositions failGeometry
  rw [guard_eq_ok]
  constructor
  · rintro ⟨hlimits, h⟩
    obtain ⟨ordinates, c₁, hnumbers, h⟩ := bind_eq_ok.1 h
    obtain ⟨heven, h⟩ := guard_eq_ok.1 h
    obtain ⟨rfl, rfl⟩ := pure_eq_ok.1 h
    obtain ⟨hordinates, rfl⟩ := numbers_eq_ok_iff.1 hnumbers
    have hdimension : dimension = 2 ∨ dimension = 3 := by omega
    have hlength : ordinates.length = ordinates.length / dimension * dimension :=
      (Nat.div_mul_cancel (Nat.dvd_of_mod_eq_zero (Decidable.not_not.1 heven))).symm
    obtain ⟨ps, hps, hcount, hsizes⟩ := Coordinate.exists_of_groups hdimension _ _ hlength
    rw [hgroups hdimension hsizes hps (hcount ▸ hlength)]
    exact ⟨hdimension, hsizes, by rw [Writes, hps, hordinates], rfl⟩
  · rintro ⟨hdimension, hsizes, hwrites, rfl⟩
    have hlength : (ps.flatMap Coordinate.ordinates).length = ps.length * dimension := by
      rw [← hwrites.length_of_sizes hsizes]
      simpa using congrArg List.length hwrites.symm
    refine ⟨by omega, bind_eq_ok.2 ⟨_, c, numbers_eq_ok_iff.2 ⟨hwrites, rfl⟩, guard_eq_ok.2 ⟨?_, ?_⟩⟩⟩
    · rw [hlength, Nat.mul_mod_left]
      exact fun hne => hne rfl
    · rw [hgroups hdimension hsizes rfl hlength]
      rfl

/-! ### Elements with positions in their text -/

variable {name : Name} {attributes : List Attribute}

/-- The dimension that an element states is looked at before anything is read. -/
theorem readsAs_statedDimension_bind {f : Option Nat → CursorM α} {R : MarkupTree → α → Prop}
    (hf : ReadsAs name attributes (f (MarkupTree.dimension? ⟨name, attributes, []⟩)) R) :
    ReadsAs name attributes (statedDimension attributes >>= f) fun t a => t.SoundDimension ∧ R t a := by
  refine .still_bind_of (steady_statedDimension attributes).still
    (P := fun stated => MarkupTree.SoundDimension ⟨name, attributes, []⟩ ∧
      stated = MarkupTree.dimension? ⟨name, attributes, []⟩) (fun c stated c' h => ?_) ?_
  · obtain ⟨hsound, hstated, -⟩ :=
      (statedDimension_eq_ok_iff (t := ⟨name, attributes, []⟩)).1 h
    exact ⟨hsound, hstated⟩
  · rintro stated ⟨hsound, rfl⟩
    exact hf.mono fun children a h => ⟨hsound, h⟩

theorem readsAs_wordsPosition : ReadsAs name attributes singlePosition fun t p =>
    t.childElements = [] ∧ Writes t.words [p] := by
  refine ReadsAs.elementText.bind_still
    (fun _ => ((steady_numbers _).bind fun _ => steady_position _).still) ?_
  rintro children text c p c' ⟨hleaf, rfl⟩ h
  exact ⟨hleaf, (position_eq_ok_iff.1 h).1⟩

theorem readsAs_wordsTuples : ReadsAs name attributes (tuplePositions attributes) fun t ps =>
    t.childElements = [] ∧ WritesEach (t.words.map (Text.fields t.separator)) ps := by
  refine ReadsAs.elementText.bind_still
    (fun _ => (Steady.mapM (steady_tuplePosition _) _).still) ?_
  rintro children text c ps c' ⟨hleaf, rfl⟩ h
  exact ⟨hleaf, (tuples_eq_ok_iff.1 h).1⟩

theorem readsAs_singlePosition
    (hname : name.localPart ∈ ["pos", "posList", "lowerCorner", "upperCorner"]) :
    ReadsAs name attributes singlePosition fun t p =>
      t.childElements = [] ∧ WritesEach t.groups [p] :=
  readsAs_wordsPosition.mono fun _ _ h => ⟨h.1, MarkupTree.writesEach_of_position hname h.2⟩

theorem readsAs_tuplePositions (hname : name.localPart = "coordinates") :
    ReadsAs name attributes (tuplePositions attributes) fun t ps =>
      t.childElements = [] ∧ WritesEach t.groups ps :=
  readsAs_wordsTuples.mono fun _ _ h => ⟨h.1, by
    rw [MarkupTree.groups_of_tuples hname]
    exact h.2⟩

/-! ### Points and curves -/

/-- A point is read from the first group of its last child. -/
theorem readsAs_readPoint : ReadsAs name attributes readPoint fun t p =>
    t.written = t.childElements.flatMap MarkupTree.groups ∧
      ∃ group, t.pointGroup? = some group ∧ Writes group [p] := by
  refine (ReadsAs.foldChildren (R := fun _ t position => t.childElements = [] ∧
    ∃ ps, WritesEach t.groups ps ∧ position = ps.head?)
    (fun name attributes _ => ?_) none).bind_still (fun ⟨_, position⟩ => ?_) ?_
  · split
    next hname =>
      exact (readsAs_singlePosition (by simp [hname])).map fun children p h => ⟨h.1, [p], h.2, rfl⟩
    next hname =>
      exact (readsAs_tuplePositions hname).map fun children ps h => ⟨h.1, ps, h.2, rfl⟩
    · exact .fail _
  · cases position with
    | some position => exact .pure _
    | none => exact .fail _
  · rintro children ⟨tag, position⟩ c p c' ⟨hblank, halong⟩ h
    cases position with
    | none => exact absurd h fail_ne_ok
    | some position =>
      obtain ⟨rfl, -⟩ := pure_eq_ok.1 h
      have hleaves := halong.forall_mem fun _ _ _ hstep => hstep.1
      have hinv := halong.invariant (P := fun done position => ∀ p, position = some p →
        ∃ last ps, done.getLast? = some last ∧ WritesEach last.groups ps ∧ ps.head? = some p)
        nofun fun done tree _ _ _ hstep => by
          obtain ⟨-, ps, hps, rfl⟩ := hstep
          exact fun p hp => ⟨tree, ps, by simp, hps, hp⟩
      obtain ⟨last, ps, hlast, hps, hp⟩ := hinv position rfl
      obtain ⟨rest, rfl⟩ := List.head?_eq_some_iff.1 hp
      obtain ⟨group, groups, hgroup, -, hgroups⟩ := List.forall₂_cons_right_iff.1 hps
      refine ⟨?_, group, ?_, hgroup⟩
      · rw [MarkupTree.written_of_blank hblank, MarkupTree.flatMap_written_of_leaves hleaves]
      · rw [MarkupTree.pointGroup?, hlast, Option.bind_some, hgroups, List.head?_cons]

theorem readsAs_curvePositions (dimension : Option Nat) :
    ReadsAs name attributes (curvePositions dimension name attributes) fun t ps =>
      t.childElements = [] ∧ PositionsIn dimension t ps := by
  unfold curvePositions
  split
  next hname =>
    refine (readsAs_statedDimension_bind (R := fun t ps => t.childElements = [] ∧
      (t.dimensionIn dimension = 2 ∨ t.dimensionIn dimension = 3) ∧
      (∀ p ∈ ps, p.ordinates.length = t.dimensionIn dimension) ∧ Writes t.words ps) ?_).mono ?_
    · refine ReadsAs.elementText.bind_still (fun text => (steady_listPositions _ text).still) ?_
      rintro children text c ps c' ⟨hleaf, rfl⟩ h
      obtain ⟨hdimension, hsizes, hwrites, -⟩ := listPositions_eq_ok_iff.1 h
      exact ⟨hleaf, hdimension, hsizes, hwrites⟩
    · rintro children ps ⟨hsound, hleaf, hdimension, hsizes, hwrites⟩
      exact ⟨hleaf, .list hname hsound hdimension hsizes hwrites⟩
  next hname =>
    exact readsAs_wordsPosition.bind_pure fun _ _ h => ⟨h.1, .single hname h.2⟩
  next hname => exact readsAs_wordsTuples.mono fun _ _ h => ⟨h.1, .tuples hname h.2⟩
  · exact .fail _

/-- A curve is read from all of its children. -/
theorem readsAs_readCurve (dimension : Option Nat) :
    ReadsAs name attributes (readCurve dimension) (CurveRead dimension) := by
  refine (ReadsAs.foldChildren (R := fun runs t runs' => t.childElements = [] ∧
    ∃ ps, runs' = ps :: runs ∧ PositionsIn dimension t ps)
    (fun name attributes runs => ?_) []).bind_still (fun _ => (Steady.guard (.pure _)).still) ?_
  · exact (readsAs_curvePositions dimension).map fun children ps h => ⟨h.1, ps, rfl, h.2⟩
  · rintro children ⟨tag, runs⟩ c cs c' ⟨hblank, halong⟩ h
    unfold failGeometry at h
    obtain ⟨htwo, h⟩ := guard_eq_ok.1 h
    obtain ⟨rfl, -⟩ := pure_eq_ok.1 h
    have hruns := halong.invariant (P := fun done (runs : List (List Coordinate)) =>
      List.Forall₂ (PositionsIn dimension) done runs.reverse)
      .nil fun done tree _ _ hdone hstep => by
        obtain ⟨-, ps, rfl, hps⟩ := hstep
        simpa using List.rel_append hdone (.cons hps .nil)
    exact ⟨hblank, halong.forall_mem fun _ _ _ hstep => hstep.1, ⟨_, rfl, hruns⟩, Nat.not_lt.1 htwo⟩

/-! ### Surfaces -/

/-- Reads one child of a boundary, as a loop over its children would. -/
def ringChild (dimension : Option Nat) (name : Name) (attributes : List Attribute)
    (rings : List (List Coordinate)) : CursorM (List (List Coordinate)) := do
  if name.localPart ≠ "LinearRing" then
    failGeometry .notARing
  let stated ← statedDimension attributes
  (rings ++ [·]) <$> readCurve (stated <|> dimension)

/-- A boundary that is read is a loop over one ring. -/
theorem foldChildren_of_readRing {dimension : Option Nat} {ring : List Coordinate}
    (h : readRing dimension c = .ok ring c') :
    ∃ tag, foldChildren (ringChild dimension) [] c = .ok (tag, [ring]) c' := by
  obtain ⟨tag, c₁, hstart, h⟩ := bind_eq_ok.1 h
  cases tag with
  | stop | finish => exact absurd h fail_ne_ok
  | start name attributes =>
    unfold failGeometry at h
    obtain ⟨hname, h⟩ := guard_eq_ok.1 h
    obtain ⟨stated, c₂, hstated, h⟩ := bind_eq_ok.1 h
    obtain ⟨found, c₃, hcurve, h⟩ := bind_eq_ok.1 h
    obtain ⟨tag, c₄, hstop, h⟩ := bind_eq_ok.1 h
    cases tag with
    | start | finish => exact absurd h fail_ne_ok
    | stop name' =>
      obtain ⟨rfl, rfl⟩ := pure_eq_ok.1 h
      have hchild : ringChild dimension name attributes [] c₁ = .ok [found] c₃ := by
        unfold ringChild failGeometry
        refine guard_eq_ok.2 ⟨hname, bind_eq_ok.2 ⟨stated, c₂, hstated, ?_⟩⟩
        exact map_eq_ok.2 ⟨found, hcurve, rfl⟩
      have hsome : 0 < c.remaining := by
        obtain ⟨-, _, -, hreach⟩ := nextTag_eq_start_iff.1 hstart
        have := hreach.length_lt
        rw [c.remaining_eq]
        omega
      refine ⟨.stop name', ?_⟩
      show foldTags nextTag (ringChild dimension) (c.remaining + 1) [] c = _
      refine bind_eq_ok.2 ⟨_, c₁, hstart, bind_eq_ok.2 ⟨[found], c₃, hchild, ?_⟩⟩
      obtain ⟨rounds, hrounds⟩ := Nat.exists_eq_succ_of_ne_zero (Nat.ne_of_gt hsome)
      rw [hrounds]
      exact bind_eq_ok.2 ⟨_, c₄, hstop, rfl⟩

/-- A boundary is read from the ring in it. -/
theorem readsAs_readRing (dimension : Option Nat) :
    ReadsAs name attributes (readRing dimension) (BoundaryRead dimension) := by
  have hloop : ReadsAs name attributes (foldChildren (ringChild dimension) []) fun t r =>
      Text.allBlank t.ownText = true ∧ Along (fun rings tree rings' => ∃ ring, rings' = rings ++ [ring] ∧
        tree.name.localPart = "LinearRing" ∧ LineRead dimension tree ring) []
        (t.childElements.map .element) r.2 := by
    refine .foldChildren (fun name attributes rings => .guard fun hname => ?_) []
    refine (readsAs_statedDimension_bind ((readsAs_readCurve _).map (Q := fun t rings' =>
      ∃ ring, rings' = rings ++ [ring] ∧ CurveRead (t.dimension? <|> dimension) t ring)
      fun _ ring h => ⟨ring, rfl, h⟩)).mono fun children rings' h => ?_
    obtain ⟨hsound, ring, rfl, hring⟩ := h
    exact ⟨ring, rfl, Decidable.not_not.1 hname, hsound, hring⟩
  refine .of_reads (elementReader_readRing dimension).toReadsElement hloop fun c ring c' h => ?_
  obtain ⟨tag, hread⟩ := foldChildren_of_readRing h
  refine ⟨_, hread, fun children hgiven => ?_⟩
  obtain ⟨hblank, halong⟩ := hgiven
  obtain ⟨rings, hrings, hall⟩ := halong.forall₂
  obtain rfl : [ring] = rings := hrings
  obtain ⟨tree, trees, ⟨hname, hring⟩, hnone, htrees⟩ := List.forall₂_cons_right_iff.1 hall
  cases hnone
  exact ⟨hblank, tree, htrees, hname, hring⟩

/-- A polygon is read from its last exterior and from each of its interiors. -/
theorem readsAs_readPolygon (dimension : Option Nat) :
    ReadsAs name attributes (readPolygon dimension) (PolygonRead dimension) := by
  refine (ReadsAs.foldChildren (R := fun (found : Option (List Coordinate) × List (List Coordinate))
    t found' => ∃ ring, BoundaryRead dimension t ring ∧
      found' = if t.isExterior then (some ring, found.2) else (found.1, found.2 ++ [ring]))
    (fun name attributes ⟨exterior, interiors⟩ => ?_) (none, [])).bind_still
    (fun ⟨_, exterior, _⟩ => ?_) ?_
  · dsimp only
    split
    case h_1 hname | h_2 hname | h_3 hname | h_4 hname =>
      exact (readsAs_readRing dimension).bind_pure fun children ring h =>
        ⟨ring, h, by simp [MarkupTree.isExterior, MarkupTree.isNamed, hname]⟩
    · exact .fail _
  · cases exterior with
    | some exterior => exact .pure _
    | none => exact .fail _
  · rintro children ⟨tag, exterior, interiors⟩ c polygon c' ⟨hblank, halong⟩ h
    cases exterior with
    | none => exact absurd h fail_ne_ok
    | some exterior =>
      obtain ⟨rfl, -⟩ := pure_eq_ok.1 h
      have hboundaries := halong.forall_mem (P := fun b => ∃ cs, BoundaryRead dimension b cs)
        fun _ _ _ hstep => by
          obtain ⟨ring, hring, -⟩ := hstep
          exact ⟨ring, hring⟩
      obtain ⟨hexterior, hinteriors⟩ := halong.invariant (P := fun done found =>
        (∀ ring, found.1 = some ring → ∃ last, (done.filter MarkupTree.isExterior).getLast? = some last ∧
          BoundaryRead dimension last ring) ∧
        List.Forall₂ (BoundaryRead dimension) (done.filter (!·.isExterior)) found.2)
        ⟨nofun, .nil⟩ fun done tree found _ hdone hstep => by
          obtain ⟨hlast, hrings⟩ := hdone
          obtain ⟨ring, hring, rfl⟩ := hstep
          cases hname : tree.isExterior with
          | true =>
            refine ⟨?_, by simpa [List.filter_append, hname] using hrings⟩
            rintro _ ⟨⟩
            exact ⟨tree, by simp [List.filter_append, hname], hring⟩
          | false =>
            refine ⟨by simpa [List.filter_append, hname] using hlast, ?_⟩
            simpa [List.filter_append, hname] using List.rel_append hrings (.cons hring .nil)
      exact ⟨hblank, hboundaries, hexterior exterior rfl, hinteriors⟩

end Cursor

end FeatureMarkup

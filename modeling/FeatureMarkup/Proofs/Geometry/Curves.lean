import Mathlib.Algebra.GroupWithZero.Nat
import FeatureMarkup.Proofs.Geometry.Tokens
import FeatureMarkup.Proofs.Pointwise

/-! How the positions of a curve are written.

A curve has its positions in its children, in any of three ways: a list is numbers in groups of
the dimension in force, a single position is two or three numbers, and tuples stand between
blanks, each with two or three numbers of its own. `PositionsIn` says which positions a child
holds and `PositionsWritten` whether it holds any, by its tokens alone; `CurveRead` and
`CurveWritten` say the same of a whole curve, and `CurveWritten.iff_exists` is that they agree. -/
namespace FeatureMarkup

open Xml (Attribute)

/-! ### Dimensions -/

namespace MarkupTree

/-- What an element states as its dimension, as text. -/
def dimensionText? (t : MarkupTree) : Option String := Attribute.find? t.attributes none "srsDimension"

/-- The dimension that an element states. -/
def dimension? (t : MarkupTree) : Option Nat :=
  t.dimensionText?.bind fun text => Number.parseNatural? (Text.trim text)

/-- An element that states anything as its dimension states a number. -/
def SoundDimension (t : MarkupTree) : Prop := t.dimensionText?.isSome → t.dimension?.isSome

instance (t : MarkupTree) : Decidable t.SoundDimension :=
  inferInstanceAs (Decidable (_ → _))

/-- The dimension in force in an element: the one that it states, else the one around it, else
two. -/
def dimensionIn (outer : Option Nat) (t : MarkupTree) : Nat := (t.dimension? <|> outer).getD 2

end MarkupTree

/-! ### Numbers in groups -/

namespace Coordinate

/-- A position is made again of its ordinates. -/
theorem ofOrdinates?_ordinates (p : Coordinate) : ofOrdinates? p.ordinates = some p := by
  obtain ⟨x, y, _ | z⟩ := p <;> rfl

theorem length_ordinates (p : Coordinate) : p.ordinates.length = 2 ∨ p.ordinates.length = 3 := by
  obtain ⟨x, y, _ | z⟩ := p
  · exact .inl rfl
  · exact .inr rfl

/-- As many ordinates as a position may have make one. -/
theorem exists_ofOrdinates? {ordinates : List Float}
    (h : ordinates.length = 2 ∨ ordinates.length = 3) : ∃ p, ofOrdinates? ordinates = some p := by
  match ordinates, h with
  | [x, y], _ => exact ⟨_, rfl⟩
  | [x, y, z], _ => exact ⟨_, rfl⟩
  | [], h | [_], h | _ :: _ :: _ :: _ :: _, h => simp at h

/-- So many groups of two or of three ordinates make so many positions of that size. -/
theorem exists_of_groups {size : Nat} (hsize : size = 2 ∨ size = 3) (count : Nat)
    (values : List Float) (h : values.length = count * size) :
    ∃ ps : List Coordinate, ps.flatMap ordinates = values ∧ ps.length = count ∧
      ∀ p ∈ ps, p.ordinates.length = size := by
  induction count generalizing values with
  | zero =>
    rw [Nat.zero_mul] at h
    rw [List.length_eq_zero_iff.1 h]
    exact ⟨[], rfl, rfl, nofun⟩
  | succ count ih =>
    rw [Nat.succ_mul] at h
    have htake : (values.take size).length = size := by
      rw [List.length_take]
      omega
    have hdrop : (values.drop size).length = count * size := by
      rw [List.length_drop]
      omega
    obtain ⟨p, hp⟩ := exists_ofOrdinates? (htake.symm ▸ hsize)
    have hordinates := ofOrdinates?_eq_some hp
    obtain ⟨ps, hps, hcount, hsizes⟩ := ih _ hdrop
    refine ⟨p :: ps, ?_, by rw [List.length_cons, hcount], ?_⟩
    · rw [List.flatMap_cons, hordinates, hps, List.take_append_drop]
    · exact List.forall_mem_cons.2 ⟨by rw [hordinates, htake], hsizes⟩

end Coordinate

/-- Tokens that are all numbers write these. -/
theorem Number.exists_ordinates {tokens : List String}
    (h : ∀ token ∈ tokens, (Number.ofToken? token).isSome) :
    ∃ ordinates : List Float, tokens.map Number.ofToken? = ordinates.map some := by
  induction tokens with
  | nil => exact ⟨[], rfl⟩
  | cons token tokens ih =>
    rw [List.forall_mem_cons] at h
    obtain ⟨number, hnumber⟩ := Option.isSome_iff_exists.1 h.1
    obtain ⟨ordinates, hordinates⟩ := ih h.2
    exact ⟨number :: ordinates, by rw [List.map_cons, hnumber, hordinates, List.map_cons]⟩

namespace Writes
variable {tokens : List String} {ps : List Coordinate}

theorem isSome (h : Writes tokens ps) : ∀ token ∈ tokens, (Number.ofToken? token).isSome := by
  intro token htoken
  have hmem : Number.ofToken? token ∈ (ps.flatMap Coordinate.ordinates).map some := by
    rw [← show _ = _ from h]
    exact List.mem_map_of_mem htoken
  obtain ⟨number, -, hnumber⟩ := List.mem_map.1 hmem
  rw [← hnumber]
  rfl

theorem length_single {p : Coordinate} (h : Writes tokens [p]) :
    tokens.length = p.ordinates.length := by
  simpa [Writes] using congrArg List.length h

theorem length_two_or_three {p : Coordinate} (h : Writes tokens [p]) :
    tokens.length = 2 ∨ tokens.length = 3 := by
  rw [h.length_single]
  exact p.length_ordinates

/-- Positions of one size are written with so many tokens each. -/
theorem length_of_sizes {size : Nat} (h : Writes tokens ps)
    (hsizes : ∀ p ∈ ps, p.ordinates.length = size) : tokens.length = ps.length * size := by
  have hlength : tokens.length = (ps.flatMap Coordinate.ordinates).length := by
    simpa using congrArg List.length h
  rw [hlength, List.length_flatMap, List.map_congr_left hsizes]
  simp

/-- Two or three numbers write one position. -/
theorem exists_single (hnumbers : ∀ token ∈ tokens, (Number.ofToken? token).isSome)
    (hlength : tokens.length = 2 ∨ tokens.length = 3) :
    ∃ p, Writes tokens [p] := by
  obtain ⟨ordinates, hordinates⟩ := Number.exists_ordinates hnumbers
  have hsame : tokens.length = ordinates.length := by simpa using congrArg List.length hordinates
  obtain ⟨p, hp⟩ := Coordinate.exists_ofOrdinates? (hsame ▸ hlength)
  exact ⟨p, by simpa [Writes, Coordinate.ofOrdinates?_eq_some hp] using hordinates⟩

/-- So many groups of two or of three numbers write so many positions of that size. -/
theorem exists_of_groups {size : Nat} (hsize : size = 2 ∨ size = 3) (count : Nat)
    (hnumbers : ∀ token ∈ tokens, (Number.ofToken? token).isSome)
    (hlength : tokens.length = count * size) :
    ∃ ps, Writes tokens ps ∧ ps.length = count ∧ ∀ p ∈ ps, p.ordinates.length = size := by
  obtain ⟨ordinates, hordinates⟩ := Number.exists_ordinates hnumbers
  have hsame : tokens.length = ordinates.length := by simpa using congrArg List.length hordinates
  obtain ⟨ps, rfl, hrest⟩ := Coordinate.exists_of_groups hsize count ordinates (hsame ▸ hlength)
  exact ⟨ps, hordinates, hrest⟩

end Writes

/-! ### The positions in a child of a curve -/

/-- The positions that a child of a curve holds, with the dimension in force around it. -/
inductive PositionsIn (outer : Option Nat) (t : MarkupTree) : List Coordinate → Prop where
  /-- Consecutive groups of the dimension in force. -/
  | list {ps} : t.name.localPart = "posList" → t.SoundDimension →
      t.dimensionIn outer = 2 ∨ t.dimensionIn outer = 3 →
      (∀ p ∈ ps, p.ordinates.length = t.dimensionIn outer) → Writes t.words ps →
      PositionsIn outer t ps
  /-- One group. -/
  | single {p} : t.name.localPart = "pos" → Writes t.words [p] → PositionsIn outer t [p]
  /-- A group for each word. -/
  | tuples {ps} : t.name.localPart = "coordinates" →
      WritesEach (t.words.map (Text.fields t.separator)) ps → PositionsIn outer t ps

/-- A child of a curve holds so many positions, by its tokens. -/
inductive PositionsWritten (outer : Option Nat) (t : MarkupTree) : Nat → Prop where
  | list {count} : t.name.localPart = "posList" → t.SoundDimension →
      t.dimensionIn outer = 2 ∨ t.dimensionIn outer = 3 →
      (∀ token ∈ t.words, (Number.ofToken? token).isSome) →
      t.words.length = count * t.dimensionIn outer → PositionsWritten outer t count
  | single : t.name.localPart = "pos" → (∀ token ∈ t.words, (Number.ofToken? token).isSome) →
      t.words.length = 2 ∨ t.words.length = 3 → PositionsWritten outer t 1
  | tuples : t.name.localPart = "coordinates" →
      (∀ tuple ∈ t.words, (∀ token ∈ Text.fields t.separator tuple, (Number.ofToken? token).isSome) ∧
        ((Text.fields t.separator tuple).length = 2 ∨ (Text.fields t.separator tuple).length = 3)) →
      PositionsWritten outer t t.words.length

variable {outer : Option Nat} {t : MarkupTree} {ps : List Coordinate}

namespace PositionsIn

/-- All groups of a child are read. -/
theorem writes (h : PositionsIn outer t ps) : Writes t.groups.flatten ps := by
  cases h with
  | list hname _ _ _ hwrites =>
    rwa [MarkupTree.flatten_groups_of_text (by simp [hname])]
  | single hname hwrites =>
    rwa [MarkupTree.flatten_groups_of_text (by simp [hname])]
  | tuples hname hwrites =>
    rw [MarkupTree.groups_of_tuples hname]
    exact hwrites.writes

theorem written (h : PositionsIn outer t ps) : PositionsWritten outer t ps.length := by
  cases h with
  | list hname hsound hdimension hsizes hwrites =>
    exact .list hname hsound hdimension hwrites.isSome (hwrites.length_of_sizes hsizes)
  | single hname hwrites =>
    exact .single hname hwrites.isSome (hwrites.length_two_or_three)
  | tuples hname hwrites =>
    have hlength : t.words.length = ps.length := by simpa using hwrites.length_eq
    rw [← hlength]
    refine .tuples hname fun tuple htuple => ?_
    obtain ⟨p, -, hp⟩ := forall₂_mem hwrites (List.mem_map_of_mem htuple)
    exact ⟨hp.isSome, hp.length_two_or_three⟩

end PositionsIn

theorem PositionsWritten.exists_positionsIn {count : Nat} (h : PositionsWritten outer t count) :
    ∃ ps, PositionsIn outer t ps ∧ ps.length = count := by
  cases h with
  | list hname hsound hdimension hnumbers hlength =>
    obtain ⟨ps, hwrites, hcount, hsizes⟩ := Writes.exists_of_groups hdimension _ hnumbers hlength
    exact ⟨ps, .list hname hsound hdimension hsizes hwrites, hcount⟩
  | single hname hnumbers hlength =>
    obtain ⟨p, hwrites⟩ := Writes.exists_single hnumbers hlength
    exact ⟨[p], .single hname hwrites, rfl⟩
  | tuples hname htuples =>
    have hall : ∀ group ∈ t.words.map (Text.fields t.separator), ∃ p, Writes group [p] := by
      intro group hgroup
      obtain ⟨tuple, htuple, rfl⟩ := List.mem_map.1 hgroup
      exact Writes.exists_single (htuples tuple htuple).1 (htuples tuple htuple).2
    obtain ⟨ps, hps⟩ := exists_forall₂ hall
    exact ⟨ps, .tuples hname hps, by simpa using hps.length_eq.symm⟩

/-! ### Curves -/

/-- A curve has its positions from its children, in order. -/
structure CurveRead (outer : Option Nat) (t : MarkupTree) (cs : List Coordinate) : Prop where
  blank : Text.allBlank t.ownText = true
  leaves : ∀ child ∈ t.childElements, child.childElements = []
  runs : ∃ runs, cs = runs.flatten ∧ List.Forall₂ (PositionsIn outer) t.childElements runs
  two_le : 2 ≤ cs.length

/-- The children of a curve hold two positions or more, by their tokens. -/
structure CurveWritten (outer : Option Nat) (t : MarkupTree) : Prop where
  blank : Text.allBlank t.ownText = true
  leaves : ∀ child ∈ t.childElements, child.childElements = []
  counts : ∃ counts, List.Forall₂ (PositionsWritten outer) t.childElements counts ∧ 2 ≤ counts.sum

namespace CurveRead
variable {cs : List Coordinate}

/-- Nothing but the groups of its children is written in a curve. -/
theorem written_eq (h : CurveRead outer t cs) : t.written = t.curveGroups := by
  rw [MarkupTree.written_of_blank h.blank, MarkupTree.flatMap_written_of_leaves h.leaves]
  rfl

/-- Every token of a curve is read, in order. -/
theorem writes (h : CurveRead outer t cs) : Writes t.curveGroups.flatten cs := by
  obtain ⟨runs, rfl, hruns⟩ := h.runs
  have hall : Writes (t.childElements.flatMap MarkupTree.groups).flatten (runs.flatMap id) :=
    .flatMap (hruns.imp fun _ _ hrun => hrun.writes)
  rwa [List.flatMap_id] at hall

end CurveRead

/-- A curve can be read just if its tokens are as they should be. -/
theorem CurveWritten.iff_exists : CurveWritten outer t ↔ ∃ cs, CurveRead outer t cs := by
  constructor
  · intro h
    obtain ⟨counts, hcounts, hsum⟩ := h.counts
    obtain ⟨runs, hruns, rfl⟩ := exists_forall₂_of_forall₂ hcounts fun _ _ hchild =>
      hchild.exists_positionsIn
    exact ⟨runs.flatten, h.blank, h.leaves, ⟨runs, rfl, hruns⟩, by simpa using hsum⟩
  · intro hgiven
    obtain ⟨cs, h⟩ := hgiven
    obtain ⟨runs, rfl, hruns⟩ := h.runs
    refine ⟨h.blank, h.leaves, runs.map List.length, ?_, by simpa using h.two_le⟩
    exact List.forall₂_map_right_iff.2 (hruns.imp fun _ _ hrun => hrun.written)

/-! ### Surfaces -/

/-- A curve that states a dimension of its own, or none, with the one in force around it. -/
structure LineRead (outer : Option Nat) (t : MarkupTree) (cs : List Coordinate) : Prop where
  sound : t.SoundDimension
  curve : CurveRead (t.dimension? <|> outer) t cs

/-- A boundary has its positions from the one ring in it. -/
structure BoundaryRead (outer : Option Nat) (t : MarkupTree) (cs : List Coordinate) : Prop where
  blank : Text.allBlank t.ownText = true
  ring : ∃ ring, t.childElements = [ring] ∧ ring.name.localPart = "LinearRing" ∧ LineRead outer ring cs

theorem BoundaryRead.written_eq {cs : List Coordinate} (h : BoundaryRead outer t cs) :
    t.written = t.boundaryGroups := by
  obtain ⟨ring, hring, -, hread⟩ := h.ring
  rw [MarkupTree.written_of_blank h.blank, MarkupTree.boundaryGroups, hring, List.flatMap_singleton,
    List.flatMap_singleton, hread.curve.written_eq]

theorem BoundaryRead.writes {cs : List Coordinate} (h : BoundaryRead outer t cs) :
    Writes t.boundaryGroups.flatten cs := by
  obtain ⟨ring, hring, -, hread⟩ := h.ring
  rw [MarkupTree.boundaryGroups, hring, List.flatMap_singleton]
  exact hread.curve.writes

/-- A polygon has its rings from its last exterior and from each of its interiors, and any other
exterior could be read as well. -/
structure PolygonRead (outer : Option Nat) (t : MarkupTree) (p : Polygon) : Prop where
  blank : Text.allBlank t.ownText = true
  boundaries : ∀ b ∈ t.childElements, ∃ cs, BoundaryRead outer b cs
  exterior : ∃ last, t.exteriors.getLast? = some last ∧ BoundaryRead outer last p.exterior
  interiors : List.Forall₂ (BoundaryRead outer) t.interiors p.interiors

/-- Nothing but the groups of its boundaries is written in a polygon. -/
theorem PolygonRead.written_eq {p : Polygon} (h : PolygonRead outer t p) :
    t.written = t.childElements.flatMap MarkupTree.boundaryGroups := by
  rw [MarkupTree.written_of_blank h.blank]
  refine List.flatMap_congr fun b hb => ?_
  obtain ⟨cs, hcs⟩ := h.boundaries b hb
  exact hcs.written_eq

end FeatureMarkup

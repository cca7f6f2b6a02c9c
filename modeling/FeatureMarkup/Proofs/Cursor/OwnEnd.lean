import FeatureMarkup.Proofs.Cursor.Element

/-! Where an element is left.

Skipping an element counts the elements that are open, capturing it goes down into each child, and
reading its text goes on as long as there is no child. What they have in common is told by the
readings alone: the end of the element is the first at which the number of open elements is back
at zero, and it can be come to if it stands before the first fault and before the end of the
document. `consumers_alike` says that whoever can leave the element leaves it there, and that
nothing else can keep one from skipping or capturing it. -/
namespace FeatureMarkup

open Xml (Attribute Content Reading)

/-! ### Open elements -/

/-- Readings through which one of so many elements, and of those that they open, stays open. -/
def KeepsOpen (depth : Int) (readings : List Reading) : Prop :=
  ∀ part, part <+: readings → 0 < depth + depthChange part

section KeepsOpen
variable {depth : Int} {r : Reading} {inside rest : List Reading} {offset : Nat} {name : Name}

theorem keepsOpen_cons :
    KeepsOpen depth (r :: rest) ↔ 0 < depth ∧ KeepsOpen (depth + r.step) rest := by
  unfold KeepsOpen
  constructor
  · intro h
    refine ⟨by simpa using h [] List.nil_prefix, fun part hpart => ?_⟩
    have hmore := h (r :: part) (List.cons_prefix_cons.2 ⟨rfl, hpart⟩)
    rw [depthChange_cons] at hmore
    omega
  · intro h part hpart
    cases part with
    | nil => simpa using h.1
    | cons r' part =>
      obtain ⟨rfl, hrest⟩ := List.cons_prefix_cons.1 hpart
      have hmore := h.2 part hrest
      rw [depthChange_cons]
      omega

/-- The end of an element comes behind readings that keep it open, and open nothing that they do
not end. -/
theorem endsElement_concat_iff : EndsElement (inside ++ [⟨offset, .ok (.stop name)⟩]) ↔
    depthChange inside = 0 ∧ KeepsOpen 1 inside := by
  have hchange : depthChange (inside ++ [⟨offset, .ok (.stop name)⟩]) = depthChange inside - 1 := by
    simp [Reading.step]
    omega
  constructor
  · intro h
    have hended := h.ended
    refine ⟨by omega, fun part hpart => h.still_open part ?_ ?_⟩
    · exact hpart.trans (List.prefix_append _ _)
    · rintro rfl
      have hlength := hpart.length_le
      simp only [List.length_append, List.length_cons, List.length_nil] at hlength
      omega
  · intro h
    refine ⟨by omega, fun part hpart hne => h.2 part ?_⟩
    exact (List.prefix_concat_iff.1 hpart).resolve_left hne

end KeepsOpen

/-- Readings up to the end of the element that is open before them, and those behind it. -/
structure OwnEnd (readings inside : List Reading) (offset : Nat) (name : Name)
    (rest : List Reading) : Prop where
  split : readings = inside ++ ⟨offset, .ok (.stop name)⟩ :: rest
  ends : EndsElement (inside ++ [⟨offset, .ok (.stop name)⟩])
  /-- No fault stands before the end. -/
  faultless : ∀ r ∈ inside, ∃ content, r.outcome = .ok content

theorem Spells.faultless {readings : List Reading} {nodes : List MarkupNode}
    (h : Spells readings nodes) : ∀ r ∈ readings, ∃ content, r.outcome = .ok content := by
  induction h with
  | nil => simp
  | ignored _ ih | blank _ _ ih | text _ _ ih => simpa using ih
  | element _ _ ihi ihr =>
    intro r hmem
    simp only [List.cons_append, List.mem_cons, List.mem_append] at hmem
    rcases hmem with rfl | hmem | rfl | hmem
    · exact ⟨_, rfl⟩
    · exact ihi r hmem
    · exact ⟨_, rfl⟩
    · exact ihr r hmem

namespace Cursor

/-- The cursor has moved to the end of the element that was open, and no further. -/
def MovedToOwnEnd (c c' : Cursor) : Prop :=
  ∃ inside offset name rest, OwnEnd c.readings inside offset name rest ∧
    c' = c.moved offset (.endElement name) rest

section Ends
variable {c c' : Cursor}

/-- What is spelled inside an element leads to its end. -/
theorem movedToOwnEnd_of_spells {inside : List Reading} {nodes : List MarkupNode} {name : Name}
    (hs : Spells inside nodes) (h : c.Reaches inside (.stop name) c') : c.MovedToOwnEnd c' := by
  obtain ⟨offset, rest, hr, hmoved⟩ := reaches_stop_iff.1 h
  exact ⟨inside, offset, name, rest, ⟨hr, hs.endsElement offset name, hs.faultless⟩, hmoved⟩

/-- One round passes over a reading, and the count of open elements changes as the reading says. -/
theorem skipWithin_step {content : Content} {offset : Nat} {rest : List Reading}
    (hr : c.readings = ⟨offset, .ok content⟩ :: rest) (hnot : ¬c.AtEnd) (rounds depth : Nat) :
    ∃ c₁ more now, skipWithin (rounds + 1) (depth + 1) c = skipWithin more now c₁ ∧
      rounds ≤ more ∧ (now : Int) = ((depth + 1 : Nat) : Int) + Reading.step ⟨offset, .ok content⟩ ∧
      c₁.readings = rest ∧ ¬c₁.AtEnd ∧ ∀ offset' name rest',
        c₁.moved offset' (.endElement name) rest' = c.moved offset' (.endElement name) rest' := by
  rw [skipWithin]
  cases content with
  | ignored =>
    refine ⟨c.ignoring offset rest, rounds + 1, depth + 1, advance_bind_ignored hnot hr,
      Nat.le_succ _, ?_, rfl, not_atEnd_ignoring _ _ _ hnot, fun _ _ _ => ignoring_moved ..⟩
    simp [Reading.step]
  | start | stop | text =>
    refine ⟨_, rounds, _, advance_bind_event hnot hr rfl, Nat.le_refl _, ?_, rfl,
      not_atEnd_moved _ _ _ _ (by simp),
      fun _ _ _ => moved_moved _ _ _ _ _ _ _ (Option.some_ne_none _)⟩
    simp only [Reading.step]
    omega

/-- While one of the elements stays open the rounds go on, and the end that brings their number
to zero is where they stop. -/
theorem skipWithin_of_keepsOpen {rounds depth : Nat} {inside rest : List Reading} {offset : Nat}
    {name : Name} (hr : c.readings = inside ++ ⟨offset, .ok (.stop name)⟩ :: rest) (hnot : ¬c.AtEnd)
    (hok : ∀ r ∈ inside, ∃ content, r.outcome = .ok content)
    (hdepth : (depth : Int) + depthChange inside = 1) (hopen : KeepsOpen depth inside)
    (hrounds : inside.length < rounds) :
    skipWithin rounds depth c = .ok () (c.moved offset (.endElement name) rest) := by
  obtain _ | rounds := rounds
  · cases hrounds
  induction inside generalizing c rounds depth with
  | nil =>
    obtain rfl : depth = 1 := by
      rw [depthChange_nil] at hdepth
      omega
    rw [skipWithin, advance_bind_event hnot hr rfl]
    cases rounds <;> rfl
  | cons r inside ih =>
    obtain ⟨hpositive, hopen⟩ := keepsOpen_cons.1 hopen
    obtain _ | depth := depth
    · cases hpositive
    obtain ⟨offset', outcome⟩ := r
    obtain ⟨content, rfl⟩ : ∃ content, outcome = .ok content := hok _ List.mem_cons_self
    obtain ⟨c₁, more, now, hskip, hmore, hnow, hr₁, hnot₁, hmoved⟩ :=
      skipWithin_step hr hnot rounds depth
    rw [List.length_cons] at hrounds
    rw [depthChange_cons] at hdepth
    obtain _ | more := more
    · omega
    rw [hskip, ← hmoved]
    exact ih hr₁ hnot₁ (fun r hmem => hok r (List.mem_cons_of_mem _ hmem)) (by omega)
      (by rwa [hnow]) more (by omega)

/-- An element that is ended before the first fault can be skipped. -/
theorem skipElement_of_ownEnd {inside rest : List Reading} {offset : Nat} {name name' : Name}
    {attributes : List Attribute} (hstart : c.event = .startElement name attributes)
    (h : OwnEnd c.readings inside offset name' rest) :
    skipElement c = .ok () (c.moved offset (.endElement name') rest) := by
  obtain ⟨hchange, hopen⟩ := endsElement_concat_iff.1 h.ends
  unfold skipElement
  rw [get_bind, hstart]
  refine skipWithin_of_keepsOpen h.split (not_atEnd_of_start hstart) h.faultless ?_ hopen ?_
  · rw [hchange]
    rfl
  · have hlength := congrArg List.length h.split
    rw [List.length_append, ← c.remaining_eq] at hlength
    omega

/-- Whoever leaves an element leaves it at its own end: it is skipped and captured just if that
end can be come to, and its text is read only if it can. -/
theorem consumers_alike {name : Name} {attributes : List Attribute}
    (hstart : c.event = .startElement name attributes) :
    (skipElement c = .ok () c' ↔ c.MovedToOwnEnd c') ∧
    ((∃ tree, captureElement c = .ok tree c') ↔ c.MovedToOwnEnd c') ∧
    ∀ text, elementText c = .ok text c' → c.MovedToOwnEnd c' := by
  have hskip : skipElement c = .ok () c' ↔ c.MovedToOwnEnd c' := by
    constructor
    · intro h
      obtain ⟨-, inside, nodes, name', hs, hreach⟩ := skipElement_eq_ok_iff.1 h
      exact movedToOwnEnd_of_spells hs hreach
    · rintro ⟨inside, offset, name', rest, hend, rfl⟩
      exact skipElement_of_ownEnd hstart hend
  refine ⟨hskip, ⟨?_, ?_⟩, ?_⟩
  · rintro ⟨tree, h⟩
    obtain ⟨_, _, -, inside, nodes, name', hs, -, hreach⟩ := captureElement_eq_ok_iff.1 h
    exact movedToOwnEnd_of_spells hs hreach
  · intro h
    obtain ⟨-, inside, nodes, name', hs, hreach⟩ := skipElement_eq_ok_iff.1 (hskip.2 h)
    refine ⟨⟨name, attributes, nodes⟩, captureElement_eq_ok_iff.2 ?_⟩
    exact ⟨name, attributes, hstart, inside, nodes, name', hs, rfl, hreach⟩
  · intro text h
    obtain ⟨-, inside, joined, name', htext, -, hreach⟩ := elementText_eq_ok_iff.1 h
    obtain ⟨nodes, hs⟩ := htext.spells
    exact movedToOwnEnd_of_spells hs hreach

/-- A road with a name in it and more behind it, which is skipped and captured to the end of the
road, and the name, which is read to the end of the name. -/
theorem consumers_alike_road :
    let road := Name.unqualified "Road"
    let name := Name.unqualified "name"
    let behind : List Reading := [⟨32, .ok (.stop road)⟩, ⟨33, .ok (.text "x")⟩]
    let inName : List Reading := [⟨13, .ok (.text " A")⟩, ⟨18, .ok .ignored⟩, ⟨25, .ok (.stop name)⟩]
    let onRoad := (ofReadings []).moved 6 (.startElement road [])
      (⟨12, .ok (.start name [])⟩ :: inName ++ behind)
    let onName := (ofReadings []).moved 12 (.startElement name []) (inName ++ behind)
    let behindRoad := onRoad.moved 32 (.endElement road) [⟨33, .ok (.text "x")⟩]
    let behindName := onName.moved 25 (.endElement name) behind
    skipElement onRoad = .ok () behindRoad ∧ onRoad.MovedToOwnEnd behindRoad ∧
      (∃ tree, captureElement onRoad = .ok tree behindRoad) ∧
      elementText onName = .ok "A" behindName ∧ onName.MovedToOwnEnd behindName := by
  intro road name behind inName onRoad onName behindRoad behindName
  have hspells : Spells (⟨12, .ok (.start name [])⟩ :: inName) [.element ⟨name, [], [.text " A"]⟩] :=
    .element (.text (by decide) (.ignored .nil)) .nil
  have hroad : onRoad.MovedToOwnEnd behindRoad :=
    ⟨_, 32, road, _, ⟨rfl, hspells.endsElement 32 road, hspells.faultless⟩, rfl⟩
  have htext : elementText onName = .ok "A" behindName := rfl
  have hread : onName.MovedToOwnEnd behindName := (consumers_alike rfl).2.2 "A" htext
  have hskip : skipElement onRoad = .ok () behindRoad := (consumers_alike rfl).1.2 hroad
  exact ⟨hskip, hroad, (consumers_alike rfl).2.1.2 hroad, htext, hread⟩

end Ends

end Cursor

end FeatureMarkup

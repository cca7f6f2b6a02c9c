import FeatureMarkup.Proofs.Cursor.Movement

/-! What the readers of one element accept.

Each is called at the start of an element and comes to its end. `elementText` wants
nothing but text there, `skipElement` and `captureElement` take whatever is well nested,
and the tree that is captured is the one that the readings spell. The equivalences say
both that nothing else is accepted and that nothing of this form is refused. -/
namespace FeatureMarkup

open Xml (Attribute Content Reading)

/-- Readings of nothing but text, and the text they join to. -/
inductive SpellsText : List Reading → String → Prop where
  | nil : SpellsText [] ""
  | ignored {offset rest text} : SpellsText rest text →
      SpellsText (⟨offset, .ok .ignored⟩ :: rest) text
  | text {offset piece rest text} : SpellsText rest text →
      SpellsText (⟨offset, .ok (.text piece)⟩ :: rest) (piece ++ text)

theorem SpellsText.spells {readings : List Reading} {text : String} (h : SpellsText readings text) :
    ∃ nodes, Spells readings nodes := by
  induction h with
  | nil => exact ⟨[], .nil⟩
  | ignored _ ih =>
    obtain ⟨nodes, h⟩ := ih
    exact ⟨nodes, h.ignored⟩
  | @text _ piece _ _ _ ih =>
    obtain ⟨nodes, h⟩ := ih
    cases hb : Text.allBlank piece with
    | true => exact ⟨nodes, h.blank hb⟩
    | false => exact ⟨_, h.text hb⟩

namespace Cursor

section Behind
variable {c c' : Cursor} {before inside : List Reading} {offset : Nat} {rest : List Reading}
  {tag : Tag}

/-- What is ignored on the way to a reading may be counted in with what is behind it. -/
theorem Reaches.behind {content : Content} {event : Event}
    (hr : c.readings = before ++ ⟨offset, .ok content⟩ :: rest)
    (h : (c.moved offset event rest).Reaches inside tag c') :
    c.Reaches (before ++ ⟨offset, .ok content⟩ :: inside) tag c' := by
  obtain ⟨content', offset', rest', ht, hrest, rfl⟩ := h
  have hname : tag.event.name? ≠ none := by
    cases tag <;> cases content' <;> cases ht <;> nofun
  refine ⟨content', offset', rest', ht, ?_, moved_moved _ _ _ _ _ _ _ hname⟩
  rw [moved_readings] at hrest
  rw [hr, hrest]
  simp

theorem Reaches.along {name : Name} {c₁ : Cursor} (h : c.Reaches before (.stop name) c₁)
    (h' : c₁.Reaches inside tag c') :
    ∃ offset, c.Reaches (before ++ ⟨offset, .ok (.stop name)⟩ :: inside) tag c' := by
  obtain ⟨offset, rest, hr, rfl⟩ := reaches_stop_iff.1 h
  exact ⟨offset, Reaches.behind hr h'⟩

/-- The way over a whole element goes by its start and its end. -/
theorem Reaches.through {name name' : Name} {attributes : List Attribute} {offset' : Nat}
    (h : c.Reaches (⟨offset, .ok (.start name attributes)⟩ :: inside ++
      ⟨offset', .ok (.stop name')⟩ :: before) tag c') :
    ∃ rest c₁, c.readings = ⟨offset, .ok (.start name attributes)⟩ :: rest ∧
      (c.moved offset (.startElement name attributes) rest).Reaches inside (.stop name') c₁ ∧
      c₁.Reaches before tag c' := by
  obtain ⟨content, offset₃, rest, ht, hr, rfl⟩ := h
  have hname : tag.event.name? ≠ none := by
    cases tag <;> cases content <;> cases ht <;> nofun
  simp only [List.append_assoc, List.cons_append] at hr
  refine ⟨_, _, hr, reaches_stop_iff.2 ⟨offset', _, rfl, rfl⟩, content, offset₃, rest, ht, rfl, ?_⟩
  rw [moved_moved _ _ _ _ _ _ _ hname, moved_moved _ _ _ _ _ _ _ hname]

end Behind

theorem not_atEnd_of_start {c : Cursor} {name : Name} {attributes : List Attribute}
    (h : c.event = .startElement name attributes) : ¬c.AtEnd := by
  intro hend
  rw [hend] at h
  cases h

/-! ### Text -/

theorem textWithin_eq_ok {rounds : Nat} {c c' : Cursor} {found text : String}
    (h : textWithin rounds found c = .ok text c') :
    ∃ inside more name, SpellsText inside more ∧ text = Text.trim (found ++ more) ∧
      c.Reaches inside (.stop name) c' := by
  induction c using along generalizing rounds found with
  | nothing c hr =>
    obtain _ | rounds := rounds
    · exact absurd h failMarkup_ne_ok
    obtain ⟨c₁, -, hstep⟩ := advance_bind_nil hr
    rw [textWithin, hstep] at h
    exact absurd h failMarkup_ne_ok
  | fault c offset fault rest hnot hr =>
    obtain _ | rounds := rounds
    · exact absurd h failMarkup_ne_ok
    exact absurd h (advance_bind_fault hnot hr)
  | ignored c offset rest hnot hr ih =>
    obtain _ | rounds := rounds
    · exact absurd h failMarkup_ne_ok
    rw [textWithin, advance_bind_ignored hnot hr] at h
    have hbehind : textWithin (rounds + 1) found (c.ignoring offset rest) = .ok text c' := h
    obtain ⟨inside, more, name, hs, htext, hreach⟩ := ih hbehind
    exact ⟨_, more, name, hs.ignored, htext, (reaches_ignored_iff hr).1 hreach⟩
  | event c offset content e rest hnot hr he ih =>
    obtain _ | rounds := rounds
    · exact absurd h failMarkup_ne_ok
    rw [textWithin, advance_bind_event hnot hr he] at h
    cases content with
    | ignored => cases he
    | start =>
      cases he
      exact absurd h failMarkup_ne_ok
    | stop name =>
      cases he
      obtain ⟨rfl, rfl⟩ := pure_eq_ok.1 h
      exact ⟨[], "", name, .nil, by simp, reaches_stop_iff.2 ⟨offset, rest, hr, rfl⟩⟩
    | text piece =>
      cases he
      obtain ⟨inside, more, name, hs, htext, hreach⟩ := ih h
      exact ⟨_, _, name, hs.text, by rw [htext, String.append_assoc],
        (reaches_event_iff hr).1 hreach⟩

theorem textWithin_of_reaches {rounds : Nat} {c c' : Cursor} {found more : String}
    {inside : List Reading} {name : Name} (hc : c.readings.length < rounds) (hnot : ¬c.AtEnd)
    (hs : SpellsText inside more) (h : c.Reaches inside (.stop name) c') :
    textWithin rounds found c = .ok (Text.trim (found ++ more)) c' := by
  obtain _ | rounds := rounds
  · cases hc
  induction hs generalizing c rounds found with
  | nil =>
    obtain ⟨offset, rest, hr, rfl⟩ := reaches_stop_iff.1 h
    rw [textWithin, advance_bind_event hnot hr rfl, String.append_empty]
    rfl
  | ignored _ ih =>
    have hr := h
    obtain ⟨content, offset, rest, -, hr, -⟩ := hr
    rw [hr, List.cons_append, List.length_cons] at hc
    rw [textWithin, advance_bind_ignored hnot hr]
    exact ih (not_atEnd_ignoring _ _ _ hnot) ((reaches_ignored_iff hr).2 h) rounds
      (Nat.lt_of_succ_lt hc)
  | @text _ piece _ text _ ih =>
    have hr := h
    obtain ⟨content, offset, rest, -, hr, -⟩ := hr
    rw [hr, List.cons_append, List.length_cons] at hc
    rw [textWithin, advance_bind_event hnot hr rfl, ← String.append_assoc]
    obtain _ | rounds := rounds
    · omega
    exact ih (not_atEnd_moved c _ (.characters piece) _ nofun) ((reaches_event_iff hr).2 h) rounds
      (Nat.lt_of_succ_lt_succ hc)

/-- The text of an element is what its readings join to, and nothing else stands in it. -/
theorem elementText_eq_ok_iff {c c' : Cursor} {text : String} :
    elementText c = .ok text c' ↔
      (∃ name attributes, c.event = .startElement name attributes) ∧
        ∃ inside joined name, SpellsText inside joined ∧ text = Text.trim joined ∧
          c.Reaches inside (.stop name) c' := by
  unfold elementText
  rw [get_bind]
  cases hevent : c.event with
  | startElement name attributes =>
    have hnot := not_atEnd_of_start hevent
    constructor
    · intro h
      obtain ⟨inside, joined, name', hs, htext, hreach⟩ := textWithin_eq_ok h
      exact ⟨⟨name, attributes, rfl⟩, inside, joined, name', hs, by simpa using htext, hreach⟩
    · intro hgiven
      obtain ⟨-, inside, joined, name', hs, rfl, hreach⟩ := hgiven
      have htext : textWithin (c.remaining + 1) "" c = .ok (Text.trim ("" ++ joined)) c' :=
        textWithin_of_reaches c.length_lt_rounds hnot hs hreach
      rwa [String.empty_append] at htext
  | _ =>
    refine ⟨fun h => absurd h failMarkup_ne_ok, ?_⟩
    intro hgiven
    obtain ⟨⟨name, attributes, hstart⟩, -⟩ := hgiven
    cases hstart

/-! ### Skipping -/

/-- To leave one more element than `depth` is to leave one and then `depth`. -/
theorem skipWithin_eq_ok {rounds depth : Nat} {c c' : Cursor} {u : Unit}
    (h : skipWithin rounds (depth + 1) c = .ok u c') :
    ∃ inside children name c₁, Spells inside children ∧ c.Reaches inside (.stop name) c₁ ∧
      ∃ fewer < rounds, skipWithin fewer depth c₁ = .ok u c' := by
  induction rounds using Nat.strongRecOn generalizing c depth with
  | ind rounds ih =>
    obtain _ | rounds := rounds
    · exact absurd h failMarkup_ne_ok
    rw [skipWithin] at h
    obtain ⟨event, c₁, hadvance, hrest⟩ := bind_eq_ok.1 h
    rcases advance_eq_ok hadvance with ⟨rfl, -⟩ | ⟨-, before, content, offset, rest, hb, he, hr, rfl⟩
    · exact absurd hrest failMarkup_ne_ok
    cases content with
    | ignored => cases he
    | stop name =>
      cases he
      exact ⟨before, [], name, _, hb, reaches_stop_iff.2 ⟨offset, rest, hr, rfl⟩, rounds,
        Nat.lt_succ_self _, hrest⟩
    | text piece =>
      cases he
      obtain ⟨inside, children, name, c₂, hs, hreach, fewer, hlt, hskip⟩ :=
        ih rounds (Nat.lt_succ_self _) hrest
      have hpiece : ∃ nodes, Spells (⟨offset, .ok (.text piece)⟩ :: inside) nodes := by
        cases hblank : Text.allBlank piece with
        | true => exact ⟨_, hs.blank hblank⟩
        | false => exact ⟨_, hs.text hblank⟩
      obtain ⟨nodes, hpiece⟩ := hpiece
      exact ⟨_, nodes, name, c₂, hb.append hpiece, Reaches.behind hr hreach, fewer, by omega, hskip⟩
    | start name attributes =>
      cases he
      obtain ⟨inside, children, name₁, c₂, hs, hreach, fewer, hlt, hskip⟩ :=
        ih rounds (Nat.lt_succ_self _) hrest
      obtain ⟨inside', children', name₂, c₃, hs', hreach', fewer', hlt', hskip'⟩ :=
        ih fewer (by omega) hskip
      obtain ⟨offset', hreach⟩ := hreach.along hreach'
      exact ⟨_, _, name₂, c₃, hb.append (.element hs hs'), Reaches.behind hr hreach, fewer',
        by omega, hskip'⟩

theorem skipWithin_of_reaches {rounds depth : Nat} {c c' : Cursor} {inside : List Reading}
    {children : List MarkupNode} {name : Name} (hc : c.readings.length < rounds) (hnot : ¬c.AtEnd)
    (hs : Spells inside children) (h : c.Reaches inside (.stop name) c') :
    ∃ fewer, c'.readings.length < fewer ∧
      skipWithin rounds (depth + 1) c = skipWithin fewer depth c' := by
  obtain _ | rounds := rounds
  · cases hc
  induction hs generalizing c c' rounds depth name with
  | nil =>
    obtain ⟨offset, rest, hr, rfl⟩ := reaches_stop_iff.1 h
    rw [hr, List.nil_append, List.length_cons] at hc
    rw [skipWithin, advance_bind_event hnot hr rfl]
    exact ⟨rounds, Nat.lt_of_succ_lt_succ hc, rfl⟩
  | ignored _ ih =>
    have hr := h
    obtain ⟨content, offset, rest, -, hr, -⟩ := hr
    rw [hr, List.cons_append, List.length_cons] at hc
    rw [skipWithin, advance_bind_ignored hnot hr]
    exact ih (not_atEnd_ignoring _ _ _ hnot) ((reaches_ignored_iff hr).2 h) rounds
      (Nat.lt_of_succ_lt hc)
  | @blank _ t _ _ _ _ ih | @text _ t _ _ _ _ ih =>
    have hr := h
    obtain ⟨content, offset, rest, -, hr, -⟩ := hr
    rw [hr, List.cons_append, List.length_cons] at hc
    rw [skipWithin, advance_bind_event hnot hr rfl]
    obtain _ | rounds := rounds
    · omega
    exact ih (not_atEnd_moved c _ (.characters t) _ nofun) ((reaches_event_iff hr).2 h) rounds
      (Nat.lt_of_succ_lt_succ hc)
  | @element offset name₁ attributes inside children offset' name₂ behind nodes _ _ ihi ihr =>
    obtain ⟨rest, c₁, hr, hinside, hbehind⟩ := h.through
    rw [hr, List.length_cons] at hc
    rw [skipWithin, advance_bind_event hnot hr rfl]
    obtain _ | rounds := rounds
    · omega
    have hstart : ¬(c.moved offset (.startElement name₁ attributes) rest).AtEnd :=
      not_atEnd_moved _ _ _ _ nofun
    obtain ⟨fewer, hfewer, hskip⟩ := ihi hstart hinside rounds (Nat.lt_of_succ_lt_succ hc)
    obtain _ | fewer := fewer
    · cases hfewer
    obtain ⟨least, hleast, hskip'⟩ := ihr hinside.not_atEnd hbehind fewer hfewer
    exact ⟨least, hleast, Eq.trans hskip hskip'⟩

/-- An element is skipped to its end, whatever stands in it. -/
theorem skipElement_eq_ok_iff {c c' : Cursor} {u : Unit} :
    skipElement c = .ok u c' ↔
      (∃ name attributes, c.event = .startElement name attributes) ∧
        ∃ inside children name, Spells inside children ∧ c.Reaches inside (.stop name) c' := by
  unfold skipElement
  rw [get_bind]
  cases hevent : c.event with
  | startElement name attributes =>
    have hnot := not_atEnd_of_start hevent
    constructor
    · intro h
      obtain ⟨inside, children, name', c₁, hs, hreach, fewer, -, hskip⟩ := skipWithin_eq_ok h
      have hdone : c₁ = c' := by
        cases fewer <;> exact (pure_eq_ok.1 hskip).2
      subst hdone
      exact ⟨⟨name, attributes, rfl⟩, inside, children, name', hs, hreach⟩
    · intro hgiven
      obtain ⟨-, inside, children, name', hs, hreach⟩ := hgiven
      obtain ⟨fewer, -, hskip⟩ : ∃ fewer, _ ∧ skipWithin (c.remaining + 1) (0 + 1) c = _ :=
        skipWithin_of_reaches c.length_lt_rounds hnot hs hreach
      refine Eq.trans hskip ?_
      cases fewer <;> rfl
  | _ =>
    refine ⟨fun h => absurd h failMarkup_ne_ok, ?_⟩
    intro hgiven
    obtain ⟨⟨name, attributes, hstart⟩, -⟩ := hgiven
    cases hstart

/-! ### Capturing -/

theorem nodesWithin_eq_ok {rounds : Nat} {c c' : Cursor} {found nodes : List MarkupNode}
    (h : nodesWithin rounds found c = .ok nodes c') :
    ∃ inside children name, Spells inside children ∧ nodes = found.reverse ++ children ∧
      c.Reaches inside (.stop name) c' := by
  induction rounds generalizing c c' found nodes with
  | zero => exact absurd h failMarkup_ne_ok
  | succ rounds ih =>
    rw [nodesWithin] at h
    obtain ⟨event, c₁, hadvance, hrest⟩ := bind_eq_ok.1 h
    rcases advance_eq_ok hadvance with ⟨rfl, -⟩ | ⟨-, before, content, offset, rest, hb, he, hr, rfl⟩
    · exact absurd hrest failMarkup_ne_ok
    cases content with
    | ignored => cases he
    | stop name =>
      cases he
      obtain ⟨rfl, rfl⟩ := pure_eq_ok.1 hrest
      exact ⟨before, [], name, hb, by simp, reaches_stop_iff.2 ⟨offset, rest, hr, rfl⟩⟩
    | text piece =>
      cases he
      cases hblank : Text.allBlank piece with
      | true =>
        simp only [hblank, if_true] at hrest
        obtain ⟨inside, children, name, hs, rfl, hreach⟩ := ih hrest
        exact ⟨_, children, name, hb.append (hs.blank hblank), rfl, Reaches.behind hr hreach⟩
      | false =>
        simp only [hblank, Bool.false_eq_true, if_false] at hrest
        obtain ⟨inside, children, name, hs, rfl, hreach⟩ := ih hrest
        exact ⟨_, _, name, hb.append (hs.text hblank), by simp, Reaches.behind hr hreach⟩
    | start name attributes =>
      cases he
      obtain ⟨children, c₂, hinside, hbehind⟩ := bind_eq_ok.1 hrest
      obtain ⟨inside, children, name₁, hs, rfl, hreach⟩ := ih hinside
      obtain ⟨inside', children', name₂, hs', rfl, hreach'⟩ := ih hbehind
      obtain ⟨offset', hreach⟩ := hreach.along hreach'
      exact ⟨_, _, name₂, hb.append (.element hs hs'), by simp, Reaches.behind hr hreach⟩

theorem nodesWithin_of_reaches {rounds : Nat} {c c' : Cursor} {inside : List Reading}
    {found children : List MarkupNode} {name : Name} (hc : c.readings.length < rounds)
    (hnot : ¬c.AtEnd) (hs : Spells inside children) (h : c.Reaches inside (.stop name) c') :
    nodesWithin rounds found c = .ok (found.reverse ++ children) c' := by
  obtain _ | rounds := rounds
  · cases hc
  induction hs generalizing c c' rounds found name with
  | nil =>
    obtain ⟨offset, rest, hr, rfl⟩ := reaches_stop_iff.1 h
    rw [nodesWithin, advance_bind_event hnot hr rfl, List.append_nil]
    rfl
  | ignored _ ih =>
    have hr := h
    obtain ⟨content, offset, rest, -, hr, -⟩ := hr
    rw [hr, List.cons_append, List.length_cons] at hc
    rw [nodesWithin, advance_bind_ignored hnot hr]
    exact ih (not_atEnd_ignoring _ _ _ hnot) ((reaches_ignored_iff hr).2 h) rounds
      (Nat.lt_of_succ_lt hc)
  | @blank _ t _ _ hblank _ ih =>
    have hr := h
    obtain ⟨content, offset, rest, -, hr, -⟩ := hr
    rw [hr, List.cons_append, List.length_cons] at hc
    rw [nodesWithin, advance_bind_event hnot hr rfl]
    simp only [hblank, if_true]
    obtain _ | rounds := rounds
    · omega
    exact ih (not_atEnd_moved c _ (.characters t) _ nofun) ((reaches_event_iff hr).2 h) rounds
      (Nat.lt_of_succ_lt_succ hc)
  | @text _ t _ _ hblank _ ih =>
    have hr := h
    obtain ⟨content, offset, rest, -, hr, -⟩ := hr
    rw [hr, List.cons_append, List.length_cons] at hc
    rw [nodesWithin, advance_bind_event hnot hr rfl]
    simp only [hblank, Bool.false_eq_true, if_false]
    obtain _ | rounds := rounds
    · omega
    rw [ih (not_atEnd_moved c _ (.characters t) _ nofun) ((reaches_event_iff hr).2 h) rounds
      (Nat.lt_of_succ_lt_succ hc), List.reverse_cons, List.append_assoc]
    rfl
  | @element offset name₁ attributes inside children offset' name₂ behind nodes _ _ ihi ihr =>
    obtain ⟨rest, c₁, hr, hinside, hbehind⟩ := h.through
    rw [hr, List.length_cons] at hc
    rw [nodesWithin, advance_bind_event hnot hr rfl]
    obtain _ | rounds := rounds
    · omega
    have hstart : ¬(c.moved offset (.startElement name₁ attributes) rest).AtEnd :=
      not_atEnd_moved _ _ _ _ nofun
    have hlt := hinside.length_lt
    rw [moved_readings] at hlt
    refine bind_eq_ok.2 ⟨children, c₁, ?_, ?_⟩
    · exact ihi hstart hinside rounds (Nat.lt_of_succ_lt_succ hc)
    · rw [ihr hinside.not_atEnd hbehind rounds (by omega), List.reverse_cons, List.append_assoc]
      rfl

/-- The tree of an element is what its readings spell. -/
theorem captureElement_eq_ok_iff {c c' : Cursor} {tree : MarkupTree} :
    captureElement c = .ok tree c' ↔
      ∃ name attributes, c.event = .startElement name attributes ∧
        ∃ inside children name', Spells inside children ∧ tree = ⟨name, attributes, children⟩ ∧
          c.Reaches inside (.stop name') c' := by
  unfold captureElement
  rw [get_bind]
  cases hevent : c.event with
  | startElement name attributes =>
    have hnot := not_atEnd_of_start hevent
    show ((nodesWithin (c.remaining + 1) [] >>= fun children =>
      pure ⟨name, attributes, children⟩ : CursorM MarkupTree)) c = _ ↔ _
    constructor
    · intro h
      obtain ⟨nodes, c₁, hnodes, hpure⟩ := bind_eq_ok.1 h
      obtain ⟨rfl, rfl⟩ := pure_eq_ok.1 hpure
      obtain ⟨inside, children, name', hs, rfl, hreach⟩ := nodesWithin_eq_ok hnodes
      exact ⟨name, attributes, rfl, inside, nodes, name', hs, rfl, hreach⟩
    · intro hgiven
      obtain ⟨_, _, hstart, inside, nodes, name', hs, rfl, hreach⟩ := hgiven
      cases hstart
      exact bind_eq_ok.2 ⟨nodes, c',
        nodesWithin_of_reaches c.length_lt_rounds hnot hs hreach, rfl⟩
  | _ =>
    refine ⟨fun h => absurd h failMarkup_ne_ok, ?_⟩
    intro hgiven
    obtain ⟨name, attributes, hstart, -⟩ := hgiven
    cases hstart

end Cursor

end FeatureMarkup

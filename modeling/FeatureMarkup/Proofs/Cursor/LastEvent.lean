import Mathlib.Logic.Function.Iterate
import FeatureMarkup.Proofs.Cursor.Movement

/-! Which event a cursor tells of.

A cursor can be asked for the kind, the name, the attributes and the text of its event at any
time, also after a call that failed. What one call leaves is `Leaves`, whether it succeeds or
not. After any number of calls the kind and the name are those of the last event that was
returned, `tells_last_event`. Its attributes and its text are there as long as every call
since has failed at once: one that fails behind a comment has taken them away, although the
event still stands. -/
namespace FeatureMarkup

open Xml (Attribute Content Reading)

namespace Xml.Reading

/-- Whether a reading is passed over. -/
def isIgnored (r : Reading) : Bool :=
  match r.outcome with
  | .ok .ignored => true
  | _ => false

/-- The event that a reading is, if it is one. -/
def event? (r : Reading) : Option Event :=
  match r.outcome with
  | .ok content => content.event?
  | .error _ => none

theorem event?_eq_none_of_isIgnored {r : Reading} (h : r.isIgnored = true) : r.event? = none := by
  unfold isIgnored at h
  split at h
  next hr => simp [event?, hr, Content.event?]
  next => cases h

end Xml.Reading

/-! ### What is left of an event -/

namespace Event

/-- What a cursor still tells of its event when it has taken readings behind it. -/
def behind (e : Event) (since : List Reading) : Event :=
  if since.any Reading.isIgnored then e.bare else e

section Behind
variable (e : Event) (since more : List Reading)

@[simp] theorem bare_bare : e.bare.bare = e.bare := by cases e <;> rfl

@[simp] theorem attributes_bare : e.bare.attributes = [] := by cases e <;> rfl

@[simp] theorem text_bare : e.bare.text = "" := by cases e <;> rfl

@[simp] theorem name?_bare : e.bare.name? = e.name? := by cases e <;> rfl

@[simp] theorem behind_nil : e.behind [] = e := rfl

theorem behind_cons_ignored {r : Reading} (h : r.isIgnored = true) :
    e.behind (r :: since) = e.bare.behind since := by
  simp [behind, h]

theorem behind_append_fault {r : Reading} (h : r.isIgnored = false) :
    e.behind (since ++ [r]) = e.behind since := by
  simp [behind, h]

theorem behind_behind : (e.behind since).behind more = e.behind (since ++ more) := by
  cases hsince : since.any Reading.isIgnored <;> simp [behind, hsince]

theorem bare_behind : (e.behind since).bare = e.bare := by
  unfold behind
  split
  · exact e.bare_bare
  · rfl

theorem name?_behind : (e.behind since).name? = e.name? := by
  rw [← name?_bare, bare_behind, name?_bare]

theorem attributes_behind :
    (e.behind since).attributes = if since.any Reading.isIgnored then [] else e.attributes := by
  unfold behind
  split
  · exact e.attributes_bare
  · rfl

theorem text_behind : (e.behind since).text = if since.any Reading.isIgnored then "" else e.text := by
  unfold behind
  split
  · exact e.text_bare
  · rfl

end Behind

end Event

namespace Cursor

/-! ### One call -/

/-- What a call of `advance` does. It takes what it passes over, and the event that it returns
or the fault that it fails at; then the event is the one returned, or what is left of the one
before. -/
def Leaves (c : Cursor) : EStateM.Result ReadError Cursor Event → Prop
  | .ok event c' => c'.event = event ∧
    ((c.AtEnd ∧ c' = c) ∨ ∃ passed, passed.all Reading.isIgnored = true ∧
      ((event = .endDocument ∧ c.readings = passed ∧ c'.readings = []) ∨
        ∃ r, r.event? = some event ∧ c.readings = passed ++ r :: c'.readings))
  | .error _ c' => ∃ passed offset fault, passed.all Reading.isIgnored = true ∧
    c.readings = passed ++ ⟨offset, .error fault⟩ :: c'.readings ∧ c'.event = c.event.behind passed

/-- A call goes by what is ignored as if it had begun behind it. -/
theorem Leaves.ignored {c : Cursor} {offset : Nat} {rest : List Reading} (hnot : ¬c.AtEnd)
    (hr : c.readings = ⟨offset, .ok .ignored⟩ :: rest)
    {result : EStateM.Result ReadError Cursor Event} (h : (c.ignoring offset rest).Leaves result) :
    c.Leaves result := by
  cases result with
  | ok event c' =>
    obtain ⟨hevent, ⟨hend, -⟩ | ⟨passed, hpassed, htaken⟩⟩ := h
    · exact absurd hend (not_atEnd_ignoring _ _ _ hnot)
    · refine ⟨hevent, .inr ⟨⟨offset, .ok .ignored⟩ :: passed, hpassed, ?_⟩⟩
      rw [hr]
      simpa using htaken
  | error e c' =>
    obtain ⟨passed, offset', fault, hpassed, hrest, hevent⟩ := h
    refine ⟨⟨offset, .ok .ignored⟩ :: passed, offset', fault, hpassed, ?_, ?_⟩
    · rw [hr, List.cons_append, ← hrest]
      rfl
    · rw [hevent, Event.behind_cons_ignored _ _ rfl]
      rfl

theorem leaves_advance (c : Cursor) : c.Leaves (advance c) := by
  induction c using along with
  | nothing c h =>
    by_cases hend : c.AtEnd
    · rw [advance_atEnd hend]
      exact ⟨hend, .inl ⟨hend, rfl⟩⟩
    · have hnil := h.resolve_right hend
      obtain ⟨c', hadvance, hend', hleft⟩ := advance_nil hend hnil
      rw [hadvance]
      exact ⟨hend', .inr ⟨[], rfl, .inl ⟨rfl, hnil, hleft⟩⟩⟩
  | fault c offset fault rest hnot hr =>
    rw [advance_of_readings hnot hr]
    exact ⟨[], offset, fault, rfl, hr, rfl⟩
  | ignored c offset rest hnot hr ih =>
    rw [advance_ignored hnot hr]
    exact ih.ignored hnot hr
  | event c offset content event rest hnot hr he =>
    rw [advance_event hnot hr he]
    exact ⟨rfl, .inr ⟨[], rfl, .inr ⟨⟨offset, .ok content⟩, he, hr⟩⟩⟩

end Cursor

/-! ### Any number of calls -/

/-- A cursor, and the last event that a call returned. -/
structure Watched where
  cursor : Cursor
  last : Event

namespace Watched

/-- Nothing has been called. -/
def start (readings : List Reading) : Watched := ⟨.ofReadings readings, .startDocument⟩

/-- After one call more, whether it succeeds or not. -/
def call (w : Watched) : Watched :=
  match Cursor.advance w.cursor with
  | .ok event c => ⟨c, event⟩
  | .error _ c => ⟨c, w.last⟩

/-- The cursor has taken the readings up to the last event that it returned, and then some
that are no event; it stands on what is left of that event. -/
structure Tells (w : Watched) (readings before since : List Reading) : Prop where
  taken : readings = before ++ since ++ w.cursor.readings
  silent : ∀ r ∈ since, r.event? = none
  last : (before = [] ∧ w.last = .startDocument) ∨
    (∃ r, before.getLast? = some r ∧ r.event? = some w.last) ∨
    (w.last = .endDocument ∧ since = [] ∧ w.cursor.readings = [])
  event : w.cursor.event = w.last.behind since

variable {w : Watched} {readings before since : List Reading}

/-- A cursor at the end of the document has returned it. -/
theorem Tells.of_atEnd (h : w.Tells readings before since) (hend : w.cursor.AtEnd) :
    w.last = .endDocument := by
  have hbare : w.last.bare = .endDocument := by
    rw [← Event.bare_behind _ since, ← h.event, hend]
    rfl
  cases hlast : w.last <;> simp_all [Event.bare]

theorem Tells.call (h : w.Tells readings before since) :
    ∃ before' since', w.call.Tells readings before' since' := by
  have hleaves := w.cursor.leaves_advance
  unfold Watched.call
  cases hadvance : Cursor.advance w.cursor with
  | ok event c =>
    rw [hadvance] at hleaves
    obtain ⟨hevent, ⟨hend, rfl⟩ | ⟨passed, -, ⟨rfl, hpassed, hleft⟩ | ⟨r, hr, htaken⟩⟩⟩ := hleaves
    · have hsame : event = w.last := by rw [← hevent, hend, h.of_atEnd hend]
      subst hsame
      exact ⟨before, since, h⟩
    · refine ⟨readings, [], by simp [hleft], nofun, .inr (.inr ⟨rfl, rfl, hleft⟩), hevent⟩
    · refine ⟨before ++ since ++ passed ++ [r], [], ?_, nofun, .inr (.inl ⟨r, by simp, hr⟩), hevent⟩
      rw [h.taken, htaken]
      simp
  | error e c =>
    rw [hadvance] at hleaves
    obtain ⟨passed, offset, fault, hpassed, htaken, hevent⟩ := hleaves
    refine ⟨before, since ++ passed ++ [⟨offset, .error fault⟩], ?_, ?_, ?_, ?_⟩
    · rw [h.taken, htaken]
      simp
    · intro r hr
      rcases List.mem_append.1 hr with hr | hr
      · rcases List.mem_append.1 hr with hr | hr
        · exact h.silent r hr
        · exact Reading.event?_eq_none_of_isIgnored (List.all_eq_true.1 hpassed r hr)
      · rw [List.mem_singleton.1 hr]
        rfl
    · rcases h.last with hstart | hlast | ⟨-, -, hnil⟩
      · exact .inl hstart
      · exact .inr (.inl hlast)
      · rw [hnil] at htaken
        exact absurd htaken (by simp)
    · rw [hevent, h.event, Event.behind_behind, Event.behind_append_fault _ _ rfl]

theorem exists_tells (readings : List Reading) (calls : Nat) :
    ∃ before since, (call^[calls] (start readings)).Tells readings before since := by
  induction calls with
  | zero => exact ⟨[], [], rfl, nofun, .inl ⟨rfl, rfl⟩, rfl⟩
  | succ calls ih =>
    obtain ⟨before, since, h⟩ := ih
    rw [Function.iterate_succ_apply']
    exact h.call

/-- After any calls on any readings, the kind and the name are those of the last event that
was returned, and so are the attributes and the text while nothing ignored has been taken
behind it; from then on there are none. A call that succeeds leaves the event it returns, and
one that fails what the readings that it has passed over leave of the one before. -/
theorem tells_last_event (readings : List Reading) (calls : Nat) :
    let w := call^[calls] (start readings)
    (∃ before since, w.Tells readings before since ∧
      w.cursor.event.bare = w.last.bare ∧ w.cursor.event.name? = w.last.name? ∧
      (w.cursor.event.attributes = if since.any Reading.isIgnored then [] else w.last.attributes) ∧
      w.cursor.event.text = if since.any Reading.isIgnored then "" else w.last.text) ∧
    w.cursor.Leaves (Cursor.advance w.cursor) := by
  intro w
  obtain ⟨before, since, h⟩ := exists_tells readings calls
  have hevent : w.cursor.event = w.last.behind since := h.event
  refine ⟨⟨before, since, h, ?_, ?_, ?_, ?_⟩, Cursor.leaves_advance _⟩
  · rw [hevent, Event.bare_behind]
  · rw [hevent, Event.name?_behind]
  · rw [hevent, Event.attributes_behind]
  · rw [hevent, Event.text_behind]

/-- A road with an attribute, and in it a comment before an end that is not its own: the
second call fails, and the attribute is gone. -/
theorem attributes_lost_road :
    let road := Name.unqualified "Road"
    let lanes : Attribute := ⟨Name.unqualified "lanes", "2"⟩
    let w := call^[2] (start [⟨16, .ok (.start road [lanes])⟩, ⟨26, .ok .ignored⟩,
      ⟨33, .error (.mismatchedEnd "Road" "River")⟩])
    w.last = .startElement road [lanes] ∧ w.cursor.event = .startElement road [] ∧
      w.cursor.event.attributes ≠ w.last.attributes :=
  ⟨rfl, rfl, nofun⟩

end Watched

end FeatureMarkup

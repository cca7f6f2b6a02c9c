import FeatureMarkup.Proofs.Markup.Spelling
import FeatureMarkup.Proofs.Success

/-! How far the cursor moves, and where it comes to stand.

A step of the cursor is told by the first reading that is left: one that is ignored
makes it the step from behind that reading, any other is the event it comes to. Every
loop is so taken along the readings, and succeeds exactly on readings of one form.
The rounds that a loop is allowed do not show: more than there are readings are always
enough. -/
namespace FeatureMarkup

open Xml (Attribute Content Reading)

/-- The event that a reading is, if it is one. -/
def Xml.Content.event? : Content → Option Event
  | .start name attributes => some (.startElement name attributes)
  | .stop name => some (.endElement name)
  | .text t => some (.characters t)
  | .ignored => none

namespace Cursor

/-! ### Where a cursor is -/

/-- Whether the cursor is at the end of the document. -/
def AtEnd (c : Cursor) : Prop := c.event = .endDocument

/-- The cursor moved to an event, with so much left to read. -/
def moved (c : Cursor) (offset : Nat) (event : Event) (rest : List Reading) : Cursor :=
  { c.facing rest with offset, event, element := event.name?.or c.element }

/-- The cursor moved over a reading that is no event. -/
def ignoring (c : Cursor) (offset : Nat) (rest : List Reading) : Cursor :=
  { c.facing rest with offset, event := c.event.bare }

section Fields
variable (c : Cursor) (offset : Nat) (event : Event) (rest rs : List Reading)

@[simp] theorem moved_readings : (c.moved offset event rest).readings = rest := rfl

@[simp] theorem moved_remaining : (c.moved offset event rest).remaining = rest.length := rfl

@[simp] theorem moved_event : (c.moved offset event rest).event = event := rfl

@[simp] theorem moved_facing : (c.moved offset event rest).facing rs = c.moved offset event rs := rfl

@[simp] theorem facing_moved : (c.facing rs).moved offset event rest = c.moved offset event rest := rfl

@[simp] theorem ignoring_readings : (c.ignoring offset rest).readings = rest := rfl

@[simp] theorem ignoring_moved (offset' : Nat) :
    (c.ignoring offset rs).moved offset' event rest = c.moved offset' event rest := rfl

/-- A text on the way does not show in a cursor that has moved on. -/
@[simp] theorem moved_characters_moved (offset' : Nat) (text : String) :
    (c.moved offset' (.characters text) rs).moved offset event rest =
      c.moved offset event rest := rfl

/-- Nor does a tag on the way to a tag. -/
theorem moved_moved (offset' : Nat) (event' : Event) (h : event.name? ≠ none) :
    (c.moved offset' event' rs).moved offset event rest = c.moved offset event rest := by
  obtain ⟨name, hname⟩ := Option.ne_none_iff_exists'.1 h
  exact eq_of_fields rfl rfl rfl (by simp [moved, hname]) rfl

theorem not_atEnd_moved (h : event ≠ .endDocument) : ¬(c.moved offset event rest).AtEnd := h

theorem not_atEnd_ignoring (h : ¬c.AtEnd) : ¬(c.ignoring offset rest).AtEnd := by
  intro hend
  apply h
  unfold AtEnd ignoring at *
  cases hevent : c.event <;> simp_all [Event.bare]

end Fields

/-! ### One step -/

section Step
variable {c : Cursor} {offset : Nat} {rest : List Reading}

theorem advance_of_readings {readings : List Reading} (h : ¬c.AtEnd) (hr : c.readings = readings) :
    advance c = c.advanceOver readings readings.length rfl := by
  subst hr
  unfold advance
  split
  next hend => exact absurd hend h
  next =>
    congr 1
    exact c.remaining_eq

/-- Behind the last reading is the end of the document. -/
theorem advance_nil (h : ¬c.AtEnd) (hr : c.readings = []) :
    ∃ c', advance c = .ok .endDocument c' ∧ c'.AtEnd ∧ c'.readings = [] := by
  rw [advance_of_readings h hr]
  exact ⟨_, rfl, rfl, rfl⟩

theorem advance_fault {fault : Xml.Fault} (h : ¬c.AtEnd)
    (hr : c.readings = ⟨offset, .error fault⟩ :: rest) : ∃ e c', advance c = .error e c' := by
  rw [advance_of_readings h hr]
  exact ⟨_, _, rfl⟩

theorem advance_ignored (h : ¬c.AtEnd) (hr : c.readings = ⟨offset, .ok .ignored⟩ :: rest) :
    advance c = advance (c.ignoring offset rest) := by
  rw [advance_of_readings h hr, advance_of_readings (c.not_atEnd_ignoring _ _ h) rfl]
  rfl

theorem advance_event {content : Content} {event : Event} (h : ¬c.AtEnd)
    (hr : c.readings = ⟨offset, .ok content⟩ :: rest) (he : content.event? = some event) :
    advance c = .ok event (c.moved offset event rest) := by
  rw [advance_of_readings h hr]
  cases content with
  | ignored => cases he
  | start | stop | text =>
    cases he
    exact congrArg (EStateM.Result.ok _) (eq_of_fields rfl rfl rfl rfl rfl)

theorem advance_atEnd (h : c.AtEnd) : advance c = .ok .endDocument c := by
  unfold advance
  rw [show c.event = .endDocument from h]

/-- A loop that begins with a step passes over what is ignored. -/
theorem advance_bind_ignored {f : Event → CursorM α} (h : ¬c.AtEnd)
    (hr : c.readings = ⟨offset, .ok .ignored⟩ :: rest) :
    (advance >>= f) c = (advance >>= f) (c.ignoring offset rest) := by
  show EStateM.bind advance f c = EStateM.bind advance f (c.ignoring offset rest)
  unfold EStateM.bind
  rw [advance_ignored h hr]

theorem advance_bind_event {f : Event → CursorM α} {content : Content} {event : Event}
    (h : ¬c.AtEnd) (hr : c.readings = ⟨offset, .ok content⟩ :: rest)
    (he : content.event? = some event) :
    (advance >>= f) c = f event (c.moved offset event rest) := by
  show EStateM.bind advance f c = _
  unfold EStateM.bind
  rw [advance_event h hr he]

theorem advance_bind_fault {f : Event → CursorM α} {fault : Xml.Fault} {a : α} {c' : Cursor}
    (h : ¬c.AtEnd) (hr : c.readings = ⟨offset, .error fault⟩ :: rest) :
    (advance >>= f) c ≠ .ok a c' := by
  intro hok
  obtain ⟨e, c₁, hadvance, -⟩ := bind_eq_ok.1 hok
  obtain ⟨_, _, hfault⟩ := advance_fault h hr
  rw [hfault] at hadvance
  cases hadvance

/-- With nothing left to read a loop goes on from the end of the document. -/
theorem advance_bind_nil {f : Event → CursorM α} (h : c.readings = [] ∨ c.AtEnd) :
    ∃ c₁, c₁.AtEnd ∧ (advance >>= f) c = f .endDocument c₁ := by
  show ∃ c₁ : Cursor, c₁.AtEnd ∧ EStateM.bind advance f c = _
  unfold EStateM.bind
  by_cases hend : c.AtEnd
  · exact ⟨c, hend, by rw [advance_atEnd hend]⟩
  · obtain ⟨c₁, hadvance, hend₁, -⟩ := advance_nil hend (h.resolve_right hend)
    exact ⟨c₁, hend₁, by rw [hadvance]⟩

end Step

/-- Induction along the readings that are left: over one that is ignored, and on to the
event that one is. -/
theorem along {motive : Cursor → Prop}
    (nothing : ∀ c, c.readings = [] ∨ c.AtEnd → motive c)
    (fault : ∀ c offset fault rest, ¬c.AtEnd → c.readings = ⟨offset, .error fault⟩ :: rest →
      motive c)
    (ignored : ∀ c offset rest, ¬c.AtEnd → c.readings = ⟨offset, .ok .ignored⟩ :: rest →
      motive (c.ignoring offset rest) → motive c)
    (event : ∀ c offset content event rest, ¬c.AtEnd →
      c.readings = ⟨offset, .ok content⟩ :: rest → content.event? = some event →
      motive (c.moved offset event rest) → motive c) :
    ∀ c, motive c := by
  intro c
  generalize hr : c.readings = readings
  induction readings generalizing c with
  | nil => exact nothing c (.inl hr)
  | cons r rest ih =>
    by_cases hend : c.AtEnd
    · exact nothing c (.inr hend)
    · obtain ⟨offset, outcome⟩ := r
      cases outcome with
      | error f => exact fault c offset f rest hend hr
      | ok content =>
        cases hc : content.event? with
        | none =>
          obtain rfl : content = .ignored := by cases content <;> simp_all [Content.event?]
          exact ignored c offset rest hend hr (ih _ rfl)
        | some e => exact event c offset content e rest hend hr hc (ih _ rfl)

/-- What one step does: it passes over what is ignored and comes to the event behind, or
to the end of the document. -/
theorem advance_eq_ok {c c' : Cursor} {event : Event} (h : advance c = .ok event c') :
    (event = .endDocument ∧ c'.AtEnd ∧ c'.readings <:+ c.readings) ∨
      (¬c.AtEnd ∧ ∃ before content offset rest, Spells before [] ∧ content.event? = some event ∧
        c.readings = before ++ ⟨offset, .ok content⟩ :: rest ∧ c' = c.moved offset event rest) := by
  induction c using along with
  | nothing c hr =>
    by_cases hend : c.AtEnd
    · rw [advance_atEnd hend] at h
      cases h
      exact .inl ⟨rfl, hend, List.suffix_refl _⟩
    · obtain ⟨c₁, hadvance, hend₁, hnil⟩ := advance_nil hend (hr.resolve_right hend)
      rw [hadvance] at h
      cases h
      exact .inl ⟨rfl, hend₁, hnil ▸ List.nil_suffix⟩
  | fault c offset fault rest hnot hr =>
    obtain ⟨e, c₁, hadvance⟩ := advance_fault hnot hr
    rw [hadvance] at h
    cases h
  | ignored c offset rest hnot hr ih =>
    rw [advance_ignored hnot hr] at h
    refine (ih h).imp ?_ ?_
    · intro hgiven
      obtain ⟨rfl, hend, hsuffix⟩ := hgiven
      exact ⟨rfl, hend, hsuffix.trans (hr ▸ List.suffix_cons _ _)⟩
    · intro hgiven
      obtain ⟨-, before, content, offset', rest', hb, he, rfl, rfl⟩ := hgiven
      exact ⟨hnot, _, content, offset', rest', hb.ignored, he, hr, rfl⟩
  | event c offset content e rest hnot hr he =>
    rw [advance_event hnot hr he] at h
    cases h
    exact .inr ⟨hnot, [], content, offset, rest, .nil, he, hr, rfl⟩

end Cursor

/-! ### Tags -/

/-- The event at which a tag stands. -/
def Tag.event : Tag → Event
  | .start name attributes => .startElement name attributes
  | .stop name => .endElement name
  | .finish => .endDocument

namespace Cursor

/-- A cursor moved over readings to the tag behind them. -/
def Reaches (c : Cursor) (before : List Reading) (tag : Tag) (c' : Cursor) : Prop :=
  ∃ content offset rest, content.event? = some tag.event ∧
    c.readings = before ++ ⟨offset, .ok content⟩ :: rest ∧ c' = c.moved offset tag.event rest

section Reaches
variable {c c' : Cursor} {before rest : List Reading} {tag : Tag} {offset : Nat}

theorem reaches_start_iff {name : Name} {attributes : List Attribute} :
    c.Reaches before (.start name attributes) c' ↔
      ∃ offset rest, c.readings = before ++ ⟨offset, .ok (.start name attributes)⟩ :: rest ∧
        c' = c.moved offset (.startElement name attributes) rest := by
  constructor
  · intro hgiven
    obtain ⟨content, offset, rest, ht, h⟩ := hgiven
    cases content <;> cases ht
    exact ⟨offset, rest, h⟩
  · intro hgiven
    obtain ⟨offset, rest, h⟩ := hgiven
    exact ⟨_, offset, rest, rfl, h⟩

theorem reaches_stop_iff {name : Name} :
    c.Reaches before (.stop name) c' ↔
      ∃ offset rest, c.readings = before ++ ⟨offset, .ok (.stop name)⟩ :: rest ∧
        c' = c.moved offset (.endElement name) rest := by
  constructor
  · intro hgiven
    obtain ⟨content, offset, rest, ht, h⟩ := hgiven
    cases content <;> cases ht
    exact ⟨offset, rest, h⟩
  · intro hgiven
    obtain ⟨offset, rest, h⟩ := hgiven
    exact ⟨_, offset, rest, rfl, h⟩

theorem Reaches.event (h : c.Reaches before tag c') : c'.event = tag.event := by
  obtain ⟨_, _, _, _, _, rfl⟩ := h
  rfl

theorem Reaches.not_atEnd (h : c.Reaches before tag c') : ¬c'.AtEnd := by
  obtain ⟨content, _, _, ht, _, rfl⟩ := h
  intro hend
  rw [show tag.event = .endDocument from hend] at ht
  cases content <;> cases ht

theorem Reaches.length_lt (h : c.Reaches before tag c') :
    c'.readings.length < c.readings.length := by
  obtain ⟨_, _, _, _, hr, rfl⟩ := h
  rw [hr]
  simp
  omega

theorem Reaches.events_lt (h : c.Reaches before tag c') :
    c'.readings.countP Reading.isEvent < c.readings.countP Reading.isEvent := by
  obtain ⟨content, offset, _, ht, hr, rfl⟩ := h
  have hevent : Reading.isEvent ⟨offset, .ok content⟩ = true := by
    cases content with
    | ignored => cases ht
    | start | stop | text => rfl
  rw [hr, List.countP_append, List.countP_cons_of_pos hevent, moved_readings]
  omega

theorem reaches_ignored_iff (hr : c.readings = ⟨offset, .ok .ignored⟩ :: rest) :
    (c.ignoring offset rest).Reaches before tag c' ↔
      c.Reaches (⟨offset, .ok .ignored⟩ :: before) tag c' := by
  simp [Reaches, hr]

theorem reaches_event_iff {content : Content} {event : Event}
    (hr : c.readings = ⟨offset, .ok content⟩ :: rest) :
    (c.moved offset event rest).Reaches before tag c' ↔
      c.Reaches (⟨offset, .ok content⟩ :: before) tag c' := by
  simp only [Reaches, moved_readings, hr, List.cons_append, List.cons.injEq, true_and]
  refine exists_congr fun content' => exists_congr fun _ => exists_congr fun _ =>
    and_congr_right fun ht => ?_
  have hname : tag.event.name? ≠ none := by
    cases tag <;> cases content' <;> cases ht <;> nofun
  rw [moved_moved _ _ _ _ _ _ _ hname]

/-- The readings taken are told by how the cursor moved, whatever stands behind them. -/
theorem Reaches.facing (h : c.Reaches before tag c') :
    ∃ content offset, content.event? = some tag.event ∧
      c.readings = before ++ ⟨offset, .ok content⟩ :: c'.readings ∧
      ∀ rest, (c.facing (before ++ ⟨offset, .ok content⟩ :: rest)).Reaches before tag
        (c'.facing rest) := by
  obtain ⟨content, offset, rest, ht, hr, rfl⟩ := h
  exact ⟨content, offset, ht, hr, fun rest' => ⟨content, offset, rest', ht, rfl, rfl⟩⟩

end Reaches

theorem nextTagWithin_eq_ok {rounds : Nat} {c c' : Cursor} {tag : Tag}
    (hc : c.readings.length < rounds) (h : nextTagWithin rounds c = .ok tag c') :
    (tag = .finish ∧ c'.AtEnd) ∨
      (¬c.AtEnd ∧ ∃ before, Spells before [] ∧ c.Reaches before tag c') := by
  obtain _ | rounds := rounds
  · cases hc
  induction c using along generalizing rounds with
  | nothing c hr =>
    obtain ⟨c₁, hend, hstep⟩ := advance_bind_nil hr
    rw [nextTagWithin, hstep] at h
    obtain ⟨rfl, rfl⟩ := pure_eq_ok.1 h
    exact .inl ⟨rfl, hend⟩
  | fault c offset fault rest hnot hr => exact absurd h (advance_bind_fault hnot hr)
  | ignored c offset rest hnot hr ih =>
    rw [nextTagWithin, advance_bind_ignored hnot hr] at h
    rw [hr, List.length_cons] at hc
    refine (ih rounds (Nat.lt_of_succ_lt hc) h).imp_right ?_
    intro hgiven
    obtain ⟨-, before, hb, htag⟩ := hgiven
    exact ⟨hnot, _, hb.ignored, (reaches_ignored_iff hr).1 htag⟩
  | event c offset content e rest hnot hr he ih =>
    rw [nextTagWithin, advance_bind_event hnot hr he] at h
    rw [hr, List.length_cons] at hc
    cases content with
    | ignored => cases he
    | start name attributes | stop name =>
      cases he
      obtain ⟨rfl, rfl⟩ := pure_eq_ok.1 h
      exact .inr ⟨hnot, [], .nil, _, offset, rest, rfl, hr, rfl⟩
    | text t =>
      cases he
      cases hblank : Text.allBlank t with
      | false => simp [hblank] at h
      | true =>
        simp only [hblank, if_true] at h
        obtain _ | rounds := rounds
        · omega
        refine (ih rounds (Nat.lt_of_succ_lt_succ hc) h).imp_right ?_
        intro hgiven
        obtain ⟨-, before, hb, htag⟩ := hgiven
        exact ⟨hnot, _, hb.blank hblank, (reaches_event_iff hr).1 htag⟩

theorem nextTagWithin_of_reaches {rounds : Nat} {c c' : Cursor} {tag : Tag}
    {before : List Reading} (hc : c.readings.length < rounds) (hnot : ¬c.AtEnd)
    (hb : Spells before []) (h : c.Reaches before tag c') :
    nextTagWithin rounds c = .ok tag c' := by
  generalize hn : ([] : List MarkupNode) = nodes at hb
  obtain _ | rounds := rounds
  · cases hc
  induction hb generalizing c rounds with
  | nil =>
    obtain ⟨content, offset, rest, ht, hr, rfl⟩ := h
    rw [nextTagWithin, advance_bind_event hnot hr ht]
    cases content <;> cases tag <;> cases ht <;> rfl
  | ignored _ ih =>
    have hr := h
    obtain ⟨content, offset, rest, ht, hr, -⟩ := hr
    rw [hr, List.cons_append, List.length_cons] at hc
    rw [nextTagWithin, advance_bind_ignored hnot hr]
    exact ih (not_atEnd_ignoring _ _ _ hnot) ((reaches_ignored_iff hr).2 h) hn rounds
      (Nat.lt_of_succ_lt hc)
  | @blank _ t _ _ hblank _ ih =>
    have hr := h
    obtain ⟨content, offset, rest, ht, hr, -⟩ := hr
    rw [hr, List.cons_append, List.length_cons] at hc
    rw [nextTagWithin, advance_bind_event hnot hr rfl]
    simp only [hblank, if_true]
    obtain _ | rounds := rounds
    · omega
    exact ih (not_atEnd_moved c _ (.characters t) _ nofun) ((reaches_event_iff hr).2 h) hn rounds
      (Nat.lt_of_succ_lt_succ hc)
  | text => cases hn
  | element => cases hn

theorem length_lt_rounds (c : Cursor) : c.readings.length < c.remaining + 1 := by
  rw [c.remaining_eq]
  exact Nat.lt_succ_self _

/-- The cursor comes to a tag exactly when only blank text stands before it. -/
theorem nextTag_eq_ok_iff {c c' : Cursor} {tag : Tag} (hne : tag ≠ .finish) :
    nextTag c = .ok tag c' ↔ ¬c.AtEnd ∧ ∃ before, Spells before [] ∧ c.Reaches before tag c' := by
  constructor
  · intro h
    exact (nextTagWithin_eq_ok c.length_lt_rounds h).resolve_left fun hfinish => hne hfinish.1
  · intro hgiven
    obtain ⟨hnot, before, hb, h⟩ := hgiven
    exact nextTagWithin_of_reaches c.length_lt_rounds hnot hb h

theorem nextTag_eq_start_iff {c c' : Cursor} {name : Name} {attributes : List Attribute} :
    nextTag c = .ok (.start name attributes) c' ↔
      ¬c.AtEnd ∧ ∃ before, Spells before [] ∧ c.Reaches before (.start name attributes) c' :=
  nextTag_eq_ok_iff nofun

theorem nextTag_eq_stop_iff {c c' : Cursor} {name : Name} :
    nextTag c = .ok (.stop name) c' ↔
      ¬c.AtEnd ∧ ∃ before, Spells before [] ∧ c.Reaches before (.stop name) c' :=
  nextTag_eq_ok_iff nofun

/-- A tag behind blank text is where the cursor comes to. -/
theorem nextTag_of_readings {c : Cursor} {tag : Tag} {content : Content} {offset : Nat}
    {before rest : List Reading} (hnot : ¬c.AtEnd) (hb : Spells before [])
    (ht : content.event? = some tag.event)
    (hr : c.readings = before ++ ⟨offset, .ok content⟩ :: rest) :
    nextTag c = .ok tag (c.moved offset tag.event rest) := by
  refine (nextTag_eq_ok_iff ?_).2 ⟨hnot, before, hb, content, offset, rest, ht, hr, rfl⟩
  intro hfinish
  rw [hfinish] at ht
  cases content <;> cases ht

end Cursor

end FeatureMarkup

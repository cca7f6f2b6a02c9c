import FeatureMarkup.Reader.Basic

/-! When a reading succeeds.

A reading is a function on states, and what it is put together from succeeds exactly
when its parts do, one after another. The equivalences here take a successful reading
apart; a failure contradicts success. The state is a cursor, or a session with a
cursor in it. -/
namespace FeatureMarkup

/-! ### No state -/

section Except
variable {ε α β : Type}

theorem exceptBind_eq_ok {x : Except ε α} {f : α → Except ε β} {b : β} :
    x >>= f = .ok b ↔ ∃ a, x = .ok a ∧ f a = .ok b := by
  cases x <;> simp [bind, Except.bind]

theorem exceptBind_eq_error {x : Except ε α} {f : α → Except ε β} {e : ε} :
    x >>= f = .error e ↔ x = .error e ∨ ∃ a, x = .ok a ∧ f a = .error e := by
  cases x <;> simp [bind, Except.bind]

theorem exceptMap_eq_ok {x : Except ε α} {f : α → β} {b : β} :
    f <$> x = .ok b ↔ ∃ a, x = .ok a ∧ f a = b := by
  cases x <;> simp [Functor.map, Except.map]

theorem exceptMap_eq_error {x : Except ε α} {f : α → β} {e : ε} :
    f <$> x = .error e ↔ x = .error e := by
  cases x <;> simp [Functor.map, Except.map]

end Except

/-! ### Any state -/

section State
variable {ε σ α β : Type} {s s' : σ}

theorem bind_eq_ok {m : EStateM ε σ α} {f : α → EStateM ε σ β} {b : β} :
    (m >>= f) s = .ok b s' ↔ ∃ a s₁, m s = .ok a s₁ ∧ f a s₁ = .ok b s' := by
  show EStateM.bind m f s = .ok b s' ↔ _
  unfold EStateM.bind
  cases m s with
  | ok a s₁ => simp [and_assoc]
  | error e s₁ => simp

theorem map_eq_ok {m : EStateM ε σ α} {f : α → β} {b : β} :
    (f <$> m) s = .ok b s' ↔ ∃ a, m s = .ok a s' ∧ f a = b := by
  show EStateM.map f m s = .ok b s' ↔ _
  unfold EStateM.map
  cases m s with
  | ok a s₁ =>
    simp only [EStateM.Result.ok.injEq, and_assoc, exists_eq_left']
    exact and_comm
  | error e s₁ => simp

@[simp] theorem pure_eq_ok {a b : α} :
    (pure a : EStateM ε σ α) s = .ok b s' ↔ a = b ∧ s = s' := by
  show EStateM.Result.ok a s = .ok b s' ↔ _
  simp

@[simp] theorem throw_ne_ok {e : ε} {a : α} : (throw e : EStateM ε σ α) s ≠ .ok a s' :=
  nofun

/-- What is got from the state is the state. -/
@[simp] theorem get_bind (f : σ → EStateM ε σ β) : (get >>= f) s = f s s := rfl

@[simp] theorem modify_eq_ok {change : σ → σ} {u : PUnit} :
    (modify change : EStateM ε σ PUnit) s = .ok u s' ↔ change s = s' := by
  show EStateM.Result.ok _ (change s) = .ok u s' ↔ _
  simp

/-- What a reading yields, if it succeeds. -/
def yield? : EStateM.Result ε σ α → Option α
  | .ok a _ => some a
  | .error _ _ => none

theorem yield?_eq_some {result : EStateM.Result ε σ α} {a : α} :
    yield? result = some a ↔ ∃ s, result = .ok a s := by
  cases result <;> simp [yield?]

/-- What can be told of a reading that succeeds. -/
def told? (tell : α → σ → β) : EStateM.Result ε σ α → Option β
  | .ok a s => some (tell a s)
  | .error _ _ => none

theorem told?_eq_some {tell : α → σ → β} {result : EStateM.Result ε σ α} {b : β} :
    told? tell result = some b ↔ ∃ a s, result = .ok a s ∧ tell a s = b := by
  cases result <;> simp [told?, and_assoc]

/-- What a reading fails with, if it fails. -/
def failure? : EStateM.Result ε σ α → Option ε
  | .ok _ _ => none
  | .error e _ => some e

theorem failure?_eq_some {result : EStateM.Result ε σ α} {e : ε} :
    failure? result = some e ↔ ∃ s, result = .error e s := by
  cases result <;> simp [failure?]

/-- The state that a reading leaves, whether it succeeds or fails. -/
def behind : EStateM.Result ε σ α → σ
  | .ok _ s => s
  | .error _ s => s

end State

/-! ### Cursors -/

namespace Cursor

/-- Two cursors that agree on everything but the count of readings agree on that. -/
theorem eq_of_fields {c d : Cursor} (readings : c.readings = d.readings)
    (offset : c.offset = d.offset) (event : c.event = d.event) (element : c.element = d.element)
    (log : c.log = d.log) : c = d := by
  have remaining : c.remaining = d.remaining := by
    rw [c.remaining_eq, d.remaining_eq, readings]
  cases c
  cases d
  simp_all

/-- The cursor with other readings left. -/
def facing (c : Cursor) (readings : List Xml.Reading) : Cursor :=
  { ofReadings readings with offset := c.offset, event := c.event, element := c.element, log := c.log }

@[simp] theorem facing_readings (c : Cursor) (rs : List Xml.Reading) :
    (c.facing rs).readings = rs := rfl
@[simp] theorem facing_remaining (c : Cursor) (rs : List Xml.Reading) :
    (c.facing rs).remaining = rs.length := rfl
@[simp] theorem facing_event (c : Cursor) (rs : List Xml.Reading) :
    (c.facing rs).event = c.event := rfl
@[simp] theorem facing_facing (c : Cursor) (rs rs' : List Xml.Reading) :
    (c.facing rs).facing rs' = c.facing rs' := rfl
@[simp] theorem facing_position (c : Cursor) (rs : List Xml.Reading) :
    (c.facing rs).position = c.position := rfl

@[simp] theorem facing_self (c : Cursor) : c.facing c.readings = c :=
  eq_of_fields rfl rfl rfl rfl rfl

/-- The cursor with more in its log. -/
def logging (c : Cursor) (entries : List Note) : Cursor := { c with log := c.log ++ entries }

@[simp] theorem logging_readings (c : Cursor) (entries : List Note) :
    (c.logging entries).readings = c.readings := rfl
@[simp] theorem logging_remaining (c : Cursor) (entries : List Note) :
    (c.logging entries).remaining = c.remaining := rfl
@[simp] theorem logging_event (c : Cursor) (entries : List Note) :
    (c.logging entries).event = c.event := rfl
@[simp] theorem logging_facing (c : Cursor) (entries : List Note) (rs : List Xml.Reading) :
    (c.logging entries).facing rs = (c.facing rs).logging entries := rfl

@[simp] theorem logging_position (c : Cursor) (entries : List Note) :
    (c.logging entries).position = c.position := rfl
@[simp] theorem logging_nil (c : Cursor) : c.logging [] = c :=
  eq_of_fields rfl rfl rfl rfl (by simp [logging])
@[simp] theorem logging_logging (c : Cursor) (entries more : List Note) :
    (c.logging entries).logging more = c.logging (entries ++ more) :=
  eq_of_fields rfl rfl rfl rfl (by simp [logging, ← Array.toList_inj])

@[simp] theorem fail_ne_ok {cause : Cause} {c c' : Cursor} {a : α} :
    (fail cause : CursorM α) c ≠ .ok a c' :=
  nofun

@[simp] theorem failMarkup_ne_ok {problem : MarkupProblem} {c c' : Cursor} {a : α} :
    (failMarkup problem : CursorM α) c ≠ .ok a c' :=
  nofun

@[simp] theorem notes_eq_ok {entries : List Note} {c c' : Cursor} {u : Unit} :
    notes entries c = .ok u c' ↔ c.logging entries = c' := by
  simp [notes, logging]

@[simp] theorem note_eq_ok {level : Level} {text : String} {c c' : Cursor} {u : Unit} :
    note level text c = .ok u c' ↔ c.logging [⟨level, text⟩] = c' := by
  simp [note]

end Cursor

/-- A condition that must not hold is looked at before going on. -/
theorem guard_eq_ok {α : Type} {p : Prop} [Decidable p] {cause : Cause} {m : Unit → CursorM α}
    {a : α} {c c' : Cursor} :
    (if p then Cursor.fail cause >>= m else m ()) c = .ok a c' ↔ ¬p ∧ m () c = .ok a c' := by
  by_cases hp : p
  · simp [hp, bind_eq_ok]
  · simp [hp]

/-! ### Sessions -/

namespace Session
variable {κ : Type} {s s' : Session κ}

/-- A move of the cursor within a session leaves the registry. -/
@[simp] theorem lift_eq_ok {move : CursorM α} {a : α} :
    (liftM move : SessionM κ α) s = .ok a s' ↔
      ∃ c, move s.cursor = .ok a c ∧ { s with cursor := c } = s' := by
  show onCursor move s = .ok a s' ↔ _
  unfold onCursor
  cases move s.cursor with
  | ok b c => simp [and_assoc]
  | error e c => simp

@[simp] theorem fail_ne_ok {cause : Cause} {a : α} :
    (fail cause : SessionM κ α) s ≠ .ok a s' :=
  nofun

@[simp] theorem notes_eq_ok {entries : List Note} {u : Unit} :
    (notes entries : SessionM κ Unit) s = .ok u s' ↔
      { s with cursor := s.cursor.logging entries } = s' := by
  unfold notes
  rw [lift_eq_ok]
  simp

@[simp] theorem note_eq_ok {level : Level} {text : String} {u : Unit} :
    (note level text : SessionM κ Unit) s = .ok u s' ↔
      { s with cursor := s.cursor.logging [⟨level, text⟩] } = s' := by
  unfold note
  rw [lift_eq_ok]
  simp

end Session

theorem inProperty_eq_ok {τ α : Type} {property : Name} {position : Position}
    {read : EStateM ReadError τ α} {s s' : τ} {a : α} :
    inProperty property position read s = .ok a s' ↔ read s = .ok a s' := by
  unfold inProperty
  cases read s <;> simp

end FeatureMarkup

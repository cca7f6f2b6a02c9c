import FeatureMarkup.Proofs.Cursor.Element

/-! States that a cursor is part of, and readings that move it forward.

A reader works on a cursor or on a session with a cursor in it, and what is said of its
moves is the same for both. Every reading moves the cursor forward and never away from the
end of the document; that is `Forward`. One that is allowed a depth of nesting does the
same with any other depth that the readings left cannot exhaust; that is `Follows`. -/
namespace FeatureMarkup

open Xml (Attribute Content Reading)

/-- A state that a cursor is part of. -/
class Tape (τ : Type) where
  cursor : τ → Cursor
  put : τ → Cursor → τ
  cursor_put : ∀ s c, cursor (put s c) = c
  put_put : ∀ s c d, put (put s c) d = put s d
  put_cursor : ∀ s, put s (cursor s) = s

namespace Tape

attribute [simp] cursor_put put_put put_cursor

instance : Tape Cursor := ⟨id, fun _ c => c, fun _ _ => rfl, fun _ _ _ => rfl, fun _ => rfl⟩

instance {κ : Type} : Tape (Session κ) :=
  ⟨Session.cursor, fun s cursor => { s with cursor }, fun _ _ => rfl, fun _ _ _ => rfl, fun _ => rfl⟩

@[simp] theorem cursor_self (c : Cursor) : cursor c = c := rfl

@[simp] theorem put_self (c d : Cursor) : put c d = d := rfl

variable {τ : Type} [Tape τ] {α : Type}

/-- The state with other readings left. -/
def facing (s : τ) (readings : List Reading) : τ := put s ((cursor s).facing readings)

/-- The event that the cursor stands on. -/
def event (s : τ) : Event := (cursor s).event

/-- What is left to read. -/
def left (s : τ) : List Reading := (cursor s).readings

/-- A move of the cursor, in a state that it is part of. -/
def run (move : CursorM α) : EStateM ReadError τ α := fun s =>
  match move (cursor s) with
  | .ok a c => .ok a (put s c)
  | .error e c => .error e (put s c)

@[simp] theorem facing_left (s : τ) : facing s (left s) = s := by
  simp [facing, left]

@[simp] theorem left_facing (s : τ) (rs : List Reading) : left (facing s rs) = rs := by
  simp [facing, left]

@[simp] theorem event_facing (s : τ) (rs : List Reading) : event (facing s rs) = event s := by
  simp [facing, event]

@[simp] theorem facing_facing (s : τ) (rs rs' : List Reading) : facing (facing s rs) rs' = facing s rs' := by
  simp [facing]

@[simp] theorem run_eq_ok {move : CursorM α} {s s' : τ} {a : α} :
    run move s = .ok a s' ↔ ∃ c, move (cursor s) = .ok a c ∧ put s c = s' := by
  unfold run
  cases move (cursor s) <;> simp [and_assoc]

/-- In a cursor there is nothing but the cursor. -/
theorem run_cursor (move : CursorM α) : (run move : CursorM α) = move := by
  funext c
  show (match move c with | .ok a c => .ok a c | .error e c => .error e c) = move c
  cases move c <;> rfl

end Tape

open Tape

variable {τ : Type} [Tape τ] {α β σ : Type}

/-! ### Forward -/

/-- One state is no further back than the other. -/
structure Ahead (s s' : τ) : Prop where
  left : left s' <:+ left s
  atEnd : event s = .endDocument → event s' = .endDocument

/-- A reading that moves the cursor only forward. -/
def Forward (m : EStateM ReadError τ α) : Prop :=
  ∀ ⦃s a s'⦄, m s = .ok a s' → Ahead s s'

theorem Ahead.refl (s : τ) : Ahead s s := ⟨List.suffix_refl _, id⟩

theorem Ahead.trans {s s₁ s' : τ} (h : Ahead s s₁) (h' : Ahead s₁ s') : Ahead s s' :=
  ⟨h'.left.trans h.left, h'.atEnd ∘ h.atEnd⟩

theorem Ahead.length_le {s s' : τ} (h : Ahead s s') :
    (Tape.left s').length ≤ (Tape.left s).length := h.left.length_le

theorem Ahead.events_le {s s' : τ} (h : Ahead s s') :
    (Tape.left s').countP Reading.isEvent ≤ (Tape.left s).countP Reading.isEvent :=
  h.left.sublist.countP_le

namespace Forward

theorem pure (a : α) : Forward (Pure.pure a : EStateM ReadError τ α) := by
  intro s b s' h
  obtain ⟨-, rfl⟩ := pure_eq_ok.1 h
  exact .refl s

theorem bind {m : EStateM ReadError τ α} {f : α → EStateM ReadError τ β} (hm : Forward m)
    (hf : ∀ a, Forward (f a)) : Forward (m >>= f) := by
  intro s b s' h
  obtain ⟨a, s₁, h₁, h₂⟩ := bind_eq_ok.1 h
  exact (hm h₁).trans (hf a h₂)

theorem map {m : EStateM ReadError τ α} (hm : Forward m) (f : α → β) : Forward (f <$> m) := by
  intro s b s' h
  obtain ⟨a, h, -⟩ := map_eq_ok.1 h
  exact hm h

theorem ite {p : Prop} [Decidable p] {m m' : EStateM ReadError τ α} (hm : Forward m)
    (hm' : Forward m') : Forward (if p then m else m') := by
  split
  · exact hm
  · exact hm'

/-- What depends on the state is forward when it is so for every state. -/
theorem get {f : τ → EStateM ReadError τ β} (hf : ∀ s, Forward (f s)) :
    Forward (MonadState.get >>= f) := by
  intro s b s' h
  rw [get_bind] at h
  exact hf s h

theorem run {m : CursorM α} (hm : Forward m) : Forward (Tape.run m : EStateM ReadError τ α) := by
  intro s a s' h
  obtain ⟨c, hc, rfl⟩ := run_eq_ok.1 h
  have hahead : Ahead (cursor s) c := hm hc
  exact ⟨by simpa [Tape.left] using hahead.left, by simpa [event] using hahead.atEnd⟩

theorem inProperty {property : Name} {position : Position} {m : EStateM ReadError τ α}
    (hm : Forward m) : Forward (inProperty property position m) :=
  fun _ _ _ h => hm (inProperty_eq_ok.1 h)

theorem fail (cause : Cause) : Forward (Cursor.fail cause : CursorM α) :=
  fun _ _ _ h => absurd h Cursor.fail_ne_ok

theorem failMarkup (problem : MarkupProblem) : Forward (Cursor.failMarkup problem : CursorM α) :=
  fail _

/-- A loop is forward when its body is, however many rounds it is allowed. -/
theorem foldTags {next : EStateM ReadError τ Tag}
    {body : Name → List Attribute → σ → EStateM ReadError τ σ} (hnext : Forward next)
    (hbody : ∀ name attributes a, Forward (body name attributes a)) (rounds : Nat) (a : σ) :
    Forward (FeatureMarkup.foldTags next body rounds a) := by
  induction rounds generalizing a with
  | zero => exact pure _
  | succ rounds ih =>
    refine bind hnext fun tag => ?_
    cases tag with
    | start name attributes => exact bind (hbody name attributes a) ih
    | stop | finish => exact pure _

theorem advance : Forward Cursor.advance := by
  intro c event c' h
  rcases Cursor.advance_eq_ok h with
    ⟨-, hend, hsuffix⟩ | ⟨hnot, before, content, offset, rest, -, -, hr, rfl⟩
  · exact ⟨hsuffix, fun _ => hend⟩
  · refine ⟨?_, fun hend => absurd hend hnot⟩
    show rest <:+ c.readings
    rw [hr]
    exact (List.suffix_cons _ _).trans (List.suffix_append _ _)

theorem nextTagWithin (rounds : Nat) : Forward (Cursor.nextTagWithin rounds) := by
  induction rounds with
  | zero => exact pure _
  | succ rounds ih =>
    refine bind advance fun event => ?_
    cases event with
    | characters text => exact ite ih (failMarkup _)
    | startDocument => exact ih
    | _ => exact pure _

theorem nextTag : Forward (Tape.run Cursor.nextTag : EStateM ReadError τ Tag) :=
  run (get fun _ => nextTagWithin _)

theorem textWithin (rounds : Nat) (found : String) : Forward (Cursor.textWithin rounds found) := by
  induction rounds generalizing found with
  | zero => exact failMarkup _
  | succ rounds ih =>
    refine bind advance fun event => ?_
    cases event with
    | characters more => exact ih _
    | endElement => exact pure _
    | _ => exact failMarkup _

theorem elementText : Forward Cursor.elementText := by
  refine get fun c => ?_
  cases c.event with
  | startElement => exact get fun c => textWithin _ _
  | _ => exact failMarkup _

theorem skipWithin (rounds depth : Nat) : Forward (Cursor.skipWithin rounds depth) := by
  induction rounds generalizing depth with
  | zero =>
    cases depth with
    | zero => exact pure _
    | succ depth => exact failMarkup _
  | succ rounds ih =>
    cases depth with
    | zero => exact pure _
    | succ depth =>
      refine bind advance fun event => ?_
      cases event with
      | endDocument => exact failMarkup _
      | _ => exact ih _

theorem skipElement : Forward Cursor.skipElement := by
  refine get fun c => ?_
  cases c.event with
  | startElement => exact get fun c => skipWithin _ _
  | _ => exact failMarkup _

theorem nodesWithin (rounds : Nat) (found : List MarkupNode) :
    Forward (Cursor.nodesWithin rounds found) := by
  induction rounds generalizing found with
  | zero => exact failMarkup _
  | succ rounds ih =>
    refine bind advance fun event => ?_
    cases event with
    | startElement => exact bind (ih _) fun _ => ih _
    | characters => exact ite (ih _) (ih _)
    | endElement => exact pure _
    | _ => exact failMarkup _

theorem captureElement : Forward Cursor.captureElement := by
  refine get fun c => ?_
  cases c.event with
  | startElement => exact get fun c => bind (nodesWithin _ _) fun _ => pure _
  | _ => exact failMarkup _

end Forward

/-- The start of an element takes a reading. -/
theorem length_lt_of_nextTag {s s₁ : τ} {name : Name} {attributes : List Attribute}
    (h : Tape.run Cursor.nextTag s = .ok (.start name attributes) s₁) :
    (left s₁).length < (left s).length := by
  obtain ⟨c, hc, rfl⟩ := run_eq_ok.1 h
  obtain ⟨-, before, -, hreach⟩ := Cursor.nextTag_eq_start_iff.1 hc
  simpa [Tape.left] using hreach.length_lt

/-! ### Depth -/

/-- Whatever the first reading does with fewer readings left than a limit, the second does
too. -/
def Follows (limit : Nat) (m m' : EStateM ReadError τ α) : Prop :=
  ∀ ⦃s a s'⦄, (left s).length < limit → m s = .ok a s' → m' s = .ok a s'

namespace Follows
variable {limit : Nat}

theorem refl (m : EStateM ReadError τ α) : Follows limit m m := fun _ _ _ _ h => h

theorem mono {limit' : Nat} {m m' : EStateM ReadError τ α} (h : Follows limit m m')
    (hle : limit' ≤ limit) : Follows limit' m m' :=
  fun _ _ _ hs hok => h (Nat.lt_of_lt_of_le hs hle) hok

theorem bind {m m' : EStateM ReadError τ α} {f f' : α → EStateM ReadError τ β}
    (hm : Follows limit m m') (hforward : Forward m) (hf : ∀ a, Follows limit (f a) (f' a)) :
    Follows limit (m >>= f) (m' >>= f') := by
  intro s b s' hs h
  obtain ⟨a, s₁, h₁, h₂⟩ := bind_eq_ok.1 h
  exact bind_eq_ok.2 ⟨a, s₁, hm hs h₁, hf a (Nat.lt_of_le_of_lt (hforward h₁).length_le hs) h₂⟩

theorem map {m m' : EStateM ReadError τ α} {f : α → β} (hm : Follows limit m m') :
    Follows limit (f <$> m) (f <$> m') := by
  intro s b s' hs h
  obtain ⟨a, h₁, hb⟩ := map_eq_ok.1 h
  exact map_eq_ok.2 ⟨a, hm hs h₁, hb⟩

theorem get {f f' : τ → EStateM ReadError τ α} (hf : ∀ s, Follows limit (f s) (f' s)) :
    Follows limit (MonadState.get >>= f) (MonadState.get >>= f') := by
  intro s a s' hs h
  rw [get_bind] at h ⊢
  exact hf s hs h

/-- The start of an element has been read when its body is. -/
theorem foldTags {body body' : Name → List Attribute → σ → EStateM ReadError τ σ}
    (hforward : ∀ name attributes a, Forward (body name attributes a))
    (hbody : ∀ name attributes a, Follows limit (body name attributes a) (body' name attributes a))
    (rounds : Nat) (a : σ) :
    Follows (limit + 1) (FeatureMarkup.foldTags (Tape.run Cursor.nextTag) body rounds a)
      (FeatureMarkup.foldTags (Tape.run Cursor.nextTag) body' rounds a) := by
  induction rounds generalizing a with
  | zero => exact refl _
  | succ rounds ih =>
    intro s r s' hs h
    obtain ⟨tag, s₁, hnext, hrest⟩ := bind_eq_ok.1 h
    refine bind_eq_ok.2 ⟨tag, s₁, hnext, ?_⟩
    cases tag with
    | stop | finish => exact hrest
    | start name attributes =>
      have hs₁ : (left s₁).length < limit :=
        Nat.lt_of_lt_of_le (length_lt_of_nextTag hnext) (Nat.le_of_lt_succ hs)
      have hloop := bind (hbody name attributes a) (hforward name attributes a)
        fun a => (ih a).mono (Nat.le_succ limit)
      exact hloop hs₁ hrest

end Follows

end FeatureMarkup

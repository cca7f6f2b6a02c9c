import FeatureMarkup.Proofs.Cursor.Halting
import FeatureMarkup.Proofs.Cursor.LastEvent

/-! How often a cursor is told to move.

`Calls` counts the steps that a reading takes with the cursor, as it is put together: the step at
the end of the document counts too, although it moves nothing. Two are put aside for each event that
is left, and a reading lives on what it is given and on the events that it takes; `Affords` says
how much of that it leaves to what comes behind. A reader is given one: that is enough, since it
comes to an end at the first step that takes no event. -/
namespace FeatureMarkup

open Xml (Attribute Reading)
open Tape

variable {τ : Type} [Tape τ] {α β σ : Type}

/-- A reading that takes so many steps with the cursor from a state. What neither moves the cursor
nor takes a reading away from it is no step. -/
inductive Calls : {α : Type} → EStateM ReadError τ α → τ → Nat → Prop where
  | pure {α : Type} (a : α) (s : τ) : Calls (Pure.pure a) s 0
  | throw {α : Type} (e : ReadError) (s : τ) : Calls (MonadExcept.throw e : EStateM ReadError τ α) s 0
  | modify (change : τ → τ) (s : τ) : (∀ s, left (change s) = left s ∧ event (change s) = event s) →
      Calls (modify change) s 0
  | get {α : Type} {f : τ → EStateM ReadError τ α} {s : τ} {n : Nat} :
      Calls (f s) s n → Calls (MonadState.get >>= f) s n
  | bind {α β : Type} {m : EStateM ReadError τ α} {f : α → EStateM ReadError τ β} {s s₁ : τ} {a : α}
      {n k : Nat} : Calls m s n → m s = .ok a s₁ → Calls (f a) s₁ k → Calls (m >>= f) s (n + k)
  | stop {α β : Type} {m : EStateM ReadError τ α} {f : α → EStateM ReadError τ β} {s s₁ : τ}
      {e : ReadError} {n : Nat} : Calls m s n → m s = .error e s₁ → Calls (m >>= f) s n
  | inProperty {α : Type} {m : EStateM ReadError τ α} {s : τ} {n : Nat} (property : Name)
      (position : Position) : Calls m s n → Calls (inProperty property position m) s n
  | advance (s : τ) : Calls (run Cursor.advance) s 1

/-! ### In a larger state -/

namespace Tape

theorem run_pure (a : α) : (run (Pure.pure a) : EStateM ReadError τ α) = Pure.pure a := by
  funext s
  show EStateM.Result.ok a (put s (cursor s)) = .ok a s
  rw [put_cursor]

theorem run_throw (e : ReadError) :
    (run (MonadExcept.throw e) : EStateM ReadError τ α) = MonadExcept.throw e := by
  funext s
  show EStateM.Result.error e (put s (cursor s)) = .error e s
  rw [put_cursor]

theorem run_bind (m : CursorM α) (f : α → CursorM β) :
    (run (m >>= f) : EStateM ReadError τ β) = run m >>= fun a => run (f a) := by
  funext s
  show run (EStateM.bind m f) s = EStateM.bind (run m) (fun a => run (f a)) s
  simp only [run, EStateM.bind]
  cases m (cursor s) with
  | error e c => rfl
  | ok a c => simp only [cursor_put, put_put]

theorem run_inProperty (property : Name) (position : Position) (m : CursorM α) :
    (run (inProperty property position m) : EStateM ReadError τ α) =
      inProperty property position (run m) := by
  funext s
  simp only [run, inProperty]
  cases m (cursor s) <;> rfl

end Tape

/-- A reading moves the cursor of a larger state as often. -/
theorem Calls.run {m : CursorM α} {c : Cursor} {n : Nat} (h : Calls m c n) {s : τ}
    (hs : cursor s = c) : Calls (Tape.run m : EStateM ReadError τ α) s n := by
  induction h generalizing s with
  | pure a c => exact run_pure (τ := τ) a ▸ .pure a s
  | throw e c => exact run_throw (τ := τ) e ▸ .throw e s
  | modify change c hchange =>
    refine .modify (fun s => put s (change (cursor s))) s fun s => ?_
    simpa [left, event] using hchange (cursor s)
  | @get _ f c n h ih =>
    have hget : (Tape.run (MonadState.get >>= f) : EStateM ReadError τ _) =
        MonadState.get >>= fun s => Tape.run (f (cursor s)) := rfl
    rw [hget]
    refine .get ?_
    rw [hs]
    exact ih hs
  | @bind _ _ m f c c₁ a n k _ hok _ ih ihf =>
    rw [run_bind]
    exact .bind (ih hs) (run_eq_ok.2 ⟨c₁, by rw [hs]; exact hok, rfl⟩) (ihf (cursor_put s c₁))
  | @stop _ _ m f c c₁ e n _ herror ih =>
    rw [run_bind]
    have hrun : Tape.run m s = .error e (put s c₁) := by
      simp only [Tape.run, hs, herror]
    exact .stop (ih hs) hrun
  | inProperty property position _ ih =>
    rw [run_inProperty]
    exact .inProperty property position (ih hs)
  | advance c =>
    rw [run_cursor]
    exact .advance s

/-! ### As many as there are events -/

namespace Cursor

theorem events_of_ignored {passed : List Reading} (h : passed.all Reading.isIgnored = true) :
    passed.countP Reading.isEvent = 0 := by
  refine List.countP_eq_zero.2 fun r hr => ?_
  have hignored := List.all_eq_true.1 h r hr
  obtain ⟨offset, fault | content⟩ := r
  · cases hignored
  · cases content <;> simp_all [Reading.isIgnored, Reading.isEvent]

/-- A step takes no more than one event, and it gives none back. -/
theorem events_advance (c : Cursor) :
    events (behind (advance c)) ≤ events c ∧ events c ≤ events (behind (advance c)) + 1 := by
  have hleaves := c.leaves_advance
  cases hread : advance c with
  | ok event c' =>
    rw [hread] at hleaves
    obtain ⟨-, ⟨-, rfl⟩ | ⟨passed, hpassed, ⟨-, hr, hnil⟩ | ⟨r, -, hr⟩⟩⟩ := hleaves
    · exact ⟨Nat.le_refl _, Nat.le_succ _⟩
    · have hnone := events_of_ignored hpassed
      simp [behind, events, left, hr, hnil, hnone]
    · have hnone := events_of_ignored hpassed
      simp only [behind, events, left, cursor_self, hr, List.countP_append, List.countP_cons, hnone]
      split <;> omega
  | error e c' =>
    rw [hread] at hleaves
    obtain ⟨passed, offset, fault, hpassed, hr, -⟩ := hleaves
    have hnone := events_of_ignored hpassed
    simp [behind, events, left, hr, Reading.isEvent, hnone]

end Cursor

/-- A reading takes no more events than it takes steps. -/
theorem Calls.events_le {m : EStateM ReadError τ α} {s : τ} {n : Nat} (h : Calls m s n) :
    events s ≤ events (behind (m s)) + n := by
  induction h with
  | pure a s | throw e s => exact Nat.le_refl _
  | modify change s hchange =>
    show events s ≤ events (change s) + 0
    rw [events, events, (hchange s).1]
    exact Nat.le_refl _
  | get _ ih => exact ih
  | @bind _ _ m f s s₁ a n k _ hok _ ih ihf =>
    rw [hok] at ih
    have hbind : (m >>= f) s = f a s₁ := by
      show EStateM.bind m f s = _
      unfold EStateM.bind
      rw [hok]
    rw [hbind]
    have hfirst : events s ≤ events s₁ + n := ih
    omega
  | @stop _ _ m f s s₁ e n _ herror ih =>
    rw [herror] at ih
    have hbind : (m >>= f) s = .error e s₁ := by
      show EStateM.bind m f s = _
      unfold EStateM.bind
      rw [herror]
    rw [hbind]
    exact ih
  | @inProperty _ m s n property position _ ih =>
    unfold FeatureMarkup.inProperty
    cases hread : m s with
    | ok a s' | error e s' =>
      rw [hread] at ih
      exact ih
  | advance s =>
    have hstep := (cursor s).events_advance.2
    unfold Tape.run
    cases hread : Cursor.advance (cursor s) with
    | ok event c | error e c =>
      rw [hread] at hstep
      simpa [behind, events, left] using hstep

/-! ### What is left of the allowance -/

/-- A reading that is given so much, and two for each event that it takes, pays for its steps and
leaves so much to what comes behind. -/
def Affords (given : Nat) (m : EStateM ReadError τ α) (leaves : α → Nat) : Prop :=
  ∀ s, ∃ n, Calls m s n ∧
    match m s with
    | .ok a s' => n + 2 * events s' + leaves a ≤ 2 * events s + given
    | .error _ s' => n + 2 * events s' ≤ 2 * events s + given

/-- A reading that takes no step. -/
abbrev Idle (m : EStateM ReadError τ α) : Prop := Affords 0 m fun _ => 0

/-- A reading that is given one. -/
abbrev Frugal (m : EStateM ReadError τ α) : Prop := Affords 1 m fun _ => 0

namespace Affords
variable {given : Nat} {leaves : α → Nat} {m : EStateM ReadError τ α}

theorem mono {given' : Nat} {leaves' : α → Nat} (h : Affords given m leaves) (hgiven : given ≤ given')
    (hleaves : ∀ a, leaves' a ≤ leaves a) : Affords given' m leaves' := by
  intro s
  obtain ⟨n, hcalls, hpaid⟩ := h s
  refine ⟨n, hcalls, ?_⟩
  cases hread : m s with
  | ok a s' =>
    rw [hread] at hpaid
    have hless := hleaves a
    dsimp only at hpaid ⊢
    omega
  | error e s' =>
    rw [hread] at hpaid
    dsimp only at hpaid ⊢
    omega

/-- What is given on top is left. -/
theorem frame (h : Affords given m leaves) (more : Nat) :
    Affords (given + more) m fun a => leaves a + more := by
  intro s
  obtain ⟨n, hcalls, hpaid⟩ := h s
  refine ⟨n, hcalls, ?_⟩
  cases hread : m s with
  | ok a s' | error e s' =>
    rw [hread] at hpaid
    dsimp only at hpaid ⊢
    omega

theorem bind {f : α → EStateM ReadError τ β} {leaves' : β → Nat} (hm : Affords given m leaves)
    (hf : ∀ a, Affords (leaves a) (f a) leaves') : Affords given (m >>= f) leaves' := by
  intro s
  obtain ⟨n, hcalls, hpaid⟩ := hm s
  show ∃ n, Calls (m >>= f) s n ∧ match EStateM.bind m f s with
    | .ok a s' => n + 2 * events s' + leaves' a ≤ 2 * events s + given
    | .error _ s' => n + 2 * events s' ≤ 2 * events s + given
  unfold EStateM.bind
  cases hread : m s with
  | error e s₁ =>
    rw [hread] at hpaid
    exact ⟨n, .stop hcalls hread, hpaid⟩
  | ok a s₁ =>
    obtain ⟨k, hcalls', hpaid'⟩ := hf a s₁
    refine ⟨n + k, .bind hcalls hread hcalls', ?_⟩
    rw [hread] at hpaid
    dsimp only at hpaid ⊢
    cases hread' : f a s₁ with
    | ok b s' | error e s' =>
      rw [hread'] at hpaid'
      dsimp only at hpaid' ⊢
      omega

theorem pure_leaving (a : α) (h : leaves a ≤ given) :
    Affords given (Pure.pure a : EStateM ReadError τ α) leaves :=
  fun s => ⟨0, .pure a s, by show 0 + 2 * events s + leaves a ≤ _; omega⟩

theorem pure (a : α) : Affords given (Pure.pure a : EStateM ReadError τ α) fun _ => 0 :=
  pure_leaving a (Nat.zero_le _)

theorem get {f : τ → EStateM ReadError τ α} (hf : ∀ s, Affords given (f s) leaves) :
    Affords given (MonadState.get >>= f) leaves := by
  intro s
  obtain ⟨n, hcalls, hpaid⟩ := hf s s
  exact ⟨n, .get hcalls, hpaid⟩

theorem throw (e : ReadError) : Affords given (MonadExcept.throw e : EStateM ReadError τ α) leaves :=
  fun s => ⟨0, .throw e s, by show 0 + 2 * events s ≤ _; omega⟩

theorem ite {p : Prop} [Decidable p] {m' : EStateM ReadError τ α} (h : Affords given m leaves)
    (h' : Affords given m' leaves) : Affords given (if p then m else m') leaves := by
  split
  · exact h
  · exact h'

theorem inProperty {property : Name} {position : Position} (h : Affords given m leaves) :
    Affords given (inProperty property position m) leaves := by
  intro s
  obtain ⟨n, hcalls, hpaid⟩ := h s
  refine ⟨n, .inProperty property position hcalls, ?_⟩
  unfold FeatureMarkup.inProperty
  cases hread : m s with
  | ok a s' | error e s' =>
    rw [hread] at hpaid
    exact hpaid

theorem run {m : CursorM α} (h : Affords given m leaves) :
    Affords given (Tape.run m : EStateM ReadError τ α) leaves := by
  intro s
  obtain ⟨n, hcalls, hpaid⟩ := h (cursor s)
  refine ⟨n, hcalls.run rfl, ?_⟩
  unfold Tape.run
  cases hread : m (cursor s) with
  | ok a c | error e c =>
    rw [hread] at hpaid
    simpa [events, left] using hpaid

/-- What takes no step leaves all that it is given. -/
theorem idle_bind {f : α → EStateM ReadError τ β} {leaves' : β → Nat} (hm : Idle m)
    (hf : ∀ a, Affords given (f a) leaves') : Affords given (m >>= f) leaves' :=
  .bind (mono (hm.frame given) (by omega) fun _ => Nat.le_add_left _ _) hf

/-- What takes no step may come last. -/
theorem bind_idle {f : α → EStateM ReadError τ β} (hm : Affords given m leaves)
    (hf : ∀ a, Idle (f a)) : Affords given (m >>= f) fun _ => 0 :=
  .bind hm fun a => (hf a).mono (Nat.zero_le _) fun _ => Nat.le_refl _

theorem map (h : Affords given m fun _ => 0) (f : α → β) : Affords given (f <$> m) fun _ => 0 := by
  rw [map_eq_pure_bind]
  exact h.bind_idle fun _ => .pure _

theorem modify {change : τ → τ} (h : ∀ s, left (change s) = left s ∧ event (change s) = event s) :
    Idle (modify change : EStateM ReadError τ PUnit) := by
  refine fun s => ⟨0, .modify change s h, ?_⟩
  show 0 + 2 * events (change s) + 0 ≤ 2 * events s + 0
  rw [events, (h s).1, events]
  omega

theorem fail (cause : Cause) : Affords given (Cursor.fail cause : CursorM α) leaves :=
  .get fun _ => .throw _

theorem failMarkup (problem : MarkupProblem) :
    Affords given (Cursor.failMarkup problem : CursorM α) leaves :=
  fail _

/-- A condition is looked at before going on. -/
theorem guard {p : Prop} [Decidable p] {cause : Cause} {m : CursorM α} (hm : Affords given m leaves) :
    Affords given (if p then Cursor.fail cause >>= fun _ : Unit => m else m) leaves :=
  .ite (.bind (fail _) fun _ => hm) hm

theorem notes (entries : List Note) : Idle (Cursor.notes entries) :=
  modify fun _ => ⟨rfl, rfl⟩

theorem mapM {f : β → EStateM ReadError τ α} (hf : ∀ b, Idle (f b)) (bs : List β) : Idle (bs.mapM f) := by
  induction bs with
  | nil => exact pure _
  | cons b bs ih =>
    rw [List.mapM_cons]
    exact (hf b).bind fun _ => ih.bind fun _ => pure _

end Affords

/-! ### Moves -/

namespace Affords
variable {leaves : α → Nat}

/-- A step pays for itself with the event that it takes, and leaves two; the last one takes what is
given. -/
theorem advance : Affords 1 Cursor.advance fun event => if event = .endDocument then 0 else 2 := by
  refine fun c => ⟨1, run_cursor Cursor.advance ▸ Calls.advance c, ?_⟩
  have hle := c.events_advance.1
  cases hread : Cursor.advance c with
  | ok event c' =>
    rw [hread] at hle
    dsimp only [behind] at hle ⊢
    split
    · omega
    next hevent =>
      have hless := Cursor.events_lt_of_advance hread hevent
      omega
  | error e c' =>
    rw [hread] at hle
    dsimp only [behind] at hle ⊢
    omega

/-- A loop that begins with a step is over at the end of the document, or it has an event more to
live on. -/
theorem advance_bind {f : Event → CursorM α} (hend : Affords 0 (f .endDocument) leaves)
    (hf : ∀ event, event ≠ .endDocument → Affords 2 (f event) leaves) :
    Affords 1 (Cursor.advance >>= f) leaves := by
  refine advance.bind fun event => ?_
  split
  next h => exact h ▸ hend
  next h => exact hf event h

theorem nextTag : Affords 1 (Tape.run Cursor.nextTag : EStateM ReadError τ Tag)
    fun tag => if tag = .finish then 0 else 2 := by
  have hloop (rounds : Nat) :
      Affords 1 (Cursor.nextTagWithin rounds) fun tag => if tag = .finish then 0 else 2 := by
    induction rounds with
    | zero => exact pure_leaving _ (Nat.zero_le _)
    | succ rounds ih =>
      have hrest := ih.mono (Nat.le_succ 1) fun _ => Nat.le_refl _
      refine advance_bind (pure_leaving _ (Nat.le_refl _)) fun event hevent => ?_
      cases event with
      | startElement | endElement => exact pure_leaving _ (Nat.le_refl _)
      | endDocument => exact absurd rfl hevent
      | startDocument => exact hrest
      | characters => exact ite hrest (failMarkup _)
  exact run (get fun _ => hloop _)

/-- Behind a tag there is an event more to live on. -/
theorem nextTag_bind {f : Tag → EStateM ReadError τ α}
    (hstart : ∀ name attributes, Affords 2 (f (.start name attributes)) leaves)
    (hstop : ∀ name, Affords 2 (f (.stop name)) leaves) (hfinish : Affords 0 (f .finish) leaves) :
    Affords 1 (Tape.run Cursor.nextTag >>= f) leaves := by
  refine nextTag.bind fun tag => ?_
  cases tag with
  | start name attributes => exact hstart name attributes
  | stop name => exact hstop name
  | finish => exact hfinish

/-- A loop over children pays for each of them with the start of its element. -/
theorem foldTags {body : Name → List Attribute → σ → EStateM ReadError τ σ}
    (hbody : ∀ name attributes a, Frugal (body name attributes a)) (rounds : Nat) (a : σ) :
    Frugal (FeatureMarkup.foldTags (Tape.run Cursor.nextTag) body rounds a) := by
  induction rounds generalizing a with
  | zero => exact pure _
  | succ rounds ih =>
    exact nextTag_bind (fun name attributes => ((hbody name attributes a).frame 1).bind ih)
      (fun _ => pure _) (pure _)

theorem foldChildren {body : Name → List Attribute → σ → CursorM σ}
    (hbody : ∀ name attributes a, Frugal (body name attributes a)) (a : σ) :
    Frugal (Cursor.foldChildren body a) := by
  refine get fun c => ?_
  rw [← run_cursor Cursor.nextTag]
  exact foldTags hbody _ a

end Affords

namespace Cursor

theorem frugal_elementText : Frugal elementText := by
  have hloop (rounds : Nat) (text : String) : Frugal (textWithin rounds text) := by
    induction rounds generalizing text with
    | zero => exact .failMarkup _
    | succ rounds ih =>
      refine .advance_bind (.failMarkup _) fun event _ => ?_
      cases event with
      | characters more => exact (ih _).mono (Nat.le_succ 1) fun _ => Nat.le_refl _
      | endElement => exact .pure _
      | startElement | endDocument | startDocument => exact .failMarkup _
  refine .get fun c => ?_
  split
  · exact .get fun _ => hloop _ _
  · exact .failMarkup _

theorem frugal_elementNumber : Frugal elementNumber := by
  refine frugal_elementText.bind_idle fun text => ?_
  split
  · exact .pure _
  · exact .fail _

theorem frugal_skipElement : Frugal skipElement := by
  have hloop (rounds depth : Nat) : Frugal (skipWithin rounds depth) := by
    induction rounds generalizing depth with
    | zero =>
      cases depth with
      | zero => exact .pure _
      | succ depth => exact .failMarkup _
    | succ rounds ih =>
      have hrest (depth : Nat) := (ih depth).mono (Nat.le_succ 1) fun _ => Nat.le_refl _
      cases depth with
      | zero => exact .pure _
      | succ depth =>
        refine .advance_bind (.failMarkup _) fun event _ => ?_
        cases event with
        | startElement | endElement | characters | startDocument => exact hrest _
        | endDocument => exact .failMarkup _
  refine .get fun c => ?_
  split
  · exact .get fun _ => hloop _ _
  · exact .failMarkup _

/-- A child has two to live on: one for itself and one for what comes behind it. -/
theorem frugal_captureElement : Frugal captureElement := by
  have hloop (rounds : Nat) (nodes : List MarkupNode) : Frugal (nodesWithin rounds nodes) := by
    induction rounds generalizing nodes with
    | zero => exact .failMarkup _
    | succ rounds ih =>
      have hrest (nodes : List MarkupNode) := (ih nodes).mono (Nat.le_succ 1) fun _ => Nat.le_refl _
      refine .advance_bind (.failMarkup _) fun event _ => ?_
      cases event with
      | startElement => exact ((ih _).frame 1).bind fun _ => ih _
      | characters => exact .ite (hrest _) (hrest _)
      | endElement => exact .pure _
      | endDocument | startDocument => exact .failMarkup _
  refine .get fun c => ?_
  split
  · exact .get fun _ => (hloop _ _).bind_idle fun _ => .pure _
  · exact .failMarkup _

end Cursor

/-- A reading that comes back after finitely many steps with the cursor: no fewer than the events
that it takes, and no more than twice as many as there are, and one. -/
def Returns (m : EStateM ReadError τ α) : Prop :=
  ∀ s, ∃ n, Calls m s n ∧ events s ≤ events (behind (m s)) + n ∧ n ≤ 2 * events s + 1

theorem Affords.returns {m : EStateM ReadError τ α} {leaves : α → Nat} (h : Affords 1 m leaves) :
    Returns m := by
  intro s
  obtain ⟨n, hcalls, hpaid⟩ := h s
  refine ⟨n, hcalls, hcalls.events_le, ?_⟩
  cases hread : m s with
  | ok a s' | error e s' =>
    rw [hread] at hpaid
    dsimp only at hpaid
    omega

end FeatureMarkup

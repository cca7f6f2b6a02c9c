import FeatureMarkup.Proofs.Cursor.Tape
import FeatureMarkup.Proofs.Markup.Told

/-! Runs that differ only in how their readings are cut.

Two states are alike when the cursors stand on the same event and the same is told of what they
have left, however many readings that takes. A reading that is run from both comes to states
that are alike again, or fails on both sides with an error that is the same apart from places
and from the wording of what is wrong with the markup. The two runs are not in step, so loops
and levels of nesting are allowed different numbers of rounds: `ReadsAlike` bounds what is left
on either side, and a limit that is high enough does not show. -/
namespace FeatureMarkup

open Xml (Attribute Content Reading)
open Tape

/-! ### Errors -/

/-- A cause without the words for what is wrong with markup. -/
def Cause.unworded : Cause → Cause
  | .markup _ => .markup (.described "")
  | cause => cause

/-- An error apart from the places it names and from the words for what is wrong with
markup. -/
def ReadError.unplaced : ReadError → ReadError
  | .located cause _ => .located cause.unworded .start
  | .inProperty property _ source => .inProperty property .start source.unplaced
  | error => error

/-! ### States and results -/

variable {τ : Type} [Tape τ] {α β σ : Type} {limit limit' : Nat}

/-- States on the same event that are told the same of what is left. -/
structure Alike (s s' : τ) : Prop where
  rest : put s (cursor s') = s'
  event : event s' = Tape.event s
  told : told (left s') = FeatureMarkup.told (left s)

/-- What two runs come to: the same value in states that are alike, with no more left than
before; or the same error. -/
def Agrees (s s' : τ) : EStateM.Result ReadError τ α → EStateM.Result ReadError τ α → Prop
  | .ok a s₁, .ok a' s₁' => a = a' ∧ Alike s₁ s₁' ∧ (left s₁).length ≤ (left s).length ∧
    (left s₁').length ≤ (left s').length
  | .error e _, .error e' _ => e.unplaced = e'.unplaced
  | _, _ => False

/-- Readings that agree from states that are alike, with fewer readings left on either side
than a limit. -/
def ReadsAlike (limit limit' : Nat) (m m' : EStateM ReadError τ α) : Prop :=
  ∀ ⦃s s'⦄, Alike s s' → (left s).length < limit → (left s').length < limit' →
    Agrees s s' (m s) (m' s')

theorem Agrees.bind {s s' : τ} {m m' : EStateM ReadError τ α} {f f' : α → EStateM ReadError τ β}
    (hm : Agrees s s' (m s) (m' s'))
    (hf : ∀ a s₁ s₁', m s = .ok a s₁ → m' s' = .ok a s₁' → Alike s₁ s₁' →
      (left s₁).length ≤ (left s).length → (left s₁').length ≤ (left s').length →
      Agrees s₁ s₁' (f a s₁) (f' a s₁')) : Agrees s s' ((m >>= f) s) ((m' >>= f') s') := by
  show Agrees s s' (EStateM.bind m f s) (EStateM.bind m' f' s')
  unfold EStateM.bind
  cases hs : m s with
  | error e s₁ =>
    cases hs' : m' s' with
    | error e' s₁' =>
      rw [hs, hs'] at hm
      exact hm
    | ok a s₁' =>
      rw [hs, hs'] at hm
      exact hm.elim
  | ok a s₁ =>
    cases hs' : m' s' with
    | error e' s₁' =>
      rw [hs, hs'] at hm
      exact hm.elim
    | ok a' s₁' =>
      rw [hs, hs'] at hm
      obtain ⟨rfl, halike, hle, hle'⟩ := hm
      have hrest := hf a s₁ s₁' hs hs' halike hle hle'
      dsimp only
      revert hrest
      cases f a s₁ <;> cases f' a s₁' <;> simp only [Agrees, imp_self]
      rintro ⟨ha, halike', hless, hless'⟩
      exact ⟨ha, halike', Nat.le_trans hless hle, Nat.le_trans hless' hle'⟩

namespace ReadsAlike

theorem mono {m m' : EStateM ReadError τ α} {less less' : Nat} (h : ReadsAlike limit limit' m m')
    (hle : less ≤ limit) (hle' : less' ≤ limit') : ReadsAlike less less' m m' :=
  fun _ _ halike hs hs' => h halike (Nat.lt_of_lt_of_le hs hle) (Nat.lt_of_lt_of_le hs' hle')

theorem pure (a : α) : ReadsAlike limit limit' (Pure.pure a : EStateM ReadError τ α) (Pure.pure a) :=
  fun _ _ halike _ _ => ⟨rfl, halike, Nat.le_refl _, Nat.le_refl _⟩

/-- What comes second has to do only with what the first can yield. -/
theorem bind_of_ok {m m' : EStateM ReadError τ α} {f f' : α → EStateM ReadError τ β}
    (hm : ReadsAlike limit limit' m m')
    (hf : ∀ a s s₁, m s = .ok a s₁ → ReadsAlike limit limit' (f a) (f' a)) :
    ReadsAlike limit limit' (m >>= f) (m' >>= f') := by
  intro s s' halike hs hs'
  refine (hm halike hs hs').bind fun a s₁ s₁' hok _ halike₁ hle hle' => ?_
  exact hf a s s₁ hok halike₁ (Nat.lt_of_le_of_lt hle hs) (Nat.lt_of_le_of_lt hle' hs')

theorem bind {m m' : EStateM ReadError τ α} {f f' : α → EStateM ReadError τ β}
    (hm : ReadsAlike limit limit' m m') (hf : ∀ a, ReadsAlike limit limit' (f a) (f' a)) :
    ReadsAlike limit limit' (m >>= f) (m' >>= f') :=
  hm.bind_of_ok fun a _ _ _ => hf a

theorem map {m m' : EStateM ReadError τ α} (hm : ReadsAlike limit limit' m m') (f : α → β) :
    ReadsAlike limit limit' (f <$> m) (f <$> m') := by
  rw [map_eq_pure_bind, map_eq_pure_bind]
  exact hm.bind fun a => .pure _

/-- What depends on the state is told from any two that are alike. -/
theorem get {f f' : τ → EStateM ReadError τ α}
    (hf : ∀ s s', Alike s s' → ReadsAlike limit limit' (f s) (f' s')) :
    ReadsAlike limit limit' (MonadState.get >>= f) (MonadState.get >>= f') := by
  intro s s' halike hs hs'
  rw [get_bind, get_bind]
  exact hf s s' halike halike hs hs'

theorem ite {p : Prop} [Decidable p] {m₁ m₁' m₂ m₂' : EStateM ReadError τ α}
    (h₁ : ReadsAlike limit limit' m₁ m₁') (h₂ : ReadsAlike limit limit' m₂ m₂') :
    ReadsAlike limit limit' (if p then m₁ else m₂) (if p then m₁' else m₂') := by
  split
  · exact h₁
  · exact h₂

theorem throw {e e' : ReadError} (h : e.unplaced = e'.unplaced) :
    ReadsAlike limit limit' (throw e : EStateM ReadError τ α) (MonadExcept.throw e') :=
  fun _ _ _ _ _ => h

theorem inProperty {m m' : EStateM ReadError τ α} (hm : ReadsAlike limit limit' m m')
    (property : Name) (position position' : Position) :
    ReadsAlike limit limit' (FeatureMarkup.inProperty property position m)
      (FeatureMarkup.inProperty property position' m') := by
  intro s s' halike hs hs'
  have h := hm halike hs hs'
  unfold FeatureMarkup.inProperty
  revert h
  cases m s <;> cases m' s' <;> simp only [Agrees, imp_self, ReadError.unplaced]
  intro h
  rw [h]

theorem mapM {f f' : α → EStateM ReadError τ β} (hf : ∀ a, ReadsAlike limit limit' (f a) (f' a))
    (as : List α) : ReadsAlike limit limit' (as.mapM f) (as.mapM f') := by
  induction as with
  | nil => exact .pure _
  | cons a as ih =>
    rw [List.mapM_cons, List.mapM_cons]
    exact (hf a).bind fun b => ih.bind fun bs => .pure _

theorem run {m m' : CursorM α} (hm : ReadsAlike limit limit' m m') :
    ReadsAlike limit limit' (Tape.run m : EStateM ReadError τ α) (Tape.run m') := by
  intro s s' halike hs hs'
  have hcursor : Alike (cursor s) (cursor s') := ⟨rfl, halike.event, halike.told⟩
  have h := hm hcursor hs hs'
  unfold Tape.run
  revert h
  cases m (cursor s) <;> cases m' (cursor s') <;> simp only [Agrees, imp_self]
  rintro ⟨ha, hafter, hle, hle'⟩
  refine ⟨ha, ⟨?_, ?_, ?_⟩, ?_, ?_⟩
  · rw [cursor_put, ← halike.rest, put_put, put_put]
  · simpa [Tape.event] using hafter.event
  · simpa [Tape.left] using hafter.told
  · simpa [Tape.left] using hle
  · simpa [Tape.left] using hle'

theorem fail (cause : Cause) : ReadsAlike limit limit' (Cursor.fail cause : CursorM α) (Cursor.fail cause) :=
  .get fun _ _ _ => .throw rfl

theorem failMarkup (problem problem' : MarkupProblem) : ReadsAlike limit limit'
    (Cursor.failMarkup problem : CursorM α) (Cursor.failMarkup problem') :=
  .get fun _ _ _ => .throw rfl

/-- A condition that must not hold is looked at before going on. -/
theorem guard {p : Prop} [Decidable p] {cause : Cause} {m m' : CursorM α}
    (hm : ReadsAlike limit limit' m m') :
    ReadsAlike limit limit' (if p then Cursor.fail cause >>= fun _ : Unit => m else m)
      (if p then Cursor.fail cause >>= fun _ : Unit => m' else m') :=
  .ite (.bind (.fail cause) fun _ => hm) hm

/-- What is reported may differ. -/
theorem notes (entries entries' : List Note) :
    ReadsAlike limit limit' (Cursor.notes entries) (Cursor.notes entries') :=
  fun _ _ halike _ _ =>
    ⟨rfl, ⟨rfl, halike.event, halike.told⟩, Nat.le_refl _, Nat.le_refl _⟩

theorem note (level : Level) (text text' : String) :
    ReadsAlike limit limit' (Cursor.note level text) (Cursor.note level text') :=
  notes _ _

end ReadsAlike

/-! ### Readings told by what is left -/

namespace Cursor

/-- What comes of a reading from a cursor: a value, with the event that the cursor comes to and
what is told of the rest; or that something is wrong with the markup. -/
def Yields (c : Cursor) (result : EStateM.Result ReadError Cursor α) :
    Option (α × Event × Told) → Prop
  | some (a, event, rest) => ∃ c', result = .ok a c' ∧ c'.event = event ∧ told c'.readings = rest ∧
    c'.readings.length ≤ c.readings.length
  | none => ∃ problem position c', result = .error (.located (.markup problem) position) c'

theorem Yields.mono {c d : Cursor} {result : EStateM.Result ReadError Cursor α}
    {outcome : Option (α × Event × Told)} (h : d.Yields result outcome)
    (hle : d.readings.length ≤ c.readings.length) : c.Yields result outcome := by
  cases outcome with
  | none => exact h
  | some outcome =>
    obtain ⟨c', hok, hevent, htold, hless⟩ := h
    exact ⟨c', hok, hevent, htold, Nat.le_trans hless hle⟩

theorem yields_failMarkup {c d : Cursor} (problem : MarkupProblem) :
    c.Yields (failMarkup problem d : EStateM.Result ReadError Cursor α) none :=
  ⟨problem, d.position, d, rfl⟩

/-- A reading is told by the event it begins at and by what is told of the rest. -/
def ToldBy (m : CursorM α) (outcome : Event → Told → Option (α × Event × Told)) : Prop :=
  ∀ c : Cursor, c.Yields (m c) (outcome c.event (told c.readings))

section Step
variable {c : Cursor} {offset : Nat} {rest : List Reading} {f : Event → CursorM α}

theorem advance_bind_fault_yields {fault : Xml.Fault} (hnot : ¬c.AtEnd)
    (hr : c.readings = ⟨offset, .error fault⟩ :: rest) : c.Yields ((advance >>= f) c) none := by
  show c.Yields (EStateM.bind advance f c) none
  unfold EStateM.bind
  rw [advance_of_readings hnot hr]
  exact ⟨_, _, _, rfl⟩

/-- Behind the last reading a loop goes on from the end of the document, with nothing left. -/
theorem advance_bind_done (hnot : ¬c.AtEnd) (hr : c.readings = []) :
    ∃ c', (advance >>= f) c = f .endDocument c' ∧ c'.AtEnd ∧ c'.readings = [] := by
  obtain ⟨c', hadvance, hend, hleft⟩ := advance_nil hnot hr
  refine ⟨c', ?_, hend, hleft⟩
  show EStateM.bind advance f c = _
  unfold EStateM.bind
  rw [hadvance]

end Step

theorem ne_endDocument_of_event? {content : Content} {event : Event}
    (h : content.event? = some event) : event ≠ .endDocument := by
  rintro rfl
  cases content <;> cases h

/-- What comes of a loop that takes a step in each round, from what comes of one round behind
an event if the later rounds are known. -/
theorem yields_of_rounds (loop : Nat → σ → CursorM α)
    (outcome : σ → Told → Option (α × Event × Told)) {f : Nat → σ → Event → CursorM α}
    (hloop : ∀ rounds a, loop (rounds + 1) a = advance >>= f rounds a)
    (hdone : ∀ (c : Cursor) rounds a, c.AtEnd → c.readings = [] →
      c.Yields (f rounds a .endDocument c) (outcome a (.finish "")))
    (hfault : ∀ a, outcome a (.fault "") = none)
    (hevent : ∀ (c : Cursor) rounds a offset content, Content.event? content = some c.event →
      (∀ b, c.Yields (loop rounds b c) (outcome b (told c.readings))) →
      c.Yields (f rounds a c.event c) (outcome a (told (⟨offset, .ok content⟩ :: c.readings))))
    {rounds : Nat} {c : Cursor} (a : σ) (hnot : ¬c.AtEnd) (hc : c.readings.length < rounds) :
    c.Yields (loop rounds a c) (outcome a (told c.readings)) := by
  obtain _ | rounds := rounds
  · cases hc
  induction c using along generalizing rounds a with
  | nothing c h =>
    have hr := h.resolve_right hnot
    obtain ⟨c', hstep, hend, hleft⟩ := advance_bind_done (f := f rounds a) hnot hr
    rw [hloop, hstep, hr]
    exact (hdone c' rounds a hend hleft).mono (by simp [hleft])
  | fault c offset fault rest _ hr =>
    rw [hloop, hr, told, hfault]
    exact advance_bind_fault_yields hnot hr
  | ignored c offset rest _ hr ih =>
    rw [hr, List.length_cons] at hc
    have h := ih a (not_atEnd_ignoring _ _ _ hnot) rounds (Nat.lt_of_succ_lt hc)
    rw [hloop] at h ⊢
    rw [advance_bind_ignored hnot hr, hr]
    exact h.mono (by simp [hr])
  | event c offset content e rest _ hr he ih =>
    rw [hr, List.length_cons] at hc
    obtain _ | rounds := rounds
    · omega
    rw [hloop, advance_bind_event hnot hr he, hr]
    refine (hevent (c.moved offset e rest) (rounds + 1) a offset content he fun b => ?_).mono
      (by simp [hr])
    exact ih b (not_atEnd_moved _ _ _ _ (ne_endDocument_of_event? he)) rounds
      (Nat.lt_of_succ_lt_succ hc)

theorem nextTagWithin_yields {rounds : Nat} {c : Cursor} (hnot : ¬c.AtEnd)
    (hc : c.readings.length < rounds) : c.Yields (nextTagWithin rounds c)
      ((told c.readings).tag?.map fun (tag, rest) => (tag, tag.event, rest)) := by
  refine yields_of_rounds (fun rounds (_ : Unit) => nextTagWithin rounds)
    (fun _ t => t.tag?.map fun (tag, rest) => (tag, tag.event, rest)) (fun _ _ => rfl)
    (fun c _ _ hend hr => ?_) (fun _ => rfl) (fun c rounds _ offset content he ih => ?_) () hnot hc
  · exact ⟨c, rfl, hend, by rw [hr]; rfl, Nat.le_refl _⟩
  · cases content with
    | ignored => cases he
    | start name attributes | stop name =>
      rw [← Option.some.inj he]
      exact ⟨c, rfl, (Option.some.inj he).symm, rfl, Nat.le_refl _⟩
    | text t =>
      rw [← Option.some.inj he, told, Told.tag?_after]
      cases hblank : Text.allBlank t with
      | true => simpa only [hblank, if_true] using ih ()
      | false =>
        simp only [hblank, Bool.false_eq_true, if_false]
        exact yields_failMarkup _

theorem textWithin_yields {rounds : Nat} {c : Cursor} (found : String) (hnot : ¬c.AtEnd)
    (hc : c.readings.length < rounds) : c.Yields (textWithin rounds found c)
      ((told c.readings).text?.map fun (text, name, rest) =>
        (Text.trim (found ++ text), .endElement name, rest)) := by
  refine yields_of_rounds textWithin
    (fun found t => t.text?.map fun (text, name, rest) =>
      (Text.trim (found ++ text), .endElement name, rest)) (fun _ _ => rfl)
    (fun c _ _ _ _ => yields_failMarkup _) (fun _ => rfl)
    (fun c rounds found offset content he ih => ?_) found hnot hc
  cases content with
  | ignored => cases he
  | start name attributes =>
    rw [← Option.some.inj he]
    exact yields_failMarkup _
  | stop name =>
    rw [← Option.some.inj he]
    exact ⟨c, by simp, (Option.some.inj he).symm, rfl, Nat.le_refl _⟩
  | text t =>
    rw [← Option.some.inj he, told, Told.text?_after, Option.map_map]
    simpa only [Function.comp_def, String.append_assoc] using ih (found ++ t)

theorem skipWithin_yields {rounds : Nat} {c : Cursor} (depth : Nat) (hnot : ¬c.AtEnd)
    (hc : c.readings.length < rounds) : c.Yields (skipWithin rounds (depth + 1) c)
      (((told c.readings).past? depth).map fun (name, rest) => ((), .endElement name, rest)) := by
  refine yields_of_rounds (fun rounds depth => skipWithin rounds (depth + 1))
    (fun depth t => (t.past? depth).map fun (name, rest) => ((), .endElement name, rest))
    (fun _ _ => rfl) (fun c _ depth _ _ => ?_) (fun depth => ?_)
    (fun c rounds depth offset content he ih => ?_) depth hnot hc
  · cases depth <;> exact yields_failMarkup _
  · cases depth <;> rfl
  · cases content with
    | ignored => cases he
    | start name attributes =>
      rw [← Option.some.inj he]
      cases depth <;> exact ih _
    | stop name =>
      rw [← Option.some.inj he]
      cases depth with
      | zero =>
        refine ⟨c, ?_, (Option.some.inj he).symm, rfl, Nat.le_refl _⟩
        cases rounds <;> rfl
      | succ depth => exact ih depth
    | text t =>
      rw [← Option.some.inj he, told, Told.past?_after]
      exact ih depth

/-! ### The moves of a cursor -/

theorem toldBy_nextTag : ToldBy nextTag fun event t =>
    if event = .endDocument then some (.finish, .endDocument, t)
    else t.tag?.map fun (tag, rest) => (tag, tag.event, rest) := by
  intro c
  show c.Yields (nextTagWithin (c.remaining + 1) c) (if c.event = .endDocument then _ else _)
  by_cases hend : c.event = .endDocument
  · rw [if_pos hend, nextTagWithin]
    exact ⟨c, bind_eq_ok.2 ⟨_, c, advance_atEnd hend, rfl⟩, hend, rfl, Nat.le_refl _⟩
  · rw [if_neg hend]
    exact nextTagWithin_yields hend c.length_lt_rounds

theorem toldBy_elementText : ToldBy elementText fun event t =>
    match event with
    | .startElement _ _ => t.text?.map fun (text, name, rest) =>
      (Text.trim text, .endElement name, rest)
    | _ => none := by
  intro c
  unfold elementText
  rw [get_bind]
  cases hevent : c.event with
  | startElement name attributes =>
    have h := textWithin_yields "" (not_atEnd_of_start hevent) c.length_lt_rounds
    simp only [String.empty_append] at h
    exact h
  | _ => exact yields_failMarkup _

theorem toldBy_skipElement : ToldBy skipElement fun event t =>
    match event with
    | .startElement _ _ => (t.past? 0).map fun (name, rest) => ((), .endElement name, rest)
    | _ => none := by
  intro c
  unfold skipElement
  rw [get_bind]
  cases hevent : c.event with
  | startElement name attributes =>
    exact skipWithin_yields 0 (not_atEnd_of_start hevent) c.length_lt_rounds
  | _ => exact yields_failMarkup _

theorem ToldBy.readsAlike {m : CursorM α} {outcome : Event → Told → Option (α × Event × Told)}
    (h : ToldBy m outcome) : ReadsAlike limit limit' m m := by
  intro c c' halike _ _
  have hc := h c
  have hc' := h c'
  rw [show c'.event = c.event from halike.event,
    show told c'.readings = told c.readings from halike.told] at hc'
  cases hspec : outcome c.event (told c.readings) with
  | none =>
    rw [hspec] at hc hc'
    obtain ⟨problem, position, d, hfail⟩ := hc
    obtain ⟨problem', position', d', hfail'⟩ := hc'
    rw [hfail, hfail']
    exact rfl
  | some spec =>
    rw [hspec] at hc hc'
    obtain ⟨d, hok, hevent, htold, hle⟩ := hc
    obtain ⟨d', hok', hevent', htold', hle'⟩ := hc'
    rw [hok, hok']
    exact ⟨rfl, ⟨rfl, hevent'.trans hevent.symm, htold'.trans htold.symm⟩, hle, hle'⟩

theorem readsAlike_nextTag : ReadsAlike limit limit' nextTag nextTag := toldBy_nextTag.readsAlike

theorem readsAlike_elementText : ReadsAlike limit limit' elementText elementText :=
  toldBy_elementText.readsAlike

theorem readsAlike_skipElement : ReadsAlike limit limit' skipElement skipElement :=
  toldBy_skipElement.readsAlike

end Cursor

/-! ### Loops -/

/-- Loops whose bodies agree do so, and with one reading more left, if each is allowed more
rounds than it has readings left. -/
theorem Agrees.foldTags {body body' : Name → List Attribute → σ → EStateM ReadError τ σ}
    (hbody : ∀ name attributes a,
      ReadsAlike limit limit' (body name attributes a) (body' name attributes a))
    {rounds rounds' : Nat} (a : σ) {s s' : τ} (halike : Alike s s')
    (hs : (left s).length < limit + 1) (hs' : (left s').length < limit' + 1)
    (hrounds : (left s).length < rounds) (hrounds' : (left s').length < rounds') :
    Agrees s s' (FeatureMarkup.foldTags (Tape.run Cursor.nextTag) body rounds a s)
      (FeatureMarkup.foldTags (Tape.run Cursor.nextTag) body' rounds' a s') := by
  induction rounds generalizing rounds' a s s' with
  | zero => cases hrounds
  | succ rounds ih =>
    obtain _ | rounds' := rounds'
    · cases hrounds'
    have hnext : ReadsAlike (limit + 1) (limit' + 1) (Tape.run Cursor.nextTag : EStateM ReadError τ Tag)
        (Tape.run Cursor.nextTag) := .run Cursor.readsAlike_nextTag
    refine (hnext halike hs hs').bind fun tag s₁ s₁' hok hok' halike₁ _ _ => ?_
    cases tag with
    | stop | finish => exact ⟨rfl, halike₁, Nat.le_refl _, Nat.le_refl _⟩
    | start name attributes =>
      have hlt := length_lt_of_nextTag hok
      have hlt' := length_lt_of_nextTag hok'
      refine (hbody name attributes a halike₁ (by omega) (by omega)).bind
        fun a₁ s₂ s₂' _ _ halike₂ hle hle' => ?_
      exact ih a₁ halike₂ (by omega) (by omega) (by omega) (by omega)

theorem ReadsAlike.foldChildren {body body' : Name → List Attribute → σ → CursorM σ}
    (hbody : ∀ name attributes a,
      ReadsAlike limit limit' (body name attributes a) (body' name attributes a)) (a : σ) :
    ReadsAlike (limit + 1) (limit' + 1) (Cursor.foldChildren body a) (Cursor.foldChildren body' a) := by
  intro c c' halike hc hc'
  show Agrees c c' (FeatureMarkup.foldTags Cursor.nextTag body (c.remaining + 1) a c)
    (FeatureMarkup.foldTags Cursor.nextTag body' (c'.remaining + 1) a c')
  rw [← run_cursor Cursor.nextTag]
  exact .foldTags hbody a halike hc hc' c.length_lt_rounds c'.length_lt_rounds

/-- A loop whose body agrees under a limit agrees under it. -/
theorem ReadsAlike.children {body body' : Name → List Attribute → σ → CursorM σ}
    (hbody : ∀ name attributes a,
      ReadsAlike limit limit' (body name attributes a) (body' name attributes a)) (a : σ) :
    ReadsAlike limit limit' (Cursor.foldChildren body a) (Cursor.foldChildren body' a) :=
  (foldChildren hbody a).mono (Nat.le_succ _) (Nat.le_succ _)

/-- Levels of nesting do not show where there are more of them than readings left. -/
theorem ReadsAlike.enough {m : Nat → EStateM ReadError τ α}
    (hm : ∀ depth depth', ReadsAlike depth depth' (m depth) (m depth')) :
    ReadsAlike limit limit' (MonadState.get >>= fun s : τ => m ((cursor s).remaining + 1))
      (MonadState.get >>= fun s : τ => m ((cursor s).remaining + 1)) := by
  intro s s' halike _ _
  rw [get_bind, get_bind]
  exact hm _ _ halike (Cursor.length_lt_rounds _) (Cursor.length_lt_rounds _)

end FeatureMarkup

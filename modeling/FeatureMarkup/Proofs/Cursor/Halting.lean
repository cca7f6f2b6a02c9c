import Mathlib.Logic.Function.Iterate
import FeatureMarkup.Proofs.Cursor.Tape

/-! Loops and recursions that come to an end.

A loop is allowed a number of rounds and a recursion a depth, and nothing must depend on that
number. What one round does is written down apart, as a function of what is done after it. If
that shows only where fewer events are left, the round `Shrinks`: it takes an event before the
end of the document, or it is the last. A loop whose rounds shrink `Halts`: it is the one that
its rounds describe without any limit, and it is over after one round more than there are events
left, whatever would be done then. -/
namespace FeatureMarkup

open Xml (Attribute Reading)
open Tape

variable {τ : Type} [Tape τ] {α β ι σ : Type}

/-- How many events are left before the end of the document. -/
def Tape.events (s : τ) : Nat := (left s).countP Reading.isEvent

theorem Tape.events_lt_rounds (s : τ) : events s < (cursor s).remaining + 1 :=
  Nat.lt_of_le_of_lt List.countP_le_length (Cursor.length_lt_rounds _)

/-- The start of an element is an event. -/
theorem Tape.events_lt_of_nextTag {s s₁ : τ} {name : Name} {attributes : List Attribute}
    (h : run Cursor.nextTag s = .ok (.start name attributes) s₁) : events s₁ < events s := by
  obtain ⟨c, hc, rfl⟩ := run_eq_ok.1 h
  obtain ⟨-, before, -, hreach⟩ := Cursor.nextTag_eq_start_iff.1 hc
  simpa [events, left] using hreach.events_lt

/-- A step takes an event, or it comes to the end of the document. -/
theorem Cursor.events_lt_of_advance {c c' : Cursor} {event : Event}
    (h : advance c = .ok event c') (hevent : event ≠ .endDocument) : events c' < events c := by
  rcases advance_eq_ok h with ⟨hend, -⟩ | ⟨-, before, content, offset, rest, -, hcontent, hr, rfl⟩
  · exact absurd hend hevent
  · have hcount : Reading.isEvent ⟨offset, .ok content⟩ = true := by
      cases content with
      | ignored => cases hcontent
      | start | stop | text => rfl
    simp only [events, left, cursor_self, moved_readings, hr, List.countP_append,
      List.countP_cons_of_pos hcount]
    omega

/-! ### Where few events are left -/

/-- Two readings that do the same wherever fewer events than a limit are left. -/
def AlikeBelow (limit : Nat) (m m' : EStateM ReadError τ α) : Prop :=
  ∀ ⦃s⦄, events s < limit → m s = m' s

namespace AlikeBelow
variable {limit : Nat}

theorem refl (m : EStateM ReadError τ α) : AlikeBelow limit m m := fun _ _ => rfl

theorem zero (m m' : EStateM ReadError τ α) : AlikeBelow 0 m m' := fun _ h => absurd h (Nat.not_lt_zero _)

theorem mono {limit' : Nat} {m m' : EStateM ReadError τ α} (h : AlikeBelow limit m m')
    (hle : limit' ≤ limit) : AlikeBelow limit' m m' :=
  fun _ hs => h (Nat.lt_of_lt_of_le hs hle)

theorem bind {m m' : EStateM ReadError τ α} {f f' : α → EStateM ReadError τ β}
    (hm : AlikeBelow limit m m') (hforward : Forward m') (hf : ∀ a, AlikeBelow limit (f a) (f' a)) :
    AlikeBelow limit (m >>= f) (m' >>= f') := by
  intro s hs
  show EStateM.bind m f s = EStateM.bind m' f' s
  unfold EStateM.bind
  rw [hm hs]
  cases hread : m' s with
  | ok a s₁ => exact hf a (Nat.lt_of_le_of_lt (hforward hread).events_le hs)
  | error e s₁ => rfl

/-- What comes last may be the same in both. -/
theorem bind_same {m m' : EStateM ReadError τ α} (hm : AlikeBelow limit m m')
    (f : α → EStateM ReadError τ β) : AlikeBelow limit (m >>= f) (m' >>= f) := by
  intro s hs
  show EStateM.bind m f s = EStateM.bind m' f s
  unfold EStateM.bind
  rw [hm hs]

/-- What comes first may be the same in both. -/
theorem same_bind {m : EStateM ReadError τ α} {f f' : α → EStateM ReadError τ β} (hforward : Forward m)
    (hf : ∀ a, AlikeBelow limit (f a) (f' a)) : AlikeBelow limit (m >>= f) (m >>= f') :=
  bind (refl m) hforward hf

theorem map {m m' : EStateM ReadError τ α} (hm : AlikeBelow limit m m') (f : α → β) :
    AlikeBelow limit (f <$> m) (f <$> m') := by
  rw [map_eq_pure_bind, map_eq_pure_bind]
  exact hm.bind_same _

theorem get {f f' : τ → EStateM ReadError τ α} (hf : ∀ s, AlikeBelow limit (f s) (f' s)) :
    AlikeBelow limit (MonadState.get >>= f) (MonadState.get >>= f') :=
  fun s hs => hf s hs

theorem ite {p : Prop} [Decidable p] {m m' n n' : EStateM ReadError τ α} (h : AlikeBelow limit m m')
    (h' : AlikeBelow limit n n') :
    AlikeBelow limit (if p then m else n) (if p then m' else n') := by
  split
  · exact h
  · exact h'

/-- Behind a step that is not the last, fewer events are left. -/
theorem advance_bind {f f' : Event → CursorM α} (hend : f .endDocument = f' .endDocument)
    (hf : ∀ event, AlikeBelow limit (f event) (f' event)) :
    AlikeBelow (limit + 1) (Cursor.advance >>= f) (Cursor.advance >>= f') := by
  intro c hc
  show EStateM.bind Cursor.advance f c = EStateM.bind Cursor.advance f' c
  unfold EStateM.bind
  cases hread : Cursor.advance c with
  | error e c₁ => rfl
  | ok event c₁ =>
    by_cases hevent : event = .endDocument
    · subst hevent
      exact congrFun hend c₁
    · have hless := Cursor.events_lt_of_advance hread hevent
      exact hf event (by omega)

/-- Behind the start of an element, fewer events are left. -/
theorem nextTag_bind {f f' : Tag → EStateM ReadError τ α}
    (hstop : ∀ name, f (.stop name) = f' (.stop name)) (hfinish : f .finish = f' .finish)
    (hstart : ∀ name attributes, AlikeBelow limit (f (.start name attributes)) (f' (.start name attributes))) :
    AlikeBelow (limit + 1) (Tape.run Cursor.nextTag >>= f) (Tape.run Cursor.nextTag >>= f') := by
  intro s hs
  show EStateM.bind (Tape.run Cursor.nextTag) f s = EStateM.bind (Tape.run Cursor.nextTag) f' s
  unfold EStateM.bind
  cases hread : (Tape.run Cursor.nextTag : EStateM ReadError τ Tag) s with
  | error e s₁ => rfl
  | ok tag s₁ =>
    cases tag with
    | start name attributes =>
      have hless := Tape.events_lt_of_nextTag hread
      exact hstart name attributes (by omega)
    | stop name => exact congrFun (hstop name) s₁
    | finish => exact congrFun hfinish s₁

/-- The bodies of two loops may differ where as many events are left as before the start of an
element. -/
theorem foldTags {body body' : Name → List Attribute → σ → EStateM ReadError τ σ}
    (hforward : ∀ name attributes a, Forward (body' name attributes a))
    (hbody : ∀ name attributes a, AlikeBelow limit (body name attributes a) (body' name attributes a))
    (rounds : Nat) (a : σ) :
    AlikeBelow (limit + 1) (FeatureMarkup.foldTags (Tape.run Cursor.nextTag) body rounds a)
      (FeatureMarkup.foldTags (Tape.run Cursor.nextTag) body' rounds a) := by
  induction rounds generalizing a with
  | zero => exact refl _
  | succ rounds ih =>
    refine nextTag_bind (fun _ => rfl) rfl fun name attributes => ?_
    exact bind (hbody name attributes a) (hforward name attributes a) fun a =>
      (ih a).mono (Nat.le_succ limit)

theorem foldChildren {body body' : Name → List Attribute → σ → CursorM σ}
    (hforward : ∀ name attributes a, Forward (body' name attributes a))
    (hbody : ∀ name attributes a, AlikeBelow limit (body name attributes a) (body' name attributes a))
    (a : σ) : AlikeBelow (limit + 1) (Cursor.foldChildren body a) (Cursor.foldChildren body' a) := by
  refine get fun c => ?_
  rw [← run_cursor Cursor.nextTag]
  exact foldTags hforward hbody _ a

end AlikeBelow

/-! ### Rounds -/

/-- What is done after a round shows only where fewer events are left than before it: two ways to go
on that differ nowhere below a limit, and of which one does not go back, make no difference to the
round one event above. -/
def Shrinks (round : (ι → EStateM ReadError τ α) → ι → EStateM ReadError τ α) : Prop :=
  ∀ ⦃limit rest rest'⦄, (∀ i, Forward (rest' i)) → (∀ i, AlikeBelow limit (rest i) (rest' i)) →
    ∀ i, AlikeBelow (limit + 1) (round rest i) (round rest' i)

/-- What is allowed as many rounds as there are readings left, and one more. -/
def Tape.enough (within : Nat → ι → EStateM ReadError τ α) (i : ι) : EStateM ReadError τ α := do
  within ((cursor (← get)).remaining + 1) i

/-- A loop or a recursion, in so many rounds at most, that ends of itself. -/
structure Halts (round : (ι → EStateM ReadError τ α) → ι → EStateM ReadError τ α)
    (within : Nat → ι → EStateM ReadError τ α) : Prop where
  /-- Each round is this one. -/
  rounds : ∀ n i, within (n + 1) i = round (within n) i
  /-- A round takes an event, or it is the last. -/
  shrinks : Shrinks round
  /-- As many rounds as are allowed are as good as no limit. -/
  unlimited : ∀ i, enough within i = round (enough within) i
  /-- After one round more than there are events left it is over, whatever would be done then. -/
  ends : ∀ other n i, AlikeBelow n (round^[n] other i) (enough within i)

namespace Halts
variable {round : (ι → EStateM ReadError τ α) → ι → EStateM ReadError τ α}
  {within : Nat → ι → EStateM ReadError τ α}

section Limits
variable (hrounds : ∀ n i, within (n + 1) i = round (within n) i) (hshrinks : Shrinks round)
  (hforward : ∀ n i, Forward (within n i))
include hrounds hshrinks hforward

/-- Two limits do not show where fewer events are left than either. -/
theorem alike_within (n m : Nat) (i : ι) : AlikeBelow (min n m) (within n i) (within m i) := by
  induction n generalizing m i with
  | zero => simpa using AlikeBelow.zero _ _
  | succ n ih =>
    cases m with
    | zero => simpa using AlikeBelow.zero _ _
    | succ m =>
      rw [hrounds, hrounds, Nat.add_min_add_right]
      exact hshrinks (hforward m) (ih m) i

theorem alike_enough (n : Nat) (i : ι) : AlikeBelow n (within n i) (enough within i) := by
  intro s hs
  have hbound := events_lt_rounds s
  exact alike_within hrounds hshrinks hforward n ((cursor s).remaining + 1) i (by omega)

omit hrounds hshrinks in
theorem forward_enough (i : ι) : Forward (enough within i) :=
  .get fun _ => hforward _ i

theorem of_shrinks : Halts round within := by
  have halike := alike_enough hrounds hshrinks hforward
  have hwhole := forward_enough hforward
  have hunlimited (i : ι) : enough within i = round (enough within) i := by
    funext s
    show within ((cursor s).remaining + 1) i s = round (enough within) i s
    rw [hrounds]
    exact hshrinks hwhole (halike _) i (events_lt_rounds s)
  refine ⟨hrounds, hshrinks, hunlimited, fun other n => ?_⟩
  induction n with
  | zero => exact fun i => .zero _ _
  | succ n ih =>
    intro i
    rw [Function.iterate_succ_apply', hunlimited]
    exact hshrinks hwhole ih i

end Limits

end Halts

/-! ### Loops over events -/

namespace Cursor

/-- One round on the way to the next tag. -/
def tagRound (rest : Unit → CursorM Tag) (_ : Unit) : CursorM Tag := do
  match ← advance with
  | .startElement name attributes => return .start name attributes
  | .endElement name => return .stop name
  | .endDocument => return .finish
  | .startDocument => rest ()
  | .characters text => if Text.allBlank text then rest () else failMarkup (.strayText (Text.trim text))

/-- One round on the way through the text of an element. -/
def textRound (rest : String → CursorM String) (text : String) : CursorM String := do
  match ← advance with
  | .characters more => rest (text ++ more)
  | .endElement _ => return Text.trim text
  | .startElement _ _ => failMarkup .childInText
  | .endDocument | .startDocument => failMarkup .endOfDocument

/-- One round on the way out of so many open elements. -/
def skipRound (rest : Nat → CursorM Unit) : Nat → CursorM Unit
  | 0 => return
  | depth + 1 => do
    match ← advance with
    | .startElement _ _ => rest (depth + 2)
    | .endElement _ => rest depth
    | .endDocument => failMarkup .endOfDocument
    | .characters _ | .startDocument => rest (depth + 1)

/-- One round through the nodes of an element: a child is a recursion, and the loop goes on behind
it. -/
def nodeRound (rest : List MarkupNode → CursorM (List MarkupNode)) (nodes : List MarkupNode) :
    CursorM (List MarkupNode) := do
  match ← advance with
  | .startElement name attributes =>
    let children ← rest []
    rest (.element ⟨name, attributes, children⟩ :: nodes)
  | .characters text => if Text.allBlank text then rest nodes else rest (.text text :: nodes)
  | .endElement _ => return nodes.reverse
  | .endDocument | .startDocument => failMarkup .endOfDocument

/-! Each round takes a step first, and goes on only if that is not the end of the document. -/

theorem halts_nextTagWithin : Halts tagRound (fun rounds _ => nextTagWithin rounds) := by
  refine .of_shrinks (fun _ _ => rfl) (fun limit rest rest' _ hrest i => ?_) fun rounds _ => .nextTagWithin rounds
  refine .advance_bind rfl fun event => ?_
  cases event with
  | startDocument => exact hrest ()
  | characters text => exact .ite (hrest ()) (.refl _)
  | startElement | endElement | endDocument => exact .refl _

theorem halts_textWithin : Halts textRound textWithin := by
  refine .of_shrinks (fun _ _ => rfl) (fun limit rest rest' _ hrest text => ?_) .textWithin
  refine .advance_bind rfl fun event => ?_
  cases event with
  | characters more => exact hrest _
  | startElement | endElement | endDocument | startDocument => exact .refl _

theorem halts_skipWithin : Halts skipRound skipWithin := by
  refine .of_shrinks (fun rounds depth => ?_) (fun limit rest rest' _ hrest depth => ?_) .skipWithin
  · cases depth <;> rfl
  · cases depth with
    | zero => exact .refl _
    | succ depth =>
      refine .advance_bind rfl fun event => ?_
      cases event with
      | startElement | endElement | characters | startDocument => exact hrest _
      | endDocument => exact .refl _

theorem halts_nodesWithin : Halts nodeRound nodesWithin := by
  refine .of_shrinks (fun _ _ => rfl) (fun limit rest rest' hforward hrest nodes => ?_) .nodesWithin
  refine .advance_bind rfl fun event => ?_
  cases event with
  | startElement name attributes => exact .bind (hrest _) (hforward _) fun _ => hrest _
  | characters text => exact .ite (hrest _) (hrest _)
  | endElement | endDocument | startDocument => exact .refl _

end Cursor

/-! ### Loops over children -/

/-- One round of a loop over the elements that start one after another. -/
def childRound (next : EStateM ReadError τ Tag) (body : Name → List Attribute → σ → EStateM ReadError τ σ)
    (rest : σ → EStateM ReadError τ (Tag × σ)) (a : σ) : EStateM ReadError τ (Tag × σ) := do
  match ← next with
  | .start name attributes => rest (← body name attributes a)
  | tag => return (tag, a)

/-- A loop over children goes on only behind the start of an element, and what reads that element
does not go back. -/
theorem halts_foldTags {body : Name → List Attribute → σ → EStateM ReadError τ σ}
    (hbody : ∀ name attributes a, Forward (body name attributes a)) :
    Halts (childRound (Tape.run Cursor.nextTag) body) (foldTags (Tape.run Cursor.nextTag) body) := by
  refine .of_shrinks (fun _ _ => rfl) (fun limit rest rest' _ hrest a => ?_)
    fun rounds => .foldTags .nextTag hbody rounds
  exact .nextTag_bind (fun _ => rfl) rfl fun name attributes =>
    .same_bind (hbody name attributes a) hrest

/-- A loop over the children of an element that comes to an end, with what reads one of them. -/
abbrev Cursor.HaltsOver (body : Name → List Attribute → σ → CursorM σ) : Prop :=
  Halts (childRound nextTag body) (foldTags nextTag body)

theorem Cursor.haltsOver {body : Name → List Attribute → σ → CursorM σ}
    (hbody : ∀ name attributes a, Forward (body name attributes a)) : HaltsOver body := by
  have hhalts := halts_foldTags hbody
  rwa [run_cursor] at hhalts

end FeatureMarkup

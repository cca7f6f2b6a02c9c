import FeatureMarkup.Feature.Tree
import FeatureMarkup.Proofs.Cursor.Lockstep

/-! Readings put together from moves, reports and failures.

All that a cursor can do is to move, to report and to fail where it is. A reading that is put
together from these, and from nothing that looks at the log, is `Plain`. Two things are known of
it whatever it reads: an error has one of the causes that it can fail for and no wrapper around
it, and from a cursor with another log it does the same. -/
namespace FeatureMarkup

open Xml (Attribute)

/-- The cursor with nothing in its log. -/
def Cursor.silent (c : Cursor) : Cursor := { c with log := #[] }

/-- Two cursors apart from what has been reported at them. -/
def Cursor.SameButLog (c d : Cursor) : Prop := c.silent = d.silent

theorem Cursor.SameButLog.eq_with {c d : Cursor} (h : c.SameButLog d) : d = { c with log := d.log } := by
  cases c
  cases d
  cases h
  rfl

/-- A reading put together from moves of the cursor, reports and failures for some causes. It may
depend on where the cursor is, and not on what has been reported. -/
inductive Plain (P : Cause → Prop) : {α : Type} → CursorM α → Prop where
  | pure {α} (a : α) : Plain P (Pure.pure a)
  | bind {α β} {m : CursorM α} {f : α → CursorM β} : Plain P m → (∀ a, Plain P (f a)) → Plain P (m >>= f)
  | get {α} {f : Cursor → CursorM α} : (∀ c, Plain P (f c)) → (∀ c, f c.silent = f c) →
      Plain P (MonadState.get >>= f)
  | throw {α cause position} : P cause → Plain P (MonadExcept.throw (.located cause position) : CursorM α)
  | notes (entries : List Note) : Plain P (Cursor.notes entries)
  | advance : (∀ fault, P (.markup (.fault fault))) → Plain P Cursor.advance

namespace Plain
variable {P : Cause → Prop} {α β σ : Type}

/-! ### Rules -/

theorem fail {cause : Cause} (h : P cause) : Plain P (Cursor.fail cause : CursorM α) :=
  .get (fun _ => .throw h) fun _ => rfl

theorem note (level : Level) (text : String) : Plain P (Cursor.note level text) := .notes _

theorem map {m : CursorM α} (hm : Plain P m) (f : α → β) : Plain P (f <$> m) := by
  rw [map_eq_pure_bind]
  exact hm.bind fun _ => .pure _

theorem ite {p : Prop} [Decidable p] {m m' : CursorM α} (hm : Plain P m) (hm' : Plain P m') :
    Plain P (if p then m else m') := by
  split
  · exact hm
  · exact hm'

/-- A condition that must not hold is looked at before going on. -/
theorem guard {p : Prop} [Decidable p] {cause : Cause} {m : CursorM α} (h : P cause) (hm : Plain P m) :
    Plain P (if p then Cursor.fail cause >>= fun _ : Unit => m else m) :=
  .ite (.bind (.fail h) fun _ => hm) hm

theorem mapM {f : α → CursorM β} (hf : ∀ a, Plain P (f a)) (as : List α) : Plain P (as.mapM f) := by
  induction as with
  | nil => exact .pure _
  | cons a as ih =>
    rw [List.mapM_cons]
    exact .bind (hf a) fun _ => .bind ih fun _ => .pure _

theorem foldTags {next : CursorM Tag} {body : Name → List Attribute → σ → CursorM σ} (hnext : Plain P next)
    (hbody : ∀ name attributes a, Plain P (body name attributes a)) (rounds : Nat) (a : σ) :
    Plain P (FeatureMarkup.foldTags next body rounds a) := by
  induction rounds generalizing a with
  | zero => exact .pure _
  | succ rounds ih =>
    refine .bind hnext fun tag => ?_
    cases tag with
    | start name attributes => exact .bind (hbody name attributes a) ih
    | stop | finish => exact .pure _

/-! ### What the rules are for -/

theorem located_advanceOver (hP : ∀ fault, P (.markup (.fault fault))) {c c' : Cursor}
    {readings : List Xml.Reading} {count : Nat} {hcount : count = readings.length} {e : ReadError}
    (h : c.advanceOver readings count hcount = .error e c') :
    ∃ cause position, e = .located cause position ∧ P cause := by
  induction readings generalizing c count with
  | nil => cases h
  | cons r rest ih =>
    obtain ⟨offset, fault | content⟩ := r
    · cases h
      exact ⟨_, _, rfl, hP fault⟩
    · cases content with
      | ignored => exact ih h
      | start | stop | text => cases h

theorem inStep_advanceOver (c : Cursor) (readings : List Xml.Reading) (count : Nat)
    {hcount : count = readings.length} (log : Array Note) :
    InStep Cursor.SameButLog Eq (c.advanceOver readings count hcount)
      (Cursor.advanceOver { c with log } readings count hcount) := by
  induction readings generalizing c count with
  | nil => exact ⟨rfl, rfl⟩
  | cons r rest ih =>
    obtain ⟨offset, fault | content⟩ := r
    · rfl
    · cases content with
      | ignored => exact ih _ _
      | start | stop | text => exact ⟨rfl, rfl⟩

/-- An error of a plain reading has one of its causes, and nothing is wrapped around it. -/
theorem located {m : CursorM α} (hm : Plain P m) {c c' : Cursor} {e : ReadError}
    (h : m c = .error e c') : ∃ cause position, e = .located cause position ∧ P cause := by
  induction hm generalizing c with
  | pure => cases h
  | @bind _ _ m f _ _ ih ihf =>
    change EStateM.bind m f c = _ at h
    unfold EStateM.bind at h
    cases hfirst : m c with
    | ok a c₁ =>
      rw [hfirst] at h
      exact ihf a h
    | error e₁ c₁ =>
      rw [hfirst] at h
      cases h
      exact ih hfirst
  | get _ _ ih => exact ih c h
  | @throw _ cause position hP =>
    cases h
    exact ⟨cause, position, rfl, hP⟩
  | notes => cases h
  | advance hP =>
    unfold Cursor.advance at h
    split at h
    · cases h
    · exact located_advanceOver hP h

/-- What has been reported does not show in what is read. -/
theorem lockstep {m : CursorM α} (hm : Plain P m) : Lockstep Cursor.SameButLog Eq m m := by
  induction hm with
  | pure => exact .pure rfl
  | bind _ _ ih ihf =>
    refine .bind ih ?_
    rintro a _ rfl
    exact ihf a
  | @get _ f _ hsame ih =>
    refine .get fun c d h => ?_
    rw [← hsame c, ← hsame d, show c.silent = d.silent from h]
    exact ih _
  | throw => exact .throw _
  | notes => exact fun c d h => ⟨rfl, h⟩
  | advance =>
    intro c d h
    obtain ⟨log, rfl⟩ : ∃ log, d = { c with log := log } := ⟨_, h.eq_with⟩
    unfold Cursor.advance
    dsimp only
    split
    · exact ⟨rfl, rfl⟩
    · exact inStep_advanceOver _ _ _ log

end Plain

namespace Lockstep
variable {α α' : Type} {V : α → α' → Prop}

/-- What is reported may differ. -/
theorem notes (entries entries' : List Note) :
    Lockstep Cursor.SameButLog Eq (Cursor.notes entries) (Cursor.notes entries') :=
  fun _ _ h => ⟨rfl, h⟩

theorem fail (cause : Cause) :
    Lockstep Cursor.SameButLog V (Cursor.fail cause : CursorM α) (Cursor.fail cause : CursorM α') := by
  refine .get fun c d h => ?_
  rw [h.eq_with]
  exact .throw _

/-- A condition that must not hold is looked at before going on. -/
theorem guard {p : Prop} [Decidable p] {cause : Cause} {m : CursorM α} {m' : CursorM α'}
    (h : Lockstep Cursor.SameButLog V m m') :
    Lockstep Cursor.SameButLog V (if p then Cursor.fail cause >>= fun _ : Unit => m else m)
      (if p then Cursor.fail cause >>= fun _ : Unit => m' else m') :=
  .ite (.bind (V := Eq) (.fail cause) fun _ _ _ => h) h

end Lockstep

/-- A plain reading that may fail for any cause. -/
abbrev AnyPlain {α : Type} (m : CursorM α) : Prop := Plain (fun _ => True) m

/-! ### Readers of markup -/

namespace Cursor
variable {P : Cause → Prop} {σ : Type}

section Markup
variable (hP : ∀ problem, P (.markup problem))
include hP

theorem plain_nextTagWithin (rounds : Nat) : Plain P (nextTagWithin rounds) := by
  induction rounds with
  | zero => exact .pure _
  | succ rounds ih =>
    refine .bind (.advance fun _ => hP _) fun event => ?_
    cases event with
    | startDocument => exact ih
    | startElement | endElement | endDocument => exact .pure _
    | characters => exact .ite ih (.fail (hP _))

theorem plain_nextTag : Plain P nextTag :=
  .get (fun _ => plain_nextTagWithin hP _) fun _ => rfl

theorem plain_textWithin (rounds : Nat) (text : String) : Plain P (textWithin rounds text) := by
  induction rounds generalizing text with
  | zero => exact .fail (hP _)
  | succ rounds ih =>
    refine .bind (.advance fun _ => hP _) fun event => ?_
    cases event with
    | characters => exact ih _
    | endElement => exact .pure _
    | startElement | endDocument | startDocument => exact .fail (hP _)

theorem plain_elementText : Plain P elementText := by
  refine .get (fun c => ?_) fun _ => rfl
  split
  · exact .get (fun _ => plain_textWithin hP _ _) fun _ => rfl
  · exact .fail (hP _)

theorem plain_skipWithin (rounds depth : Nat) : Plain P (skipWithin rounds depth) := by
  induction rounds generalizing depth with
  | zero =>
    cases depth with
    | zero => exact .pure _
    | succ => exact .fail (hP _)
  | succ rounds ih =>
    cases depth with
    | zero => exact .pure _
    | succ =>
      refine .bind (.advance fun _ => hP _) fun event => ?_
      cases event with
      | endDocument => exact .fail (hP _)
      | startElement | endElement | characters | startDocument => exact ih _

theorem plain_skipElement : Plain P skipElement := by
  refine .get (fun c => ?_) fun _ => rfl
  split
  · exact .get (fun _ => plain_skipWithin hP _ _) fun _ => rfl
  · exact .fail (hP _)

theorem plain_foldChildren {body : Name → List Attribute → σ → CursorM σ}
    (hbody : ∀ name attributes a, Plain P (body name attributes a)) (a : σ) :
    Plain P (foldChildren body a) :=
  .get (fun _ => .foldTags (plain_nextTag hP) hbody _ _) fun _ => rfl

theorem plain_nodesWithin (rounds : Nat) (nodes : List MarkupNode) :
    Plain P (nodesWithin rounds nodes) := by
  induction rounds generalizing nodes with
  | zero => exact .fail (hP _)
  | succ rounds ih =>
    refine .bind (.advance fun _ => hP _) fun event => ?_
    cases event with
    | startElement => exact .bind (ih _) fun _ => ih _
    | characters => exact .ite (ih _) (ih _)
    | endElement => exact .pure _
    | endDocument | startDocument => exact .fail (hP _)

theorem plain_captureElement : Plain P captureElement := by
  refine .get (fun c => ?_) fun _ => rfl
  split
  · exact .get (fun _ => .bind (plain_nodesWithin hP _ _) fun _ => .pure _) fun _ => rfl
  · exact .fail (hP _)

end Markup

end Cursor

/-- Loops over children are in step when their bodies are. -/
theorem Lockstep.foldChildren {σ σ' : Type} {V : σ → σ' → Prop}
    {body : Name → List Attribute → σ → CursorM σ} {body' : Name → List Attribute → σ' → CursorM σ'}
    (hbody : ∀ name attributes a a', V a a' →
      Lockstep Cursor.SameButLog V (body name attributes a) (body' name attributes a'))
    {a : σ} {a' : σ'} (ha : V a a') :
    Lockstep Cursor.SameButLog (fun r r' => r.1 = r'.1 ∧ V r.2 r'.2) (Cursor.foldChildren body a)
      (Cursor.foldChildren body' a') := by
  refine .get fun c d h => ?_
  rw [h.eq_with]
  exact .foldTags (Cursor.plain_nextTag (P := fun _ => True) fun _ => trivial).lockstep hbody _ ha

end FeatureMarkup

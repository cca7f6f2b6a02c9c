import FeatureMarkup.Proofs.Cursor.Tape

/-! How far a reading goes, and that it looks no further.

`Takes` names the readings that a reading takes, and that it does the same whatever stands
behind them. `Carries` is the triple for it, from what the cursor stands on before to what
has been taken after; in a document that is cut off it says only that the end of the
document is where one comes to, since some loops end there as at any other tag. A reader
of one element has for its triple `ToEnd`, with the nodes inside the element. -/
namespace FeatureMarkup

open Xml (Attribute Content Reading)
open Tape

variable {τ : Type} [Tape τ] {α β σ : Type}

/-! ### What is taken -/

/-- A reading that takes these readings, and does the same whatever stands behind
them. -/
structure Takes (m : EStateM ReadError τ α) (s : τ) (taken : List Reading) (a : α) (s' : τ) :
    Prop where
  left : left s = taken ++ Tape.left s'
  again : ∀ rest, m (facing s (taken ++ rest)) = .ok a (facing s' rest)

namespace Takes
variable {s s₁ s' : τ} {taken more : List Reading} {a : α} {b : β}

theorem bind {m : EStateM ReadError τ α} {f : α → EStateM ReadError τ β}
    (h : Takes m s taken a s₁) (h' : Takes (f a) s₁ more b s') :
    Takes (m >>= f) s (taken ++ more) b s' := by
  refine ⟨by rw [h.left, h'.left, List.append_assoc], fun rest => ?_⟩
  rw [List.append_assoc]
  exact bind_eq_ok.2 ⟨a, facing s₁ (more ++ rest), h.again _, h'.again rest⟩

theorem run {move : CursorM α} {c : Cursor} (h : Takes move (cursor s) taken a c) :
    Takes (Tape.run move) s taken a (put s c) := by
  refine ⟨by simpa [Tape.left] using h.left, fun rest => ?_⟩
  have hagain := h.again rest
  simp only [facing, cursor_self, put_self] at hagain
  simp [facing, hagain]

/-- The way to a tag. -/
theorem nextTag {c c' : Cursor} {before : List Reading} {tag : Tag} (hnot : ¬c.AtEnd)
    (hb : Spells before []) (h : c.Reaches before tag c') :
    ∃ content offset, content.event? = some tag.event ∧
      Takes Cursor.nextTag c (before ++ [⟨offset, .ok content⟩]) tag c' := by
  obtain ⟨content, offset, hcontent, hr, hover⟩ := h.facing
  refine ⟨content, offset, hcontent, by simpa [Tape.left] using hr, fun rest => ?_⟩
  have hreach := hover rest
  simp only [facing, cursor_self, put_self, List.append_assoc, List.cons_append, List.nil_append]
  exact Cursor.nextTagWithin_of_reaches (Cursor.length_lt_rounds _) hnot hb hreach

end Takes

/-! ### The triple -/

/-- From an event of some kind a reading takes readings of some kind, unless it comes to
the end of the document. -/
def Carries (before : Event → Prop) (m : EStateM ReadError τ α)
    (after : List Reading → α → Event → Prop) : Prop :=
  ∀ ⦃s a s'⦄, before (event s) → m s = .ok a s' →
    event s' = .endDocument ∨ ∃ taken, Takes m s taken a s' ∧ after taken a (event s')

/-- A reading that takes nothing and looks at nothing that is left. -/
def Still (m : EStateM ReadError τ α) : Prop :=
  ∀ ⦃s a s'⦄, m s = .ok a s' → Takes m s [] a s' ∧ event s' = event s

/-- What is taken up to the end of the element that is open, if the readings before that end
stand in a relation to what is read. -/
def ToStop (Q : List Reading → α → Prop) (taken : List Reading) (a : α) (event : Event) : Prop :=
  ∃ inside offset name, taken = inside ++ [⟨offset, .ok (.stop name)⟩] ∧
    event = .endElement name ∧ Q inside a

/-- What is taken up to the end of the element that is open, if its nodes stand in a
relation to what is read. -/
def ToEnd (R : List MarkupNode → α → Prop) (taken : List Reading) (a : α) (event : Event) : Prop :=
  ∃ inside nodes offset name, Spells inside nodes ∧
    taken = inside ++ [⟨offset, .ok (.stop name)⟩] ∧ event = .endElement name ∧ R nodes a

theorem ToStop.mono {Q Q' : List Reading → α → Prop} {taken : List Reading} {a : α} {e : Event}
    (h : ToStop Q taken a e) (himp : ∀ inside, Q inside a → Q' inside a) : ToStop Q' taken a e := by
  obtain ⟨inside, offset, name, rfl, he, hQ⟩ := h
  exact ⟨inside, offset, name, rfl, he, himp inside hQ⟩

theorem toEnd_iff {R : List MarkupNode → α → Prop} {taken : List Reading} {a : α} {e : Event} :
    ToEnd R taken a e ↔ ToStop (fun inside a => ∃ nodes, Spells inside nodes ∧ R nodes a) taken a e := by
  constructor
  · rintro ⟨inside, nodes, offset, name, hs, rfl, he, hR⟩
    exact ⟨inside, offset, name, rfl, he, nodes, hs, hR⟩
  · rintro ⟨inside, offset, name, rfl, he, nodes, hs, hR⟩
    exact ⟨inside, nodes, offset, name, hs, rfl, he, hR⟩

/-- Readings up to a tag, with nothing but blank text before it. -/
def ToTag (taken : List Reading) (tag : Tag) (event : Event) : Prop :=
  ∃ before content offset, Spells before [] ∧ taken = before ++ [⟨offset, .ok content⟩] ∧
    content.event? = some tag.event ∧ event = tag.event

theorem ToTag.event {taken : List Reading} {tag : Tag} {e : Event} (h : ToTag taken tag e) :
    e = tag.event := by
  obtain ⟨_, _, _, _, _, _, h⟩ := h
  exact h

theorem ToTag.not_finish {taken : List Reading} {event : Event} : ¬ToTag taken .finish event := by
  intro h
  obtain ⟨_, content, _, _, _, hcontent, _⟩ := h
  cases content <;> cases hcontent

namespace Still

theorem pure (a : α) : Still (Pure.pure a : EStateM ReadError τ α) := by
  intro s b s' h
  obtain ⟨rfl, rfl⟩ := pure_eq_ok.1 h
  exact ⟨⟨rfl, fun _ => rfl⟩, rfl⟩

theorem bind {m : EStateM ReadError τ α} {f : α → EStateM ReadError τ β} (hm : Still m)
    (hf : ∀ a, Still (f a)) : Still (m >>= f) := by
  intro s b s' h
  obtain ⟨a, s₁, h₁, h₂⟩ := bind_eq_ok.1 h
  obtain ⟨htakes, hevent⟩ := hm h₁
  obtain ⟨htakes', hevent'⟩ := hf a h₂
  exact ⟨htakes.bind htakes', hevent'.trans hevent⟩

/-- What depends on the state, but not on what is left to read. -/
theorem get {f : τ → EStateM ReadError τ β} (hf : ∀ s, Still (f s))
    (hsame : ∀ s rs, f (facing s rs) = f s) : Still (MonadState.get >>= f) := by
  intro s b s' h
  rw [get_bind] at h
  obtain ⟨htakes, hevent⟩ := hf s h
  refine ⟨⟨htakes.left, fun rest => ?_⟩, hevent⟩
  rw [get_bind, hsame]
  exact htakes.again rest

theorem run {m : CursorM α} (hm : Still m) : Still (Tape.run m : EStateM ReadError τ α) := by
  intro s a s' h
  obtain ⟨c, hc, rfl⟩ := run_eq_ok.1 h
  obtain ⟨htakes, hevent⟩ := hm hc
  exact ⟨htakes.run, by simpa [event] using hevent⟩

theorem fail (cause : Cause) : Still (Cursor.fail cause : CursorM α) :=
  fun _ _ _ h => absurd h Cursor.fail_ne_ok

theorem notes (entries : List Note) : Still (Cursor.notes entries) := by
  intro c u c' h
  obtain rfl := Cursor.notes_eq_ok.1 h
  exact ⟨⟨rfl, fun rest => Cursor.notes_eq_ok.2 rfl⟩, rfl⟩

theorem note (level : Level) (text : String) : Still (Cursor.note level text) :=
  notes _

theorem ite {p : Prop} [Decidable p] {m m' : EStateM ReadError τ α} (hm : Still m)
    (hm' : Still m') : Still (if p then m else m') := by
  split
  · exact hm
  · exact hm'

theorem forward {m : EStateM ReadError τ α} (hm : Still m) : Forward m := by
  intro s a s' h
  obtain ⟨htakes, hevent⟩ := hm h
  refine ⟨?_, fun hend => hevent.trans hend⟩
  rw [htakes.left]
  exact List.suffix_append _ _

end Still

/-- A reading that does the same wherever the cursor is, and moves it nowhere. -/
def Steady (m : CursorM α) : Prop :=
  ∀ ⦃c a c'⦄, m c = .ok a c' → ∃ entries, ∀ d, m d = .ok a (d.logging entries)

namespace Steady

theorem pure (a : α) : Steady (Pure.pure a) := by
  intro c b c' h
  obtain ⟨rfl, -⟩ := pure_eq_ok.1 h
  exact ⟨[], fun d => pure_eq_ok.2 ⟨rfl, (d.logging_nil).symm⟩⟩

theorem bind {m : CursorM α} {f : α → CursorM β} (hm : Steady m) (hf : ∀ a, Steady (f a)) :
    Steady (m >>= f) := by
  intro c b c' h
  obtain ⟨a, c₁, h₁, h₂⟩ := bind_eq_ok.1 h
  obtain ⟨entries, hfirst⟩ := hm h₁
  obtain ⟨more, hsecond⟩ := hf a h₂
  refine ⟨entries ++ more, fun d => bind_eq_ok.2 ⟨a, d.logging entries, hfirst d, ?_⟩⟩
  rw [hsecond, Cursor.logging_logging]

theorem fail (cause : Cause) : Steady (Cursor.fail cause : CursorM α) :=
  fun _ _ _ h => absurd h Cursor.fail_ne_ok

theorem ite {p : Prop} [Decidable p] {m m' : CursorM α} (hm : Steady m) (hm' : Steady m') :
    Steady (if p then m else m') := by
  split
  · exact hm
  · exact hm'

/-- A condition is looked at before what is steady. -/
theorem guard {p : Prop} [Decidable p] {cause : Cause} {m : CursorM α} (hm : Steady m) :
    Steady (if p then Cursor.fail cause >>= fun _ : Unit => m else m) :=
  .ite (.bind (.fail cause) fun _ => hm) hm

theorem mapM {f : α → CursorM β} (hf : ∀ a, Steady (f a)) (as : List α) : Steady (as.mapM f) := by
  induction as with
  | nil => exact .pure _
  | cons a as ih =>
    rw [List.mapM_cons]
    exact (hf a).bind fun b => ih.bind fun bs => .pure _

theorem still {m : CursorM α} (hm : Steady m) : Still m := by
  intro c a c' h
  obtain ⟨entries, hall⟩ := hm h
  obtain rfl : c.logging entries = c' := by simpa using (hall c).symm.trans h
  exact ⟨⟨rfl, fun rest => hall (c.facing rest)⟩, rfl⟩

end Steady

namespace Carries
variable {before : Event → Prop} {after : List Reading → α → Event → Prop}
  {after' : List Reading → β → Event → Prop}

theorem weaken {after₁ : List Reading → α → Event → Prop} {m : EStateM ReadError τ α}
    (hm : Carries before m after) (h : ∀ taken a e, after taken a e → after₁ taken a e) :
    Carries before m after₁ := by
  intro s a s' hs hok
  refine (hm hs hok).imp_right ?_
  intro hgiven
  obtain ⟨taken, htakes, hafter⟩ := hgiven
  exact ⟨taken, htakes, h _ _ _ hafter⟩

theorem strengthen {before₁ : Event → Prop} {m : EStateM ReadError τ α}
    (hm : Carries before m after) (h : ∀ e, before₁ e → before e) : Carries before₁ m after :=
  fun _ _ _ hs hok => hm (h _ hs) hok

theorem run {m : CursorM α} (hm : Carries before m after) :
    Carries before (Tape.run m : EStateM ReadError τ α) after := by
  intro s a s' hs h
  obtain ⟨c, hc, rfl⟩ := run_eq_ok.1 h
  have hcursor : before (event (cursor s)) := hs
  rcases hm hcursor hc with hend | ⟨taken, htakes, hafter⟩
  · exact .inl (by simpa [event] using hend)
  · exact .inr ⟨taken, htakes.run, by simpa [event] using hafter⟩

theorem bind {m : EStateM ReadError τ α} {f : α → EStateM ReadError τ β}
    (hm : Carries before m after) (hforward : ∀ a, Forward (f a))
    (hf : ∀ taken a e, after taken a e →
      Carries (· = e) (f a) fun more b e' => after' (taken ++ more) b e') :
    Carries before (m >>= f) after' := by
  intro s b s' hs h
  obtain ⟨a, s₁, h₁, h₂⟩ := bind_eq_ok.1 h
  rcases hm hs h₁ with hend | ⟨taken, htakes, hafter⟩
  · exact .inl ((hforward a h₂).atEnd hend)
  · refine (hf taken a _ hafter rfl h₂).imp_right ?_
    intro hgiven
    obtain ⟨more, htakes', hafter'⟩ := hgiven
    exact ⟨taken ++ more, htakes.bind htakes', hafter'⟩

/-- What depends on the state, but not on what is left to read. -/
theorem get {f : τ → EStateM ReadError τ α} (hf : ∀ s, Carries before (f s) after)
    (hsame : ∀ s rs, f (facing s rs) = f s) : Carries before (MonadState.get >>= f) after := by
  intro s a s' hs h
  rw [get_bind] at h
  refine (hf s hs h).imp_right ?_
  intro hgiven
  obtain ⟨taken, htakes, hafter⟩ := hgiven
  refine ⟨taken, ⟨htakes.left, fun rest => ?_⟩, hafter⟩
  rw [get_bind, hsame]
  exact htakes.again rest

theorem inProperty {property : Name} {position : Position} {m : EStateM ReadError τ α}
    (hm : Carries before m after) : Carries before (inProperty property position m) after := by
  intro s a s' hs h
  refine (hm hs (inProperty_eq_ok.1 h)).imp_right ?_
  intro hgiven
  obtain ⟨taken, htakes, hafter⟩ := hgiven
  exact ⟨taken, ⟨htakes.left, fun rest => inProperty_eq_ok.2 (htakes.again rest)⟩, hafter⟩

/-- What takes nothing may come first; what it found out is known then. -/
theorem still_bind {m : EStateM ReadError τ α} {f : α → EStateM ReadError τ β} (hm : Still m)
    (hf : ∀ s a s', before (event s) → m s = .ok a s' → Carries before (f a) after') :
    Carries before (m >>= f) after' := by
  intro s b s' hs h
  obtain ⟨a, s₁, h₁, h₂⟩ := bind_eq_ok.1 h
  obtain ⟨htakes, hevent⟩ := hm h₁
  have hs₁ : before (event s₁) := by rwa [hevent]
  refine (hf s a s₁ hs h₁ hs₁ h₂).imp_right ?_
  intro hgiven
  obtain ⟨more, htakes', hafter'⟩ := hgiven
  exact ⟨more, htakes.bind htakes', hafter'⟩

/-- What takes nothing may come last. -/
theorem bind_still {m : EStateM ReadError τ α} {f : α → EStateM ReadError τ β}
    (hm : Carries before m after) (hstill : ∀ a, Still (f a))
    (hf : ∀ taken a e s b s', after taken a e → f a s = .ok b s' → after' taken b e) :
    Carries before (m >>= f) after' := by
  intro s b s' hs h
  obtain ⟨a, s₁, h₁, h₂⟩ := bind_eq_ok.1 h
  obtain ⟨htakes', hevent⟩ := hstill a h₂
  rcases hm hs h₁ with hend | ⟨taken, htakes, hafter⟩
  · exact .inl (hevent.trans hend)
  · refine .inr ⟨taken, by simpa using htakes.bind htakes', ?_⟩
    rw [hevent]
    exact hf _ _ _ _ _ _ hafter h₂

/-- A reading that is allowed as much depth as there are readings left takes the same in
any document, since the depth it needs is bounded by what it takes. -/
theorem enough {m : Nat → EStateM ReadError τ α} (hm : ∀ depth, Carries before (m depth) after)
    (hfollows : ∀ depth limit, Follows limit (m depth) (m limit)) :
    Carries before (MonadState.get >>= fun s : τ => m ((cursor s).remaining + 1)) after := by
  intro s a s' hs h
  rw [get_bind] at h
  refine (hm _ hs h).imp_right ?_
  intro hgiven
  obtain ⟨taken, htakes, hafter⟩ := hgiven
  refine ⟨taken, ⟨htakes.left, fun rest => ?_⟩, hafter⟩
  rw [get_bind]
  exact hfollows _ _ (Cursor.length_lt_rounds _) (htakes.again rest)

theorem nextTag : Carries (· ≠ .endDocument) (Tape.run Cursor.nextTag : EStateM ReadError τ Tag) ToTag := by
  refine run fun c tag c' _ h => ?_
  rcases Cursor.nextTagWithin_eq_ok c.length_lt_rounds h with
    ⟨-, hend⟩ | ⟨hnot, before, hb, hreach⟩
  · exact .inl hend
  · obtain ⟨content, offset, hcontent, htakes⟩ := Takes.nextTag hnot hb hreach
    exact .inr ⟨_, htakes, before, content, offset, hb, rfl, hcontent, hreach.event⟩

end Carries

/-! ### Loops over children -/

/-- A relation followed from one child to the next; all children are elements. -/
inductive Along (R : σ → MarkupTree → σ → Prop) : σ → List MarkupNode → σ → Prop where
  | nil {a} : Along R a [] a
  | cons {a tree a₁ nodes a'} : R a tree a₁ → Along R a₁ nodes a' →
      Along R a (.element tree :: nodes) a'

/-- Readings of one child after another with nothing but blank text around them; what is inside
each child leads from one value to the next. -/
inductive Children (Q : Name → List Attribute → σ → List Reading → σ → Prop) :
    σ → List Reading → σ → Prop where
  | nil {a before} : Spells before [] → Children Q a before a
  | cons {a before offset name attributes inside a₁ offset' name' rest a'} : Spells before [] →
      Q name attributes a inside a₁ → Children Q a₁ rest a' →
      Children Q a (before ++ ⟨offset, .ok (.start name attributes)⟩ :: inside ++
        ⟨offset', .ok (.stop name')⟩ :: rest) a'

/-- Children whose nodes are known are followed along their nodes. -/
theorem Children.along {R : σ → MarkupTree → σ → Prop} {inside : List Reading} {a a' : σ}
    (h : Children (fun name attributes a inside a' =>
      ∃ nodes, Spells inside nodes ∧ R a ⟨name, attributes, nodes⟩ a') a inside a') :
    ∃ nodes, Spells inside nodes ∧ Along R a nodes a' := by
  induction h with
  | nil hb => exact ⟨[], hb, .nil⟩
  | cons hb hQ _ ih =>
    obtain ⟨children, hi, hR⟩ := hQ
    obtain ⟨nodes, hs, halong⟩ := ih
    exact ⟨_, by simpa using hb.append (.element hi hs), .cons hR halong⟩

section Loop
variable {body : Name → List Attribute → σ → EStateM ReadError τ σ}
  {Q : Name → List Attribute → σ → List Reading → σ → Prop} {R : σ → MarkupTree → σ → Prop}

theorem Forward.foldChildren {body : Name → List Attribute → σ → CursorM σ}
    (hforward : ∀ name attributes a, Forward (body name attributes a)) (a : σ) :
    Forward (Cursor.foldChildren body a) := by
  refine .get fun c => ?_
  rw [← run_cursor Cursor.nextTag]
  exact .foldTags .nextTag hforward _ a

/-- A loop stands on the tag it ends at. -/
theorem foldTags_event {rounds : Nat} {a : σ} {r : Tag × σ} {s s' : τ}
    (h : foldTags (Tape.run Cursor.nextTag) body rounds a s = .ok r s') (hr : r.1 ≠ .finish) :
    event s' = r.1.event := by
  induction rounds generalizing a s with
  | zero =>
    obtain ⟨rfl, -⟩ := pure_eq_ok.1 h
    exact absurd rfl hr
  | succ rounds ih =>
    obtain ⟨tag, s₁, hnext, hrest⟩ := bind_eq_ok.1 h
    cases tag with
    | start name attributes =>
      obtain ⟨a₁, s₂, -, hloop⟩ := bind_eq_ok.1 hrest
      exact ih hloop
    | finish =>
      obtain ⟨rfl, -⟩ := pure_eq_ok.1 hrest
      exact absurd rfl hr
    | stop name =>
      obtain ⟨rfl, rfl⟩ := pure_eq_ok.1 hrest
      obtain ⟨c, hc, rfl⟩ := run_eq_ok.1 hnext
      obtain ⟨-, before, -, hreach⟩ := Cursor.nextTag_eq_stop_iff.1 hc
      simpa [event] using hreach.event

theorem Carries.foldTags_within
    (hforward : ∀ name attributes a, Forward (body name attributes a))
    (hbody : ∀ name attributes a, Carries (· = .startElement name attributes)
      (body name attributes a) (ToStop (Q name attributes a)))
    {rounds : Nat} {s s' : τ} {a : σ} {r : Tag × σ} (hs : event s ≠ .endDocument)
    (hrounds : (left s).length < rounds)
    (h : foldTags (Tape.run Cursor.nextTag) body rounds a s = .ok r s') :
    event s' = .endDocument ∨
      ∃ inside offset name, Children Q a inside r.2 ∧ r.1 = .stop name ∧
        event s' = .endElement name ∧
        ∀ rounds, inside.length < rounds →
          Takes (foldTags (Tape.run Cursor.nextTag) body rounds a) s
            (inside ++ [⟨offset, .ok (.stop name)⟩]) r s' := by
  induction rounds generalizing s a with
  | zero => cases hrounds
  | succ rounds ih =>
    obtain ⟨tag, s₁, hnext, hrest⟩ := bind_eq_ok.1 h
    rcases Carries.nextTag hs hnext with hend | ⟨_, htakes, before, content, offset, hb, rfl, ht, he⟩
    · refine .inl (Ahead.atEnd (?_ : Ahead s₁ s') hend)
      cases tag with
      | start name attributes =>
        exact Forward.bind (hforward _ _ _) (Forward.foldTags .nextTag hforward rounds) hrest
      | stop | finish => exact Forward.pure _ hrest
    cases tag with
    | finish => cases content <;> cases ht
    | stop name =>
      obtain rfl : content = .stop name := by cases content <;> cases ht; rfl
      obtain ⟨rfl, rfl⟩ := pure_eq_ok.1 hrest
      refine .inr ⟨before, offset, name, .nil hb, rfl, he, fun rounds' hlt => ?_⟩
      obtain _ | rounds' := rounds'
      · cases hlt
      have hdone : Takes (Pure.pure (Tag.stop name, a) : EStateM ReadError τ _) s₁ [] _ s₁ :=
        (Still.pure _ rfl).1
      rw [← List.append_nil (before ++ _)]
      exact htakes.bind hdone
    | start name attributes =>
      obtain rfl : content = .start name attributes := by cases content <;> cases ht; rfl
      obtain ⟨a₁, s₂, hbody₁, hloop⟩ := bind_eq_ok.1 hrest
      rcases hbody name attributes a he hbody₁ with
        hend | ⟨_, htakes₁, inside, offset₁, name₁, rfl, he₁, hQ⟩
      · exact .inl ((Forward.foldTags .nextTag hforward rounds a₁ hloop).atEnd hend)
      have hs₂ : event s₂ ≠ .endDocument := by simp [he₁]
      have hleft : (left s₂).length < rounds := by
        rw [htakes.left, htakes₁.left] at hrounds
        simp only [List.length_append, List.length_cons, List.length_nil] at hrounds
        omega
      rcases ih hs₂ hleft hloop with hend | ⟨inside', offset', name', hrest', htag, he', htakes'⟩
      · exact .inl hend
      refine .inr ⟨before ++ ⟨offset, .ok (.start name attributes)⟩ :: inside ++
        ⟨offset₁, .ok (.stop name₁)⟩ :: inside', offset', name', .cons hb hQ hrest', htag, he',
        fun rounds' hlt => ?_⟩
      obtain _ | rounds' := rounds'
      · cases hlt
      simp only [List.length_append, List.length_cons] at hlt
      have hstep := htakes₁.bind (htakes' rounds' (by omega))
      rw [show ∀ r r' r'' : Reading, before ++ r :: inside ++ r' :: inside' ++ [r''] =
        before ++ [r] ++ (inside ++ [r'] ++ (inside' ++ [r''])) by simp]
      exact htakes.bind hstep

/-- A loop over children goes to the end of the element they stand in, when its body reads
each child to the child's own end. -/
theorem Carries.foldTags_children
    (hforward : ∀ name attributes a, Forward (body name attributes a))
    (hbody : ∀ name attributes a, Carries (· = .startElement name attributes)
      (body name attributes a) (ToStop (Q name attributes a))) (a : σ) :
    Carries (· ≠ .endDocument)
      (MonadState.get >>= fun s : τ =>
        FeatureMarkup.foldTags (Tape.run Cursor.nextTag) body ((cursor s).remaining + 1) a)
      fun taken r e => ToStop (fun inside r => Children Q a inside r.2) taken r e ∧ e = r.1.event := by
  intro s r s' hs h
  rw [get_bind] at h
  rcases Carries.foldTags_within hforward hbody hs (cursor s).length_lt_rounds h with
    hend | ⟨inside, offset, name, hchildren, htag, he, htakes⟩
  · exact .inl hend
  refine .inr ⟨_, ⟨(htakes _ (Nat.lt_succ_self _)).left, fun rest => ?_⟩,
    ⟨inside, offset, name, rfl, he, hchildren⟩, by rw [he, htag]; rfl⟩
  rw [get_bind]
  refine (htakes _ ?_).again rest
  simp only [facing, cursor_put, Cursor.facing_remaining, List.length_append]
  omega

/-- The same, with the nodes that the children are. -/
theorem Carries.foldTags
    (hforward : ∀ name attributes a, Forward (body name attributes a))
    (hbody : ∀ name attributes a, Carries (· = .startElement name attributes)
      (body name attributes a) (ToEnd fun children => R a ⟨name, attributes, children⟩)) (a : σ) :
    Carries (· ≠ .endDocument)
      (MonadState.get >>= fun s : τ =>
        FeatureMarkup.foldTags (Tape.run Cursor.nextTag) body ((cursor s).remaining + 1) a)
      fun taken r e => ToEnd (fun nodes r => Along R a nodes r.2) taken r e ∧ e = r.1.event := by
  refine (foldTags_children hforward (fun name attributes a =>
    (hbody name attributes a).weaken fun _ _ _ => toEnd_iff.1) a).weaken fun taken r e h => ?_
  exact ⟨toEnd_iff.2 (h.1.mono fun inside hchildren => hchildren.along), h.2⟩

/-- The same for a cursor alone. -/
theorem Carries.foldChildren {body : Name → List Attribute → σ → CursorM σ}
    (hforward : ∀ name attributes a, Forward (body name attributes a))
    (hbody : ∀ name attributes a, Carries (· = .startElement name attributes)
      (body name attributes a) (ToEnd fun children => R a ⟨name, attributes, children⟩)) (a : σ) :
    Carries (· ≠ .endDocument) (Cursor.foldChildren body a)
      fun taken r e => ToEnd (fun nodes r => Along R a nodes r.2) taken r e ∧ e = r.1.event := by
  have hloop := Carries.foldTags hforward hbody a
  rwa [run_cursor] at hloop

end Loop

/-! ### One element inside another -/

/-- What is taken up to the end of the element around the one that starts, if what is
inside the latter and what comes behind it stand in a relation to what is read. -/
def ToOuterEnd (R : List MarkupNode → List MarkupNode → α → Prop) (taken : List Reading) (a : α)
    (event : Event) : Prop :=
  ∃ inside children offset name more, Spells inside children ∧
    taken = inside ++ ⟨offset, .ok (.stop name)⟩ :: more ∧ ToEnd (R children) more a event

/-- The way into an element and the way out of the one around it. -/
theorem ToTag.outer {R : MarkupTree → List MarkupNode → α → Prop} {taken more : List Reading}
    {name : Name} {attributes : List Attribute} {a : α} {e e' : Event}
    (h : ToTag taken (.start name attributes) e)
    (h' : ToOuterEnd (fun children => R ⟨name, attributes, children⟩) more a e') :
    ToEnd (fun nodes a => ∃ tree rest, nodes = .element tree :: rest ∧ R tree rest a)
      (taken ++ more) a e' := by
  obtain ⟨before, content, offset, hb, rfl, hcontent, -⟩ := h
  obtain rfl : content = .start name attributes := by cases content <;> cases hcontent; rfl
  obtain ⟨inside, children, offset₁, name₁, behind, hi, rfl, hbehind⟩ := h'
  obtain ⟨inside₂, nodes, offset₂, name₂, hi₂, rfl, rfl, hR⟩ := hbehind
  refine ⟨before ++ ⟨offset, .ok (.start name attributes)⟩ :: inside ++
    ⟨offset₁, .ok (.stop name₁)⟩ :: inside₂, _, offset₂, name₂, ?_, by simp, rfl,
    ⟨name, attributes, children⟩, nodes, rfl, hR⟩
  simpa using hb.append (.element hi hi₂)

namespace Carries
variable {before : Event → Prop}

/-- An element is read and then what is behind it. -/
theorem leave {m : EStateM ReadError τ α} {f : α → EStateM ReadError τ β}
    {R : List MarkupNode → α → Prop} {S : List MarkupNode → List MarkupNode → β → Prop}
    (hm : Carries before m (ToEnd R)) (hforward : ∀ a, Forward (f a))
    (hf : ∀ children a, R children a → Carries (· ≠ .endDocument) (f a) (ToEnd (S children))) :
    Carries before (m >>= f) (ToOuterEnd S) := by
  refine hm.bind hforward fun taken a e hafter s b s' hs h => ?_
  obtain ⟨inside, children, offset, name, hi, rfl, rfl, hR⟩ := hafter
  refine (hf children a hR (by rw [hs]; nofun) h).imp_right ?_
  intro hgiven
  obtain ⟨more, htakes, hend⟩ := hgiven
  exact ⟨more, htakes, inside, children, offset, name, more, hi, by simp, hend⟩

/-- The next tag must be the start of an element, which is read with all behind it. -/
theorem enter {f : Tag → EStateM ReadError τ α} {R : MarkupTree → List MarkupNode → α → Prop}
    (hforward : ∀ tag, Forward (f tag))
    (hstart : ∀ name attributes, Carries (· = .startElement name attributes)
      (f (.start name attributes)) (ToOuterEnd fun children => R ⟨name, attributes, children⟩))
    (hstop : ∀ name s a s', f (.stop name) s ≠ .ok a s') :
    Carries (· ≠ .endDocument) (Tape.run Cursor.nextTag >>= f)
      (ToEnd fun nodes a => ∃ tree more, nodes = .element tree :: more ∧ R tree more a) := by
  refine nextTag.bind hforward fun taken tag e htag => ?_
  cases tag with
  | finish => exact absurd htag ToTag.not_finish
  | stop name => exact fun s a s' _ h => absurd h (hstop name s a s')
  | start name attributes =>
    obtain rfl : e = .startElement name attributes := htag.event
    exact (hstart name attributes).weaken fun more a e' houter => htag.outer houter

/-- The next tag must be the end of the element. -/
theorem finish {f : Tag → EStateM ReadError τ α} (hstop : ∀ name, Still (f (.stop name)))
    (hother : ∀ tag s a s', (∀ name, tag ≠ .stop name) → f tag s ≠ .ok a s') :
    Carries (· ≠ .endDocument) (Tape.run Cursor.nextTag >>= f)
      (ToEnd fun nodes a => nodes = [] ∧ ∃ name s s', f (.stop name) s = .ok a s') := by
  have hstill : ∀ tag, Still (f tag) := by
    intro tag
    cases tag with
    | stop name => exact hstop name
    | start | finish => exact fun s a s' h => absurd h (hother _ s a s' nofun)
  refine nextTag.bind_still hstill fun taken tag e s a s' htag h => ?_
  obtain ⟨before, content, offset, hb, rfl, hcontent, rfl⟩ := htag
  cases tag with
  | stop name =>
    obtain rfl : content = .stop name := by cases content <;> cases hcontent; rfl
    exact ⟨before, [], offset, name, hb, rfl, rfl, rfl, name, s, s', h⟩
  | start | finish => exact absurd h (hother _ s a s' nofun)

end Carries

/-! ### Elements -/

namespace Carries
variable {name : Name} {attributes : List Attribute}

/-- A reading of one element that is told by the readings inside it. -/
theorem of_reaches {m : CursorM α} {Q : List Reading → α → Prop}
    (hm : ∀ c a c', c.event = .startElement name attributes →
      (m c = .ok a c' ↔ ∃ inside name', Q inside a ∧ c.Reaches inside (.stop name') c')) :
    Carries (· = .startElement name attributes) m (ToStop Q) := by
  intro c a c' hc h
  obtain ⟨inside, name', hq, hreach⟩ := (hm c a c' hc).1 h
  obtain ⟨content, offset, hcontent, hr, hover⟩ := hreach.facing
  obtain rfl : content = .stop name' := by cases content <;> cases hcontent; rfl
  refine .inr ⟨_, ⟨by simpa [left] using hr, fun rest => ?_⟩, inside, offset, name', rfl,
    hreach.event, hq⟩
  refine (hm (c.facing _) a (c'.facing rest) hc).2 ⟨inside, name', hq, ?_⟩
  simpa using hover rest

/-- The text of an element is told by the readings inside it. -/
theorem elementText_stop :
    Carries (· = .startElement name attributes) Cursor.elementText
      (ToStop fun inside text => ∃ joined, SpellsText inside joined ∧ text = Text.trim joined) := by
  refine of_reaches fun c text c' hc => ?_
  rw [Cursor.elementText_eq_ok_iff]
  constructor
  · intro h
    obtain ⟨-, inside, joined, name', hs, htext, hreach⟩ := h
    exact ⟨inside, name', ⟨joined, hs, htext⟩, hreach⟩
  · intro h
    obtain ⟨inside, name', ⟨joined, hs, htext⟩, hreach⟩ := h
    exact ⟨⟨name, attributes, hc⟩, inside, joined, name', hs, htext, hreach⟩

theorem elementText :
    Carries (· = .startElement name attributes) Cursor.elementText
      (ToEnd fun _ (_ : String) => True) := by
  refine elementText_stop.weaken fun taken text e h => toEnd_iff.2 (h.mono fun inside htext => ?_)
  obtain ⟨joined, hs, -⟩ := htext
  obtain ⟨nodes, hnodes⟩ := hs.spells
  exact ⟨nodes, hnodes, trivial⟩

theorem skipElement :
    Carries (· = .startElement name attributes) Cursor.skipElement
      (ToEnd fun _ (_ : Unit) => True) := by
  refine (of_reaches (Q := fun inside _ => ∃ children, Spells inside children ∧ True)
    fun c u c' hc => ?_).weaken fun _ _ _ => toEnd_iff.2
  rw [Cursor.skipElement_eq_ok_iff]
  constructor
  · intro h
    obtain ⟨-, inside, children, name', hs, hreach⟩ := h
    exact ⟨inside, name', ⟨children, hs, trivial⟩, hreach⟩
  · intro h
    obtain ⟨inside, name', ⟨children, hs, -⟩, hreach⟩ := h
    exact ⟨⟨name, attributes, hc⟩, inside, children, name', hs, hreach⟩

theorem captureElement :
    Carries (· = .startElement name attributes) Cursor.captureElement
      (ToEnd fun children tree => tree = ⟨name, attributes, children⟩) := by
  refine (of_reaches (Q := fun inside tree => ∃ children, Spells inside children ∧
    tree = ⟨name, attributes, children⟩) fun c tree c' hc => ?_).weaken fun _ _ _ => toEnd_iff.2
  rw [Cursor.captureElement_eq_ok_iff]
  constructor
  · intro h
    obtain ⟨_, _, hstart, inside, children, name', hs, htree, hreach⟩ := h
    cases hc.symm.trans hstart
    exact ⟨inside, name', ⟨children, hs, htree⟩, hreach⟩
  · intro h
    obtain ⟨inside, name', ⟨children, hs, htree⟩, hreach⟩ := h
    exact ⟨name, attributes, hc, inside, children, name', hs, htree, hreach⟩

end Carries

end FeatureMarkup

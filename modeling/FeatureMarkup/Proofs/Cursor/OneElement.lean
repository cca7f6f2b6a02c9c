import FeatureMarkup.Proofs.Cursor.Extent

/-! Readings of one element.

Such a reading is called at the start of an element. It comes to the end of that element,
or, as a loop takes the end of the document for the end of an element, to the end of the
document. The rules put readers of one element together from others; where one element
stands alone inside another, the reading goes on to the end of the outer one. -/
namespace FeatureMarkup

open Xml (Attribute)

/-- A reading of the element that the cursor is at the start of. -/
structure ReadsElement {α : Type} (m : CursorM α) : Prop where
  forward : Forward m
  toEnd : ∀ name attributes,
    Carries (· = .startElement name attributes) m (ToEnd fun _ _ => True)

/-- A reading of the element that the cursor is at the start of, and on to the end of the
element around it. -/
structure ReadsOuter {α : Type} (m : CursorM α) : Prop where
  forward : Forward m
  toEnd : ∀ name attributes,
    Carries (· = .startElement name attributes) m (ToOuterEnd fun _ _ _ => True)

variable {α β σ : Type}

namespace ReadsOuter

theorem still_bind {m : CursorM α} {f : α → CursorM β} (hm : Still m)
    (hf : ∀ a, ReadsOuter (f a)) : ReadsOuter (m >>= f) where
  forward := hm.forward.bind fun a => (hf a).forward
  toEnd name attributes := .still_bind hm fun _ a _ _ _ => (hf a).toEnd name attributes

/-- What depends on the cursor, but not on what is left to read. -/
theorem get {f : Cursor → CursorM α} (hf : ∀ c, ReadsOuter (f c))
    (hsame : ∀ c rs, f (Tape.facing c rs) = f c) : ReadsOuter (MonadState.get >>= f) where
  forward := .get fun c => (hf c).forward
  toEnd name attributes := .get (fun c => (hf c).toEnd name attributes) hsame

/-- A condition is looked at before anything is read. -/
theorem guard {p : Prop} [Decidable p] {cause : Cause} {m : CursorM α} (hm : ReadsOuter m) :
    ReadsOuter (if p then Cursor.fail cause >>= fun _ : Unit => m else m) := by
  split
  · exact still_bind (.fail cause) fun _ => hm
  · exact hm

end ReadsOuter

namespace ReadsElement

theorem bind_still {m : CursorM α} {f : α → CursorM β} (hm : ReadsElement m)
    (hf : ∀ a, Still (f a)) : ReadsElement (m >>= f) where
  forward := hm.forward.bind fun a => (hf a).forward
  toEnd name attributes := (hm.toEnd name attributes).bind_still hf
    fun _ _ _ _ _ _ ⟨inside, nodes, offset, name', hs, ht, he, _⟩ _ =>
      ⟨inside, nodes, offset, name', hs, ht, he, trivial⟩

theorem still_bind {m : CursorM α} {f : α → CursorM β} (hm : Still m)
    (hf : ∀ a, ReadsElement (f a)) : ReadsElement (m >>= f) where
  forward := hm.forward.bind fun a => (hf a).forward
  toEnd name attributes := .still_bind hm fun _ a _ _ _ => (hf a).toEnd name attributes

theorem map {m : CursorM α} {f : α → β} (hm : ReadsElement m) : ReadsElement (f <$> m) := by
  rw [map_eq_pure_bind]
  exact hm.bind_still fun a => .pure _

theorem fail (cause : Cause) : ReadsElement (Cursor.fail cause : CursorM α) where
  forward := .fail cause
  toEnd _ _ := fun _ _ _ _ h => absurd h Cursor.fail_ne_ok

/-- A condition is looked at before an element is read. -/
theorem guard {p : Prop} [Decidable p] {cause : Cause} {m : CursorM α} (hm : ReadsElement m) :
    ReadsElement (if p then Cursor.fail cause >>= fun _ : Unit => m else m) := by
  split
  · exact still_bind (.fail cause) fun _ => hm
  · exact hm

theorem inProperty {property : Name} {position : Position} {m : CursorM α} (hm : ReadsElement m) :
    ReadsElement (inProperty property position m) where
  forward := .inProperty hm.forward
  toEnd name attributes := .inProperty (hm.toEnd name attributes)

/-- The element stands alone inside the one around it. -/
theorem alone {m : CursorM α} {f : α → Tag → CursorM β} (hm : ReadsElement m)
    (hstop : ∀ a name, Still (f a (.stop name)))
    (hother : ∀ a tag s b s', (∀ name, tag ≠ .stop name) → f a tag s ≠ .ok b s') :
    ReadsOuter (m >>= fun a => Cursor.nextTag >>= f a) := by
  have hforward : ∀ a, Forward (Tape.run Cursor.nextTag >>= f a) := by
    refine fun a => .bind .nextTag fun tag => ?_
    cases tag with
    | stop name => exact (hstop a name).forward
    | start | finish => exact fun s b s' h => absurd h (hother a _ s b s' nofun)
  rw [← Tape.run_cursor Cursor.nextTag]
  refine ⟨hm.forward.bind hforward, fun name attributes =>
    (hm.toEnd name attributes).leave hforward fun children a _ => ?_⟩
  refine (Carries.finish (hstop a) (hother a)).weaken fun taken b e h => ?_
  obtain ⟨inside, nodes, offset, name', hs, ht, he, -⟩ := h
  exact ⟨inside, nodes, offset, name', hs, ht, he, trivial⟩

/-- The element inside another is gone into and left again. -/
theorem enter {f : Tag → CursorM α} (hstart : ∀ name attributes, ReadsOuter (f (.start name attributes)))
    (hother : ∀ tag s a s', (∀ name attributes, tag ≠ .start name attributes) → f tag s ≠ .ok a s') :
    ReadsElement (Cursor.nextTag >>= f) := by
  have hforward : ∀ tag, Forward (f tag) := by
    intro tag
    cases tag with
    | start name attributes => exact (hstart name attributes).forward
    | stop | finish => exact fun s a s' h => absurd h (hother _ s a s' nofun)
  rw [← Tape.run_cursor Cursor.nextTag]
  refine ⟨.bind .nextTag hforward, fun name attributes => ?_⟩
  refine ((Carries.enter (R := fun _ _ _ => True) hforward
    (fun name attributes => (hstart name attributes).toEnd name attributes)
    fun name s a s' => hother _ s a s' nofun).strengthen fun e he => by rw [he]; nofun).weaken ?_
  rintro taken a e ⟨inside, nodes, offset, name', hs, ht, he, -⟩
  exact ⟨inside, nodes, offset, name', hs, ht, he, trivial⟩

/-- A loop over children that are read to their ends. -/
theorem foldChildren {body : Name → List Attribute → σ → CursorM σ}
    (hbody : ∀ name attributes a, ReadsElement (body name attributes a)) (a : σ) :
    ReadsElement (Cursor.foldChildren body a) where
  forward := .foldChildren (fun name attributes a => (hbody name attributes a).forward) a
  toEnd name attributes := by
    have hloop := Carries.foldChildren (R := fun _ _ _ => True)
      (fun name attributes a => (hbody name attributes a).forward)
      (fun name attributes a => (hbody name attributes a).toEnd name attributes) a
    refine (hloop.strengthen fun e he => by rw [he]; nofun).weaken fun taken r e h => ?_
    obtain ⟨⟨inside, nodes, offset, name', hs, ht, he, -⟩, -⟩ := h
    exact ⟨inside, nodes, offset, name', hs, ht, he, trivial⟩

end ReadsElement

namespace Cursor

theorem readsElement_elementText : ReadsElement elementText :=
  ⟨.elementText, fun _ _ => .elementText⟩

theorem readsElement_skipElement : ReadsElement skipElement :=
  ⟨.skipElement, fun _ _ => .skipElement⟩

theorem readsElement_captureElement : ReadsElement captureElement where
  forward := .captureElement
  toEnd _ _ := Carries.captureElement.weaken
    fun _ _ _ ⟨inside, nodes, offset, name', hs, ht, he, _⟩ =>
      ⟨inside, nodes, offset, name', hs, ht, he, trivial⟩

theorem forward_nextTag : Forward nextTag := by
  rw [← Tape.run_cursor nextTag]
  exact .nextTag

end Cursor

end FeatureMarkup

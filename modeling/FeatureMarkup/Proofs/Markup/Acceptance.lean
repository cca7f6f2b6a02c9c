import FeatureMarkup.Proofs.Cursor.CutOff
import FeatureMarkup.Proofs.Markup.Transcript

/-! Which elements a reader accepts.

`ReadsAs` says what a reading that succeeds has read. The other half is `SucceedsOn`: from the start
of such an element, up to its end, the reading succeeds, and yields this. A loop accepts an element
when its body accepts the children one after another and only blank text stands between them. -/
namespace FeatureMarkup

open Xml (Attribute Reading)

variable {α β σ : Type}

/-! ### Cut off inside -/

/-- A reading that has come to the end of the document inside an element has read that element with
the ends that are missing put there. -/
theorem Cursor.exists_spans {m : CursorM α} {R : MarkupTree → α → Prop} {c c' : Cursor} {a : α}
    {name : Name} {attributes : List Attribute} (hreader : ElementReader m)
    (hm : ReadsAs name attributes m R) (hc : c.event = .startElement name attributes)
    (h : m c = .ok a c') :
    ∃ t closing c'', AllStops closing ∧ (c'.event ≠ .endDocument → closing = [] ∧ c'' = c') ∧
      (c.facing (c.readings ++ closing)).Spans t c'' ∧ R t a := by
  by_cases hend : c'.AtEnd
  · obtain ⟨-, closing, -, hall, hclosed⟩ := hreader.closes (not_atEnd_of_start hc) h hend
    obtain ⟨d, _, hd, -, hevent⟩ := hclosed []
    rw [List.append_nil] at hd
    have hstart : (c.facing (c.readings ++ closing)).event = .startElement name attributes := hc
    obtain ⟨t, hspans, hread⟩ := hm.spans hstart hd (not_atEnd_of_stop hevent)
    exact ⟨t, closing, d, hall, fun hnot => absurd hend hnot, hspans, hread⟩
  · obtain ⟨t, hspans, hread⟩ := hm.spans hc h hend
    refine ⟨t, [], c', nofun, fun _ => ⟨rfl, rfl⟩, ?_, hread⟩
    rwa [List.append_nil, facing_self]

/-- What stands behind the end of an element does not count for what it is. -/
theorem Cursor.Spans.append {c d : Cursor} {t : MarkupTree} (h : c.Spans t d) (more : List Reading) :
    (c.facing (c.readings ++ more)).Spans t (d.facing (d.readings ++ more)) := by
  obtain ⟨hstart, inside, offset, name, ht, hr, hend⟩ := h
  exact ⟨hstart, inside, offset, name, ht, by simp [hr], hend⟩

/-! ### Acceptance -/

/-- At the start of the element the reading succeeds with this, and comes to the element's end. -/
def SucceedsOn (m : CursorM α) (t : MarkupTree) (a : α) : Prop :=
  ∀ ⦃c d : Cursor⦄, c.Spans t d → ∃ c', m c = .ok a c' ∧ c'.readings = d.readings ∧ c'.event = d.event

namespace SucceedsOn
variable {t : MarkupTree} {a : α}

/-- What always succeeds where the cursor is may come first. -/
theorem still_bind {m : CursorM β} {f : β → CursorM α} {b : β} (hm : ∀ c, m c = .ok b c)
    (hf : SucceedsOn (f b) t a) : SucceedsOn (m >>= f) t a := by
  intro c d h
  obtain ⟨c', hread, hend⟩ := hf h
  exact ⟨c', bind_eq_ok.2 ⟨b, c, hm c, hread⟩, hend⟩

/-- What always succeeds where the cursor is may come last. -/
theorem bind_still {m : CursorM α} {f : α → CursorM β} {b : β} (hm : SucceedsOn m t a)
    (hf : ∀ c, f a c = .ok b c) : SucceedsOn (m >>= f) t b := by
  intro c d h
  obtain ⟨c', hread, hend⟩ := hm h
  exact ⟨c', bind_eq_ok.2 ⟨a, c', hread, hf c'⟩, hend⟩

theorem map {m : CursorM α} {f : α → β} (hm : SucceedsOn m t a) : SucceedsOn (f <$> m) t (f a) := by
  rw [map_eq_pure_bind]
  exact hm.bind_still fun _ => rfl

end SucceedsOn

/-- Nodes without elements are told by text alone. -/
theorem Transcribes.spellsText {readings : List Reading} {nodes : List MarkupNode}
    (h : Transcribes readings nodes) (hleaf : MarkupNode.trees nodes = []) :
    SpellsText readings (MarkupNode.ownText nodes) := by
  induction h with
  | nil => exact .nil
  | ignored _ ih => exact (ih hleaf).ignored
  | text _ ih => exact (ih hleaf).text
  | element => cases hleaf

theorem SucceedsOn.elementText {t : MarkupTree} (hleaf : t.childElements = []) :
    SucceedsOn Cursor.elementText t (Text.trim t.ownText) := by
  rintro c d ⟨hstart, inside, offset, name, ht, hr, hend⟩
  refine ⟨c.moved offset (.endElement name) d.readings, ?_, rfl, hend.symm⟩
  exact Cursor.elementText_eq_ok_iff.2 ⟨⟨_, _, hstart⟩, inside, _, name, ht.spellsText hleaf, rfl,
    Cursor.reaches_stop_iff.2 ⟨offset, d.readings, hr, rfl⟩⟩

/-! ### Loops -/

section Loop
variable {body : Name → List Attribute → σ → CursorM σ} {R : σ → MarkupTree → σ → Prop}

/-- A loop whose body accepts each of the elements comes to the tag behind the last one. -/
theorem foldTags_of_transcribes
    (hbody : ∀ tree a a', R a tree a' → SucceedsOn (body tree.name tree.attributes a) tree a')
    {inside before rest : List Reading} {nodes : List MarkupNode} {a a' : σ} {c : Cursor} {offset rounds : Nat}
    {name : Name} (ht : Transcribes inside nodes) (hblank : Text.allBlank (MarkupNode.ownText nodes) = true)
    (h : Along R a ((MarkupNode.trees nodes).map .element) a') (hnot : ¬c.AtEnd) (hb : Spells before [])
    (hr : c.readings = before ++ (inside ++ ⟨offset, .ok (.stop name)⟩ :: rest))
    (hrounds : c.readings.length < rounds) :
    ∃ c', foldTags Cursor.nextTag body rounds a c = .ok (.stop name, a') c' ∧
      c'.readings = rest ∧ c'.event = .endElement name := by
  obtain _ | rounds := rounds
  · cases hrounds
  induction ht generalizing before a c rounds with
  | nil =>
    cases h
    have htag : Cursor.nextTag c = .ok (.stop name) _ := Cursor.nextTag_of_readings hnot hb rfl hr
    exact ⟨_, bind_eq_ok.2 ⟨_, _, htag, rfl⟩, rfl, rfl⟩
  | @ignored offset₁ _ _ _ ih =>
    have hbefore : Spells (before ++ [⟨offset₁, .ok .ignored⟩]) [] := hb.append (.ignored .nil)
    exact ih hblank h hnot hbefore (by simp [hr]) rounds hrounds
  | @text offset₁ piece _ _ _ ih =>
    rw [MarkupNode.ownText, Text.allBlank_append, Bool.and_eq_true] at hblank
    have hbefore : Spells (before ++ [⟨offset₁, .ok (.text piece)⟩]) [] := hb.append (.blank hblank.1 .nil)
    exact ih hblank.2 h hnot hbefore (by simp [hr]) rounds hrounds
  | @element offset₁ name₁ attributes inside₁ children offset₂ name₂ rest₁ nodes hi _ _ ih =>
    obtain _ | ⟨hR, hrest⟩ := h
    simp only [List.cons_append, List.append_assoc] at hr
    have htag : Cursor.nextTag c = .ok (.start name₁ attributes) _ :=
      Cursor.nextTag_of_readings hnot hb rfl hr
    have hspans : (c.moved offset₁ (.startElement name₁ attributes) (inside₁ ++
        ⟨offset₂, .ok (.stop name₂)⟩ :: (rest₁ ++ ⟨offset, .ok (.stop name)⟩ :: rest))).Spans
          ⟨name₁, attributes, children⟩
          (c.moved offset₂ (.endElement name₂) (rest₁ ++ ⟨offset, .ok (.stop name)⟩ :: rest)) :=
      ⟨rfl, inside₁, offset₂, name₂, hi, rfl, rfl⟩
    obtain ⟨c₁, hchild, hleft, hevent⟩ := hbody _ _ _ hR hspans
    have hfewer : c₁.readings.length < rounds := by
      rw [hr] at hrounds
      rw [hleft, Cursor.moved_readings]
      simp only [List.length_append, List.length_cons] at hrounds ⊢
      omega
    obtain _ | rounds := rounds
    · cases hfewer
    obtain ⟨c', hloop, hend⟩ := ih hblank hrest (Cursor.not_atEnd_of_stop hevent) .nil hleft rounds hfewer
    exact ⟨c', bind_eq_ok.2 ⟨_, _, htag, bind_eq_ok.2 ⟨_, c₁, hchild, hloop⟩⟩, hend⟩

/-- A loop over children accepts an element when its body accepts the children. -/
theorem SucceedsOn.foldChildren_bind {t : MarkupTree} {a a' : σ} {f : Tag × σ → CursorM β} {b : β}
    (hbody : ∀ tree a a', R a tree a' → SucceedsOn (body tree.name tree.attributes a) tree a')
    (hblank : Text.allBlank t.ownText = true) (h : Along R a (t.childElements.map .element) a')
    (hf : ∀ tag c, f (tag, a') c = .ok b c) : SucceedsOn (Cursor.foldChildren body a >>= f) t b := by
  rintro c d ⟨hstart, inside, offset, name, ht, hr, hend⟩
  obtain ⟨c', hloop, hleft, hevent⟩ := foldTags_of_transcribes hbody ht hblank h
    (Cursor.not_atEnd_of_start hstart) .nil hr c.length_lt_rounds
  exact ⟨c', bind_eq_ok.2 ⟨_, c', hloop, hf _ c'⟩, hleft, hevent.trans hend.symm⟩

/-- Children one after another, each adding one thing to a list kept the latest first. -/
theorem Along.of_forall₂ {S : MarkupTree → β → Prop} {trees : List MarkupTree} {bs : List β}
    (h : List.Forall₂ S trees bs) (found : List β) :
    Along (fun found t found' => ∃ b, found' = b :: found ∧ S t b) found (trees.map .element)
      (bs.reverse ++ found) := by
  induction h generalizing found with
  | nil => exact .nil
  | @cons _ b _ _ hb _ ih =>
    rw [List.reverse_cons, List.append_assoc]
    exact .cons ⟨b, rfl, hb⟩ (ih (b :: found))

end Loop

end FeatureMarkup

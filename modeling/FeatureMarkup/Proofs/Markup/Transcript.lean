import Mathlib.Data.List.Forall2
import FeatureMarkup.Proofs.Cursor.OneElement

/-! Readings taken down with every text among them.

A tree that is captured has no blank text, and `Spells` leaves it out too. Where the texts of
an element are joined a blank one counts, so here is the other way to tell of readings: each
text is a node, and the markup that readings tell of is determined. What a reader makes of an
element is then a relation to the whole of it, `ReadsAs`, which a loop over children carries
from the children to the element around them. -/
namespace FeatureMarkup

open Xml (Attribute Reading)

/-! ### Nodes of an element -/

/-- The elements among nodes. -/
def MarkupNode.trees (nodes : List MarkupNode) : List MarkupTree :=
  nodes.filterMap fun
    | .element tree => some tree
    | .text _ => none

/-- The texts among nodes, joined, without what is inside elements. -/
def MarkupNode.ownText : List MarkupNode → String
  | [] => ""
  | .text piece :: rest => piece ++ ownText rest
  | .element _ :: rest => ownText rest

/-- The text that stands in an element itself. -/
def MarkupTree.ownText (t : MarkupTree) : String := MarkupNode.ownText t.children

theorem MarkupTree.childElements_eq (t : MarkupTree) : t.childElements = MarkupNode.trees t.children :=
  rfl

namespace MarkupNode

@[simp] theorem trees_nil : trees [] = [] := rfl
@[simp] theorem trees_text (text : String) (rest : List MarkupNode) :
    trees (.text text :: rest) = trees rest := rfl
@[simp] theorem trees_element (tree : MarkupTree) (rest : List MarkupNode) :
    trees (.element tree :: rest) = tree :: trees rest := rfl
@[simp] theorem trees_append (nodes more : List MarkupNode) :
    trees (nodes ++ more) = trees nodes ++ trees more := List.filterMap_append

theorem ownText_append (nodes more : List MarkupNode) :
    ownText (nodes ++ more) = ownText nodes ++ ownText more := by
  induction nodes with
  | nil => simp [ownText]
  | cons node nodes ih => cases node <;> simp [ownText, ih, String.append_assoc]

end MarkupNode

/-! ### Transcripts -/

/-- Readings that tell of a run of nodes, every text being a node. -/
inductive Transcribes : List Reading → List MarkupNode → Prop where
  | nil : Transcribes [] []
  | ignored {offset rest nodes} : Transcribes rest nodes →
      Transcribes (⟨offset, .ok .ignored⟩ :: rest) nodes
  | text {offset text rest nodes} : Transcribes rest nodes →
      Transcribes (⟨offset, .ok (.text text)⟩ :: rest) (.text text :: nodes)
  | element {offset name attributes inside children offset' name' rest nodes} :
      Transcribes inside children → Transcribes rest nodes →
      Transcribes (⟨offset, .ok (.start name attributes)⟩ :: inside ++
        ⟨offset', .ok (.stop name')⟩ :: rest) (.element ⟨name, attributes, children⟩ :: nodes)

namespace Transcribes

theorem append {a b : List Reading} {ns ms : List MarkupNode} (h : Transcribes a ns)
    (h' : Transcribes b ms) : Transcribes (a ++ b) (ns ++ ms) := by
  induction h with
  | nil => exact h'
  | ignored _ ih => exact ih.ignored
  | text _ ih => exact ih.text
  | element hi _ _ ih => simpa using Transcribes.element hi ih

/-- What is taken down is spelled, without its blank text. -/
theorem spells {readings : List Reading} {nodes : List MarkupNode} (h : Transcribes readings nodes) :
    ∃ spelled, Spells readings spelled := by
  induction h with
  | nil => exact ⟨[], .nil⟩
  | ignored _ ih =>
    obtain ⟨spelled, hs⟩ := ih
    exact ⟨spelled, hs.ignored⟩
  | @text offset text _ _ _ ih =>
    obtain ⟨spelled, hs⟩ := ih
    cases hblank : Text.allBlank text with
    | true => exact ⟨spelled, hs.blank hblank⟩
    | false => exact ⟨_, hs.text hblank⟩
  | element _ _ ihi ihr =>
    obtain ⟨children, hi⟩ := ihi
    obtain ⟨spelled, hs⟩ := ihr
    exact ⟨_, .element hi hs⟩

theorem endsElement {inside : List Reading} {children : List MarkupNode}
    (h : Transcribes inside children) (offset : Nat) (name : Name) :
    EndsElement (inside ++ [⟨offset, .ok (.stop name)⟩]) := by
  obtain ⟨spelled, hs⟩ := h.spells
  exact hs.endsElement offset name

end Transcribes

/-- Readings end the element that is open before them in one way only. -/
theorem EndsElement.unique {a b rest rest' : List Reading} (ha : EndsElement a) (hb : EndsElement b)
    (h : a ++ rest = b ++ rest') : a = b := by
  have hends {a b : List Reading} (ha : EndsElement a) (hb : EndsElement b) (hp : a <+: b) : a = b := by
    refine Classical.byContradiction fun hne => ?_
    have hopen := hb.still_open a hp hne
    have hended := ha.ended
    omega
  rcases List.prefix_or_prefix_of_prefix (List.prefix_append a rest)
    (h ▸ List.prefix_append b rest') with hp | hp
  · exact hends ha hb hp
  · exact (hends hb ha hp).symm

/-- Readings tell of one run of nodes only. -/
theorem Transcribes.unique {readings : List Reading} {nodes nodes' : List MarkupNode}
    (h : Transcribes readings nodes) (h' : Transcribes readings nodes') : nodes = nodes' := by
  induction h generalizing nodes' with
  | nil => cases h'; rfl
  | ignored _ ih =>
    cases h' with
    | ignored h' => exact ih h'
  | text _ ih =>
    cases h' with
    | text h' => rw [ih h']
  | @element offset name attributes inside children offset₁ name₁ rest nodes hi _ ihi ihr =>
    generalize hr : (⟨offset, .ok (.start name attributes)⟩ :: inside ++
      ⟨offset₁, .ok (.stop name₁)⟩ :: rest : List Reading) = readings at h'
    cases h' with
    | nil | ignored | text => cases hr
    | @element _ _ _ inside' _ offset₂ name₂ rest' _ hi' hr' =>
      simp only [List.cons_append, List.cons.injEq, Reading.mk.injEq, Except.ok.injEq,
        Xml.Content.start.injEq] at hr
      obtain ⟨⟨-, rfl, rfl⟩, hsame⟩ := hr
      have hwhole : (inside ++ [⟨offset₁, .ok (.stop name₁)⟩]) ++ rest =
          (inside' ++ [⟨offset₂, .ok (.stop name₂)⟩]) ++ rest' := by simpa using hsame
      have hinside := EndsElement.unique (hi.endsElement offset₁ name₁) (hi'.endsElement offset₂ name₂) hwhole
      rw [hinside] at hwhole
      obtain rfl := List.append_cancel_left hwhole
      obtain ⟨rfl, -⟩ := List.append_inj' hinside rfl
      rw [ihi hi', ihr hr']

/-- Text alone is taken down as text. -/
theorem SpellsText.transcribes {readings : List Reading} {joined : String}
    (h : SpellsText readings joined) :
    ∃ nodes, Transcribes readings nodes ∧ MarkupNode.trees nodes = [] ∧
      MarkupNode.ownText nodes = joined := by
  induction h with
  | nil => exact ⟨[], .nil, rfl, rfl⟩
  | ignored _ ih =>
    obtain ⟨nodes, hnodes, hrest⟩ := ih
    exact ⟨nodes, hnodes.ignored, hrest⟩
  | text _ ih =>
    obtain ⟨nodes, hnodes, htrees, htext⟩ := ih
    exact ⟨_, hnodes.text, htrees, by rw [MarkupNode.ownText, htext]⟩

/-- What spells no nodes is taken down as blank text. -/
theorem Spells.transcribes_blank {readings : List Reading} (h : Spells readings []) :
    ∃ nodes, Transcribes readings nodes ∧ MarkupNode.trees nodes = [] ∧
      Text.allBlank (MarkupNode.ownText nodes) = true := by
  generalize hnodes : ([] : List MarkupNode) = spelled at h
  induction h with
  | nil => exact ⟨[], .nil, rfl, rfl⟩
  | ignored _ ih =>
    obtain ⟨nodes, h, hrest⟩ := ih hnodes
    exact ⟨nodes, h.ignored, hrest⟩
  | blank hblank _ ih =>
    obtain ⟨nodes, h, htrees, htext⟩ := ih hnodes
    exact ⟨_, h.text, htrees, by rw [MarkupNode.ownText, Text.allBlank_append, hblank, htext]; rfl⟩
  | text | element => cases hnodes

/-- Any nodes can be taken down. -/
theorem MarkupNode.transcribes_readingsOf :
    ∀ nodes : List MarkupNode, Transcribes (MarkupNode.readingsOf nodes) nodes
  | [] => .nil
  | .text _ :: rest => .text (transcribes_readingsOf rest)
  | .element ⟨_, _, children⟩ :: rest => by
    rw [MarkupNode.readingsOf, MarkupNode.readings, MarkupTree.readings, List.append_assoc,
      List.singleton_append]
    exact .element (transcribes_readingsOf children) (transcribes_readingsOf rest)

/-! ### Readers of whole elements -/

variable {α β σ : Type}

/-- From the start of an element a reading comes to its end, and what it reads stands in a
relation to the element with all that is in it. -/
structure ReadsAs (name : Name) (attributes : List Attribute) (m : CursorM α)
    (R : MarkupTree → α → Prop) : Prop where
  forward : Forward m
  whole : Carries (· = .startElement name attributes) m
    (ToStop fun inside a => ∃ children, Transcribes inside children ∧ R ⟨name, attributes, children⟩ a)

namespace ReadsAs
variable {name : Name} {attributes : List Attribute} {m : CursorM α} {R : MarkupTree → α → Prop}

theorem mono {R' : MarkupTree → α → Prop} (hm : ReadsAs name attributes m R)
    (h : ∀ children a, R ⟨name, attributes, children⟩ a → R' ⟨name, attributes, children⟩ a) :
    ReadsAs name attributes m R' where
  forward := hm.forward
  whole := hm.whole.weaken fun taken a e hstop => hstop.mono fun inside hR => by
    obtain ⟨children, ht, hR⟩ := hR
    exact ⟨children, ht, h children a hR⟩

theorem fail (cause : Cause) : ReadsAs name attributes (Cursor.fail cause : CursorM α) R where
  forward := .fail cause
  whole := fun _ _ _ _ h => absurd h Cursor.fail_ne_ok

/-- What takes nothing may come first, and what is known of it is known behind it. -/
theorem still_bind_of {f : β → CursorM α} {m : CursorM β} {P : β → Prop} (hm : Still m)
    (hP : ∀ c b c', m c = .ok b c' → P b) (hf : ∀ b, P b → ReadsAs name attributes (f b) R) :
    ReadsAs name attributes (m >>= f) R where
  forward := by
    intro c a c' h
    obtain ⟨b, c₁, hb, h⟩ := bind_eq_ok.1 h
    exact (hm.forward hb).trans ((hf b (hP _ _ _ hb)).forward h)
  whole := Carries.still_bind hm fun _ b _ _ hb => (hf b (hP _ _ _ hb)).whole

/-- What takes nothing may come first. -/
theorem still_bind {f : β → CursorM α} {m : CursorM β} (hm : Still m)
    (hf : ∀ b, ReadsAs name attributes (f b) R) : ReadsAs name attributes (m >>= f) R :=
  still_bind_of (P := fun _ => True) hm (fun _ _ _ _ => trivial) fun b _ => hf b

/-- What takes nothing may come last. -/
theorem bind_still {f : α → CursorM β} {R' : MarkupTree → β → Prop}
    (hm : ReadsAs name attributes m R) (hstill : ∀ a, Still (f a))
    (hf : ∀ children a c b c', R ⟨name, attributes, children⟩ a → f a c = .ok b c' →
      R' ⟨name, attributes, children⟩ b) : ReadsAs name attributes (m >>= f) R' where
  forward := hm.forward.bind fun a => (hstill a).forward
  whole := Carries.bind_still hm.whole hstill fun taken a e c b c' hstop h => by
    obtain ⟨inside, offset, name', rfl, he, children, ht, hR⟩ := hstop
    exact ⟨inside, offset, name', rfl, he, children, ht, hf children a c b c' hR h⟩

theorem bind_pure {f : α → β} {R' : MarkupTree → β → Prop} (hm : ReadsAs name attributes m R)
    (h : ∀ children a, R ⟨name, attributes, children⟩ a → R' ⟨name, attributes, children⟩ (f a)) :
    ReadsAs name attributes (m >>= fun a => pure (f a)) R' := by
  refine hm.bind_still (fun a => .pure _) fun children a c b c' hR hb => ?_
  obtain ⟨rfl, -⟩ := pure_eq_ok.1 hb
  exact h children a hR

theorem map {f : α → β} {Q : MarkupTree → β → Prop} (hm : ReadsAs name attributes m R)
    (h : ∀ children a, R ⟨name, attributes, children⟩ a → Q ⟨name, attributes, children⟩ (f a)) :
    ReadsAs name attributes (f <$> m) Q := by
  rw [map_eq_pure_bind]
  exact hm.bind_pure h

/-- A condition is looked at before an element is read. -/
theorem guard {p : Prop} [Decidable p] {cause : Cause} (hm : ¬p → ReadsAs name attributes m R) :
    ReadsAs name attributes (if p then Cursor.fail cause >>= fun _ : Unit => m else m) R := by
  by_cases hp : p
  · rw [if_pos hp]
    have hnever {c a c'} : (Cursor.fail cause >>= fun _ : Unit => m) c ≠ .ok a c' := by
      intro h
      obtain ⟨_, _, hfail, -⟩ := bind_eq_ok.1 h
      exact Cursor.fail_ne_ok hfail
    exact ⟨fun _ _ _ h => absurd h hnever, fun _ _ _ _ h => absurd h hnever⟩
  · rw [if_neg hp]
    exact hm hp

/-- What reads one element and comes where another reading does reads the same element. -/
theorem of_reads {m' : CursorM β} {R' : MarkupTree → β → Prop} (hm : ReadsElement m)
    (hm' : ReadsAs name attributes m' R')
    (h : ∀ c a c', m c = .ok a c' → ∃ b, m' c = .ok b c' ∧
      ∀ children, R' ⟨name, attributes, children⟩ b → R ⟨name, attributes, children⟩ a) :
    ReadsAs name attributes m R where
  forward := hm.forward
  whole := by
    intro c a c' hc hread
    obtain ⟨b, hread', himp⟩ := h c a c' hread
    rcases hm'.whole hc hread' with hend | ⟨taken', htakes', hstop⟩
    · exact .inl hend
    rcases hm.toEnd name attributes hc hread with hend | ⟨taken, htakes, -⟩
    · exact .inl hend
    have hsame : taken = taken' := List.append_cancel_right (htakes.left.symm.trans htakes'.left)
    obtain ⟨inside, offset, name', htaken, he, children, ht, hR⟩ := hstop
    exact .inr ⟨taken, htakes, inside, offset, name', hsame.trans htaken, he, children, ht,
      himp children hR⟩

/-- An element with nothing but text in it. -/
theorem elementText : ReadsAs name attributes Cursor.elementText fun t text =>
    t.childElements = [] ∧ text = Text.trim t.ownText where
  forward := .elementText
  whole := Carries.elementText_stop.weaken fun taken text e hstop => hstop.mono fun inside htext => by
    obtain ⟨joined, hs, rfl⟩ := htext
    obtain ⟨children, ht, htrees, rfl⟩ := hs.transcribes
    exact ⟨children, ht, htrees, rfl⟩

end ReadsAs

/-! ### Loops over children -/

section Loop
variable {R : σ → MarkupTree → σ → Prop} {a a' : σ}

/-- What holds before the first child and is kept by each holds after the last. -/
theorem Along.invariant {P : List MarkupTree → σ → Prop} {trees : List MarkupTree}
    (h : Along R a (trees.map .element) a') (start : P [] a)
    (step : ∀ done tree a₁ a₂, P done a₁ → R a₁ tree a₂ → P (done ++ [tree]) a₂) : P trees a' := by
  suffices hall : ∀ done, P done a → P (done ++ trees) a' from hall [] start
  clear start
  induction trees generalizing a with
  | nil =>
    cases h
    intro done hdone
    rwa [List.append_nil]
  | cons tree trees ih =>
    cases h with
    | cons hR hrest =>
      intro done hdone
      have hlater := ih hrest (done ++ [tree]) (step done tree _ _ hdone hR)
      rwa [List.append_assoc, List.singleton_append] at hlater

/-- What holds of every child that a round is made for holds of all children. -/
theorem Along.forall_mem {P : MarkupTree → Prop} {trees : List MarkupTree}
    (h : Along R a (trees.map .element) a') (step : ∀ tree a₁ a₂, R a₁ tree a₂ → P tree) :
    ∀ tree ∈ trees, P tree :=
  h.invariant (P := fun done _ => ∀ tree ∈ done, P tree) nofun fun _ tree a₁ a₂ hdone hR =>
    List.forall_mem_append.2 ⟨hdone, List.forall_mem_singleton.2 (step tree a₁ a₂ hR)⟩

/-- A loop that adds one thing for each child has added one for each in the end. -/
theorem Along.forall₂ {S : MarkupTree → β → Prop} {trees : List MarkupTree} {found found' : List β}
    (h : Along (fun bs tree bs' => ∃ b, bs' = bs ++ [b] ∧ S tree b) found (trees.map .element) found') :
    ∃ more, found' = found ++ more ∧ List.Forall₂ S trees more := by
  refine h.invariant (P := fun done bs => ∃ more, bs = found ++ more ∧ List.Forall₂ S done more)
    ⟨[], by simp, .nil⟩ fun done tree bs bs' hdone hstep => ?_
  obtain ⟨more, rfl, hmore⟩ := hdone
  obtain ⟨b, rfl, hb⟩ := hstep
  exact ⟨more ++ [b], by simp, List.rel_append hmore (.cons hb .nil)⟩

/-- Children whose readings are taken down are followed along the elements that they are, and
nothing but blank text stands around them. -/
theorem Children.transcribed {inside : List Reading}
    (h : Children (fun name attributes a inside a' =>
      ∃ children, Transcribes inside children ∧ R a ⟨name, attributes, children⟩ a') a inside a') :
    ∃ nodes, Transcribes inside nodes ∧ Text.allBlank (MarkupNode.ownText nodes) = true ∧
      Along R a ((MarkupNode.trees nodes).map .element) a' := by
  induction h with
  | nil hb =>
    obtain ⟨nodes, ht, htrees, hblank⟩ := hb.transcribes_blank
    refine ⟨nodes, ht, hblank, ?_⟩
    rw [htrees]
    exact .nil
  | cons hb hQ _ ih =>
    obtain ⟨blank, hblank, htrees, htext⟩ := hb.transcribes_blank
    obtain ⟨children, hi, hR⟩ := hQ
    obtain ⟨nodes, ht, hrest, halong⟩ := ih
    refine ⟨_, by simpa using hblank.append (.element hi ht), ?_, ?_⟩
    · rw [MarkupNode.ownText_append, Text.allBlank_append, htext]
      exact hrest
    · rw [MarkupNode.trees_append, htrees]
      exact .cons hR halong

/-- What a loop makes of the children of an element follows from what its body makes of each. -/
theorem ReadsAs.foldChildren {body : Name → List Attribute → σ → CursorM σ} {name : Name}
    {attributes : List Attribute}
    (hbody : ∀ name attributes a, ReadsAs name attributes (body name attributes a) (R a)) (a : σ) :
    ReadsAs name attributes (Cursor.foldChildren body a) fun t r =>
      Text.allBlank t.ownText = true ∧ Along R a (t.childElements.map .element) r.2 where
  forward := .foldChildren (fun name attributes a => (hbody name attributes a).forward) a
  whole := by
    have hloop := Carries.foldTags_children (fun name attributes a => (hbody name attributes a).forward)
      (fun name attributes a => (hbody name attributes a).whole) a
    rw [Tape.run_cursor] at hloop
    refine (hloop.strengthen fun e he => by rw [he]; nofun).weaken fun taken r e h => ?_
    exact h.1.mono fun inside hchildren => hchildren.transcribed

end Loop

/-! ### Elements between cursors -/

namespace Cursor

/-- The first cursor is at the start of the element and the second one at its end. -/
def Spans (c : Cursor) (t : MarkupTree) (c' : Cursor) : Prop :=
  c.event = .startElement t.name t.attributes ∧ ∃ inside offset name, Transcribes inside t.children ∧
    c.readings = inside ++ ⟨offset, .ok (.stop name)⟩ :: c'.readings ∧ c'.event = .endElement name

/-- A cursor is at the start of one element only. -/
theorem Spans.unique {c c₁ c₂ : Cursor} {t₁ t₂ : MarkupTree} (h₁ : c.Spans t₁ c₁) (h₂ : c.Spans t₂ c₂) :
    t₁ = t₂ := by
  obtain ⟨hstart₁, inside₁, offset₁, name₁, ht₁, hr₁, -⟩ := h₁
  obtain ⟨hstart₂, inside₂, offset₂, name₂, ht₂, hr₂, -⟩ := h₂
  have hwhole : inside₁ ++ [⟨offset₁, .ok (.stop name₁)⟩] ++ c₁.readings =
      inside₂ ++ [⟨offset₂, .ok (.stop name₂)⟩] ++ c₂.readings := by
    simpa using hr₁.symm.trans hr₂
  have hsame := EndsElement.unique (ht₁.endsElement offset₁ name₁) (ht₂.endsElement offset₂ name₂) hwhole
  obtain ⟨rfl, -⟩ := List.append_inj' hsame rfl
  obtain ⟨name, attributes, children⟩ := t₁
  obtain ⟨name', attributes', children'⟩ := t₂
  cases hstart₁.symm.trans hstart₂
  rw [show children = children' from ht₁.unique ht₂]

/-- The cursor at the start of an element that is all there is to read. -/
def atTree (t : MarkupTree) : Cursor :=
  (ofReadings []).moved 0 (.startElement t.name t.attributes)
    (MarkupNode.readingsOf t.children ++ [⟨0, .ok (.stop t.name)⟩])

theorem spans_atTree {t : MarkupTree} {c : Cursor} (hleft : c.readings = [])
    (hevent : c.event = .endElement t.name) : (atTree t).Spans t c :=
  ⟨rfl, _, 0, t.name, MarkupNode.transcribes_readingsOf t.children, by rw [hleft]; rfl, hevent⟩

end Cursor

/-- A reading that has not come to the end of the document has read the element that the cursor
was at the start of. -/
theorem ReadsAs.spans {m : CursorM α} {R : MarkupTree → α → Prop} {c c' : Cursor} {a : α} {name : Name}
    {attributes : List Attribute} (hm : ReadsAs name attributes m R)
    (hc : c.event = .startElement name attributes) (h : m c = .ok a c') (hnot : ¬c'.AtEnd) :
    ∃ t, c.Spans t c' ∧ R t a := by
  rcases hm.whole hc h with hend | ⟨_, htakes, inside, offset, name', rfl, hevent, children, ht, hR⟩
  · exact absurd hend hnot
  · refine ⟨⟨name, attributes, children⟩, ⟨hc, inside, offset, name', ht, ?_, hevent⟩, hR⟩
    simpa [Tape.left] using htakes.left

end FeatureMarkup

import FeatureMarkup.Proofs.Reference.Standing

/-! What is done to a registry while others look at it.

A registry only grows: `Continues` says that what is there stays in its place and that, if all
features own the links among their properties, they still do. The links of the feature that is
being read have no owner yet (`Fresh`); it gets them when it is complete, and then an id that is
registered already stays with the feature that has it (`Refuses`). -/
namespace FeatureMarkup

variable {κ : Type}

namespace Registry

/-! ### What stays -/

/-- What one registry has, the other has in the same place. -/
structure Extends (a b : Registry κ) : Prop where
  features : a.features <+: b.features
  links : a.links <+: b.links
  pending : a.pending <+: b.pending

/-- The links among a feature's own properties have the feature as their owner. -/
def Owns (b : Registry κ) (f : Feature κ) : Prop :=
  ∀ number ∈ f.links, ∃ l, b.links[number]? = some l ∧ l.owner = .bound f

/-- Every registered feature has an id of its own and owns its links. -/
structure Orderly (b : Registry κ) : Prop where
  distinct : b.Distinct
  owns : ∀ f ∈ b.features, b.Owns f

/-- What there is stays, and stays in order. -/
structure Continues (a b : Registry κ) : Prop where
  extended : a.Extends b
  orderly : a.Orderly → b.Orderly

/-- A link that has been made since the registry was as the first, and has no owner yet. -/
def Fresh (a b : Registry κ) (number : Nat) : Prop :=
  a.links.length ≤ number ∧ ∃ l, b.links[number]? = some l ∧ l.owner = .unset

/-- If an error says that an id is registered already, another feature has kept it. -/
def Refuses (a : Registry κ) (e : ReadError) (b : Registry κ) : Prop :=
  ∀ id position, e = .located (.duplicateFeatureId id) position →
    ∃ refused middle kept, a.Extends middle ∧ refused.id = id ∧ middle.feature? id = some kept ∧
      b = middle.bindLinks refused ∧ b.register refused = .error ⟨id⟩ ∧ b.feature? id = some kept

variable {a b c : Registry κ} {f : Feature κ} {number : Nat} {e : ReadError}

namespace Extends

theorem refl (a : Registry κ) : a.Extends a :=
  ⟨List.prefix_refl _, List.prefix_refl _, List.prefix_refl _⟩

theorem trans (h : a.Extends b) (h' : b.Extends c) : a.Extends c :=
  ⟨h.features.trans h'.features, h.links.trans h'.links, h.pending.trans h'.pending⟩

theorem getElem?_links (h : a.Extends b) {l : Link κ} (hl : a.links[number]? = some l) : b.links[number]? = some l := by
  obtain ⟨more, hmore⟩ := h.links
  obtain ⟨hlt, -⟩ := List.getElem?_eq_some_iff.1 hl
  rw [← hmore, List.getElem?_append_left hlt, hl]

theorem owns (h : a.Extends b) (hf : a.Owns f) : b.Owns f := by
  intro number hnumber
  obtain ⟨l, hl, howner⟩ := hf number hnumber
  exact ⟨l, h.getElem?_links hl, howner⟩

theorem fresh (h : b.Extends c) (hfresh : a.Fresh b number) : a.Fresh c number := by
  obtain ⟨hle, l, hl, howner⟩ := hfresh
  exact ⟨hle, l, h.getElem?_links hl, howner⟩

/-- More links and references that wait change nothing for the features. -/
theorem continues (h : a.Extends b) (hfeatures : b.features = a.features) : a.Continues b := by
  refine ⟨h, fun ha => ⟨ha.distinct.of_features hfeatures, fun f hf => ?_⟩⟩
  rw [hfeatures] at hf
  exact h.owns (ha.owns f hf)

end Extends

namespace Continues

theorem refl (a : Registry κ) : a.Continues a := (Extends.refl a).continues rfl

theorem trans (h : a.Continues b) (h' : b.Continues c) : a.Continues c :=
  ⟨h.extended.trans h'.extended, fun ha => h'.orderly (h.orderly ha)⟩

end Continues

/-- A fresh link is fresh also to one who looks from further back. -/
theorem Fresh.of_extends (h : a.Extends b) (hfresh : b.Fresh c number) : a.Fresh c number :=
  ⟨Nat.le_trans h.links.length_le hfresh.1, hfresh.2⟩

theorem Refuses.of_extends (h : a.Extends b) (hrefuses : b.Refuses e c) : a.Refuses e c := by
  intro id position he
  obtain ⟨refused, middle, kept, hmiddle, hgiven⟩ := hrefuses id position he
  exact ⟨refused, middle, kept, h.trans hmiddle, hgiven⟩

theorem orderly_empty : (empty : Registry κ).Orderly := ⟨distinct_empty, nofun⟩

/-! ### What is done to a registry -/

/-- A reference adds one link, without an owner. -/
theorem continues_refer {ownerId targetId : String} {property : Name} {occurrence : Nat}
    (h : b.refer ownerId property occurrence targetId = (number, c)) :
    b.Continues c ∧ b.Fresh c number := by
  obtain ⟨link, -, hadds⟩ := Adds.refer h
  have hlinks : c.links = b.links ++ [link] := hadds.links
  have hnumber : number = b.links.length := hadds.number_eq (k := 0) rfl
  have hunset : link.owner = .unset := (hadds.sound _ List.mem_cons_self).owner
  have hextends : b.Extends c :=
    ⟨⟨_, hadds.features.symm⟩, ⟨_, hadds.links.symm⟩, ⟨_, hadds.pending.symm⟩⟩
  refine ⟨hextends.continues (by simpa using hadds.features), Nat.le_of_eq hnumber.symm, link, ?_,
    hunset⟩
  rw [hlinks, hnumber, List.getElem?_concat_length]

/-- A feature becomes the owner of links that are its own. -/
theorem owns_bindLinks (h : ∀ number ∈ f.links, a.Fresh b number) : (b.bindLinks f).Owns f := by
  intro number hnumber
  obtain ⟨-, l, hl, howner⟩ := h number hnumber
  refine ⟨l.bindOwner f, ?_, ?_⟩
  · rw [(b.bindLinks_eq f).2.2, if_pos hnumber, hl]
    rfl
  · rw [Link.bindOwner, howner]
    rfl

theorem continues_bindLinks (h : a.Continues b) (hfresh : ∀ number ∈ f.links, a.Fresh b number) :
    a.Continues (b.bindLinks f) := by
  obtain ⟨hfeatures, hpending, hlinks⟩ := b.bindLinks_eq f
  refine ⟨⟨?_, ?_, ?_⟩, fun ha => ?_⟩
  · rw [hfeatures]
    exact h.extended.features
  · apply List.prefix_iff_getElem?.2
    intro i hlt
    have hold : i ∉ f.links := fun hi => absurd (hfresh i hi).1 (Nat.not_le.2 hlt)
    rw [hlinks, if_neg hold]
    exact h.extended.getElem?_links (List.getElem?_eq_getElem hlt)
  · rw [hpending]
    exact h.extended.pending
  · obtain ⟨hdistinct, howns⟩ := h.orderly ha
    refine ⟨hdistinct.of_features hfeatures, fun g hg number hnumber => ?_⟩
    rw [hfeatures] at hg
    obtain ⟨l, hl, howner⟩ := howns g hg number hnumber
    refine ⟨l, ?_, howner⟩
    rw [hlinks]
    split
    · rw [hl, Option.map_some, Link.bindOwner_of_set (by rw [howner]; nofun)]
    · exact hl

theorem continues_register (h : a.Continues b) (hf : b.Owns f) (hregister : b.register f = .ok c) :
    a.Continues c ∧ (f.id ≠ "" → c.features.getLast? = some f) := by
  rcases register_eq_ok.1 hregister with ⟨hid, rfl⟩ | ⟨-, -, rfl⟩
  · exact ⟨h, fun hne => absurd hid hne⟩
  · refine ⟨⟨h.extended.trans ⟨List.prefix_append _ _, List.prefix_refl _, List.prefix_refl _⟩, ?_⟩,
      fun _ => List.getLast?_concat⟩
    intro ha
    obtain ⟨hdistinct, howns⟩ := h.orderly ha
    refine ⟨hdistinct.register hregister, fun g hg => ?_⟩
    rcases List.mem_append.1 hg with hg | hg
    · exact howns g hg
    · rw [List.mem_singleton.1 hg]
      exact hf

/-- A feature that is refused leaves its id to the one that has it. -/
theorem refuses_register {d : DuplicateId} (h : a.Extends b)
    (hregister : (b.bindLinks f).register f = .error d) (position : Position) :
    a.Refuses (.located (.duplicateFeatureId d.id) position) (b.bindLinks f) := by
  intro id _ he
  obtain ⟨-, hmem, rfl⟩ := register_eq_error.1 hregister
  obtain ⟨rfl⟩ : f.id = id := by
    injection he with hcause
    injection hcause
  have hfeature? : (b.bindLinks f).feature? f.id = b.feature? f.id := by
    rw [feature?, (b.bindLinks_eq f).1, feature?]
  obtain ⟨kept, hkept⟩ := Option.isSome_iff_exists.1 (contains_iff_mem_ids.2 hmem)
  exact ⟨f, b, kept, h, rfl, hfeature?.symm.trans hkept, rfl, hregister, hkept⟩

/-- Settling writes targets only. -/
theorem settleAll_owners (r : Registry κ) (ws : List PendingLink) (number : Nat) :
    (r.settleAll ws).1.links[number]?.map (·.owner) = r.links[number]?.map (·.owner) := by
  induction ws generalizing r with
  | nil => rfl
  | cons w rest ih =>
    have hone : (r.settleOne w).1.links[number]?.map (·.owner) =
        r.links[number]?.map (·.owner) := by
      unfold settleOne
      cases r.feature? w.targetId with
      | none => rfl
      | some target =>
        simp only [modifyLink, List.getElem?_modify]
        cases r.links[number]? with
        | none => rfl
        | some l => by_cases hnumber : w.number = number <;> simp [hnumber, Link.resolve]
    rw [← hone]
    exact ih (r.settleOne w).1

theorem Orderly.settle (h : a.Orderly) : a.settle.1.Orderly := by
  have hfeatures : a.settle.1.features = a.features := (settleAll_features _ a.pending).1
  refine ⟨h.distinct.of_features hfeatures, fun f hf number hnumber => ?_⟩
  rw [hfeatures] at hf
  obtain ⟨l, hl, howner⟩ := h.owns f hf number hnumber
  have howners := settleAll_owners { a with pending := [] } a.pending number
  rw [show ({ a with pending := [] } : Registry κ).links[number]? = some l from hl] at howners
  obtain ⟨l', hl', howner'⟩ := Option.map_eq_some_iff.1 howners
  exact ⟨l', hl', howner'.trans howner⟩

end Registry

end FeatureMarkup

import FeatureMarkup.Proofs.Reference.Growth

/-! What a registry keeps whatever is done to it.

Every registered feature has an id of its own, a link that has a target has the registered
feature it asks for, and what waits are links without one, each once. That is `Coherent`;
registering, referring, writing owners and settling all keep it. Settling changes the links
that wait and no others. -/
namespace FeatureMarkup

variable {κ : Type}

/-- The report on a reference that waits. -/
def PendingLink.report (w : PendingLink) : DanglingReference :=
  ⟨w.targetId, w.ownerId, w.property, w.occurrence⟩

theorem Link.target_of_not_isResolved {l : Link κ} (h : l.isResolved = false) :
    l.target = .unset := by
  obtain ⟨targetId, owner, target⟩ := l
  cases target with
  | unset => rfl
  | bound | expired => cases h

namespace Registry
variable {r r' : Registry κ} {n : Nat} {l : Link κ}

/-- The numbers of the links that wait. -/
def waiting (r : Registry κ) : List Nat :=
  r.pending.map (·.number)

/-- A registry that is in order. -/
structure Coherent (r : Registry κ) : Prop where
  distinct : r.Distinct
  /-- A target is the registered feature that has the id asked for. -/
  targets : ∀ (n : Nat) (l : Link κ), r.links[n]? = some l →
    l.target = .unset ∨ ∃ t, r.feature? l.targetId = some t ∧ l.target = .bound t
  /-- What waits is a link without a target. -/
  waits : ∀ w ∈ r.pending, ∃ l : Link κ, r.links[w.number]? = some l ∧
    l.targetId = w.targetId ∧ l.target = .unset
  once : r.waiting.Nodup

/-- Every link without a target waits, as is so until something is settled. -/
def Awaits (r : Registry κ) : Prop :=
  ∀ (n : Nat) (l : Link κ), r.links[n]? = some l → l.target = .unset → n ∈ r.waiting

theorem coherent_empty : (empty : Registry κ).Coherent :=
  ⟨distinct_empty, by simp [empty], by simp [empty], List.nodup_nil⟩

theorem awaits_empty : (empty : Registry κ).Awaits := by simp [Awaits, empty]

/-- A link that waits is one of the links. -/
theorem Coherent.lt_length (h : r.Coherent) (hn : n ∈ r.waiting) : n < r.links.length := by
  obtain ⟨w, hw, rfl⟩ := List.mem_map.1 hn
  obtain ⟨l, hl, -⟩ := h.waits w hw
  exact (List.getElem?_eq_some_iff.1 hl).1

/-- Settling a link resolves it if the feature it asks for is registered. -/
theorem isResolved_settledLink
    (h : l.target = .unset ∨ ∃ t, r.feature? l.targetId = some t ∧ l.target = .bound t) :
    (r.settledLink l).isResolved = r.contains l.targetId := by
  rw [Link.isResolved, target_settledLink h, contains]
  cases r.feature? l.targetId <;> rfl

/-! ### Registering -/

/-- What has been registered stays so. -/
theorem feature?_register {f t : Feature κ} {id : String} (h : r.register f = .ok r')
    (ht : r.feature? id = some t) : r'.feature? id = some t := by
  rcases register_eq_ok.1 h with ⟨-, rfl⟩ | ⟨-, -, rfl⟩
  · exact ht
  · exact feature?_append rfl ht

theorem links_register {f : Feature κ} (h : r.register f = .ok r') :
    r'.links = r.links ∧ r'.pending = r.pending := by
  rcases register_eq_ok.1 h with ⟨-, rfl⟩ | ⟨-, -, rfl⟩ <;> exact ⟨rfl, rfl⟩

theorem Coherent.register {f : Feature κ} (h : r.Coherent) (hr : r.register f = .ok r') :
    r'.Coherent := by
  obtain ⟨hlinks, hpending⟩ := links_register hr
  refine ⟨h.distinct.register hr, fun n l hl => ?_, ?_, ?_⟩
  · refine (h.targets n l (hlinks ▸ hl)).imp_right ?_
    intro hgiven
    obtain ⟨t, ht, htarget⟩ := hgiven
    exact ⟨t, feature?_register hr ht, htarget⟩
  · rw [hpending, hlinks]
    exact h.waits
  · rw [waiting, hpending]
    exact h.once

theorem Awaits.register {f : Feature κ} (h : r.Awaits) (hr : r.register f = .ok r') :
    r'.Awaits := by
  obtain ⟨hlinks, hpending⟩ := links_register hr
  intro n l hl hunset
  rw [waiting, hpending]
  exact h n l (hlinks ▸ hl) hunset

/-! ### Referring -/

section Refer
variable {ownerId targetId : String} {property : Name} {occurrence : Nat}

/-- The link that a reference makes. -/
def newLink (r : Registry κ) (targetId : String) : Link κ :=
  r.settledLink (.unbound targetId)

/-- A reference adds a link behind the others; it waits if there is no target for it. -/
theorem refer_eq (r : Registry κ) (ownerId : String) (property : Name) (occurrence : Nat)
    (targetId : String) :
    r.refer ownerId property occurrence targetId =
      (r.links.length,
        { r with
          links := r.links ++ [r.newLink targetId]
          pending := r.pending ++
            if r.contains targetId then []
            else [⟨r.links.length, targetId, ownerId, property, occurrence⟩] }) := by
  have hid : (Link.unbound targetId : Link κ).targetId = targetId := rfl
  unfold refer newLink settledLink contains
  rw [hid]
  cases r.feature? targetId <;> simp

@[simp] theorem newLink_targetId (r : Registry κ) (targetId : String) :
    (r.newLink targetId).targetId = targetId :=
  settledLink_targetId r _

theorem newLink_target (r : Registry κ) (targetId : String) :
    (r.newLink targetId).target =
      match r.feature? targetId with
      | some t => .bound t
      | none => .unset :=
  target_settledLink (l := .unbound targetId) (.inl rfl)

theorem isResolved_newLink (r : Registry κ) (targetId : String) :
    (r.newLink targetId).isResolved = r.contains targetId :=
  isResolved_settledLink (l := .unbound targetId) (.inl rfl)

/-- A link behind the old ones is the new one. -/
theorem newLink_of_getElem? (hn : r.links.length ≤ n)
    (hl : (r.links ++ [r.newLink targetId])[n]? = some l) :
    n = r.links.length ∧ l = r.newLink targetId := by
  rw [List.getElem?_append_right hn, List.getElem?_singleton] at hl
  split at hl
  next hzero => exact ⟨by omega, (Option.some.inj hl).symm⟩
  next => cases hl

theorem Coherent.refer (h : r.Coherent) :
    (r.refer ownerId property occurrence targetId).2.Coherent := by
  rw [refer_eq]
  have hold : ∀ {n : Nat} {l : Link κ}, r.links[n]? = some l →
      (r.links ++ [r.newLink targetId])[n]? = some l := fun hl =>
    List.getElem?_append_left (List.getElem?_eq_some_iff.1 hl).1 ▸ hl
  refine ⟨h.distinct.of_features rfl, fun n l hl => ?_, fun w hw => ?_, ?_⟩
  · rcases Nat.lt_or_ge n r.links.length with hlt | hge
    · rw [List.getElem?_append_left hlt] at hl
      exact h.targets n l hl
    · obtain ⟨-, rfl⟩ := newLink_of_getElem? hge hl
      show _ ∨ ∃ t, r.feature? (r.newLink targetId).targetId = some t ∧ _
      rw [newLink_target, newLink_targetId]
      cases r.feature? targetId with
      | none => exact .inl rfl
      | some t => exact .inr ⟨t, rfl, rfl⟩
  · rcases List.mem_append.1 hw with hw | hw
    · obtain ⟨l, hl, hwaits⟩ := h.waits w hw
      exact ⟨l, hold hl, hwaits⟩
    · split at hw
      · cases hw
      next hnone =>
        obtain rfl := List.mem_singleton.1 hw
        refine ⟨r.newLink targetId, List.getElem?_concat_length .., newLink_targetId r _, ?_⟩
        rw [newLink_target, Option.not_isSome_iff_eq_none.1 hnone]
  · rw [waiting, List.map_append, List.nodup_append]
    refine ⟨h.once, by split <;> simp, fun n hn m hm => ?_⟩
    split at hm
    · cases hm
    · obtain rfl := List.mem_singleton.1 hm
      exact Nat.ne_of_lt (h.lt_length hn)

theorem Awaits.refer (h : r.Awaits) :
    (r.refer ownerId property occurrence targetId).2.Awaits := by
  rw [refer_eq]
  intro n l hl hunset
  rw [waiting, List.map_append, List.mem_append]
  rcases Nat.lt_or_ge n r.links.length with hlt | hge
  · rw [List.getElem?_append_left hlt] at hl
    exact .inl (h n l hl hunset)
  · obtain ⟨rfl, rfl⟩ := newLink_of_getElem? hge hl
    have hnot : r.contains targetId = false := by
      rw [← isResolved_newLink, Link.isResolved, hunset, Slot.isSet]
    simp [hnot]

end Refer

/-! ### Owners -/

theorem Coherent.bindLinks (h : r.Coherent) (f : Feature κ) : (r.bindLinks f).Coherent := by
  obtain ⟨hfeatures, hpending, hlinks⟩ := r.bindLinks_eq f
  have hfeature? : ∀ id, (r.bindLinks f).feature? id = r.feature? id := fun id => by
    rw [feature?, hfeatures, feature?]
  refine ⟨h.distinct.of_features hfeatures, fun n l hl => ?_, fun w hw => ?_, ?_⟩
  · rw [hlinks] at hl
    rw [hfeature?]
    split at hl
    · obtain ⟨l, hbefore, rfl⟩ := Option.map_eq_some_iff.1 hl
      exact h.targets n l hbefore
    · exact h.targets n l hl
  · rw [hpending] at hw
    obtain ⟨l, hl, hid, htarget⟩ := h.waits w hw
    rw [hlinks, hl]
    split
    · exact ⟨l.bindOwner f, rfl, hid, htarget⟩
    · exact ⟨l, rfl, hid, htarget⟩
  · rw [waiting, hpending]
    exact h.once

theorem Awaits.bindLinks (h : r.Awaits) (f : Feature κ) : (r.bindLinks f).Awaits := by
  obtain ⟨-, hpending, hlinks⟩ := r.bindLinks_eq f
  intro n l hl hunset
  rw [waiting, hpending]
  rw [hlinks] at hl
  split at hl
  · obtain ⟨l, hbefore, rfl⟩ := Option.map_eq_some_iff.1 hl
    exact h n l hbefore hunset
  · exact h n l hl hunset

/-! ### Settling -/

theorem settleOne_features (r : Registry κ) (w : PendingLink) :
    (r.settleOne w).1.features = r.features ∧ (r.settleOne w).1.pending = r.pending ∧
      (r.settleOne w).2 = if r.contains w.targetId then none else some w.report := by
  unfold settleOne contains
  cases r.feature? w.targetId <;> simp [modifyLink, PendingLink.report]

theorem settleAll_features (r : Registry κ) (ws : List PendingLink) :
    (r.settleAll ws).1.features = r.features ∧ (r.settleAll ws).1.pending = r.pending ∧
      (r.settleAll ws).2 =
        (ws.map (·.report)).filter (fun ref => !r.contains ref.targetId) := by
  induction ws generalizing r with
  | nil => exact ⟨rfl, rfl, rfl⟩
  | cons w rest ih =>
    obtain ⟨hfeatures, hpending, hdangling⟩ := r.settleOne_features w
    obtain ⟨hfeatures', hpending', hdangling'⟩ := ih (r.settleOne w).1
    have hcontains : ∀ id, (r.settleOne w).1.contains id = r.contains id := fun id => by
      rw [contains, feature?, hfeatures]
      rfl
    refine ⟨hfeatures'.trans hfeatures, hpending'.trans hpending, ?_⟩
    show (r.settleOne w).2.toList ++ ((r.settleOne w).1.settleAll rest).2 = _
    rw [hdangling', hdangling, List.map_cons, List.filter_cons]
    simp only [hcontains]
    have hid : w.report.targetId = w.targetId := rfl
    rw [hid]
    cases r.contains w.targetId <;> rfl

/-- What waits settles the link with its number, and touches no other. -/
theorem settleOne_links {w : PendingLink}
    (htarget : ∀ l : Link κ, r.links[w.number]? = some l → l.targetId = w.targetId) (n : Nat) :
    (r.settleOne w).1.links[n]? =
      if n = w.number then r.links[n]?.map r.settledLink else r.links[n]? := by
  unfold settleOne
  by_cases hn : n = w.number
  · subst hn
    cases hl : r.links[w.number]? with
    | none => cases r.feature? w.targetId <;> simp [modifyLink, hl]
    | some l => cases hfound : r.feature? w.targetId <;>
        simp [modifyLink, hl, settledLink, htarget l hl, hfound]
  · rw [if_neg hn]
    cases r.feature? w.targetId with
    | none => rfl
    | some t => exact List.getElem?_modify_ne _ _ (Ne.symm hn)

/-- Each link that waits is settled, and no other link is touched. -/
theorem settleAll_links {ws : List PendingLink} (honce : (ws.map (·.number)).Nodup)
    (htargets : ∀ w ∈ ws, ∀ l : Link κ, r.links[w.number]? = some l → l.targetId = w.targetId)
    (n : Nat) :
    (r.settleAll ws).1.links[n]? =
      if n ∈ ws.map (·.number) then r.links[n]?.map r.settledLink else r.links[n]? := by
  induction ws generalizing r with
  | nil => rfl
  | cons w rest ih =>
    rw [List.map_cons, List.nodup_cons] at honce
    have hfeatures := (r.settleOne_features w).1
    have hsettled : (r.settleOne w).1.settledLink = r.settledLink := by
      funext l
      rw [settledLink, feature?, hfeatures]
      rfl
    have hone := settleOne_links (htargets w List.mem_cons_self)
    have hrest : ∀ w' ∈ rest, ∀ l : Link κ,
        (r.settleOne w).1.links[w'.number]? = some l → l.targetId = w'.targetId := by
      intro w' hw' l hl
      have hne : w'.number ≠ w.number := fun heq =>
        honce.1 (heq ▸ List.mem_map_of_mem hw')
      rw [hone, if_neg hne] at hl
      exact htargets w' (List.mem_cons_of_mem _ hw') l hl
    show ((r.settleOne w).1.settleAll rest).1.links[n]? = _
    rw [ih honce.2 hrest, hone, hsettled, List.map_cons]
    by_cases hn : n = w.number
    · subst hn
      simp [honce.1]
    · simp [hn]

/-- What settling does: the links that wait are settled and wait no longer, and those whose
target is not registered are reported. -/
theorem Coherent.settle_eq (h : r.Coherent) :
    r.settle.1.features = r.features ∧ r.settle.1.pending = [] ∧
      r.settle.2 = (r.pending.map (·.report)).filter (fun ref => !r.contains ref.targetId) ∧
      ∀ n, r.settle.1.links[n]? =
        if n ∈ r.waiting then r.links[n]?.map r.settledLink else r.links[n]? := by
  have htargets : ∀ w ∈ r.pending, ∀ l : Link κ,
      ({ r with pending := [] } : Registry κ).links[w.number]? = some l →
        l.targetId = w.targetId := by
    intro w hw l hl
    obtain ⟨l', hl', hid, -⟩ := h.waits w hw
    obtain rfl := Option.some.inj (hl.symm.trans hl')
    exact hid
  obtain ⟨hfeatures, hpending, hdangling⟩ := settleAll_features { r with pending := [] } r.pending
  exact ⟨hfeatures, hpending, hdangling, settleAll_links h.once htargets⟩

theorem Coherent.settle (h : r.Coherent) : r.settle.1.Coherent := by
  obtain ⟨hfeatures, hpending, -, hlinks⟩ := h.settle_eq
  have hfeature? : ∀ id, r.settle.1.feature? id = r.feature? id := fun id => by
    rw [feature?, hfeatures, feature?]
  refine ⟨h.distinct.of_features hfeatures, fun n l hl => ?_, by simp [hpending],
    by simp [waiting, hpending]⟩
  rw [hlinks] at hl
  rw [hfeature?]
  split at hl
  · obtain ⟨l, hbefore, rfl⟩ := Option.map_eq_some_iff.1 hl
    rw [target_settledLink (h.targets n l hbefore), settledLink_targetId]
    cases r.feature? l.targetId with
    | none => exact .inl rfl
    | some t => exact .inr ⟨t, rfl, rfl⟩
  · exact h.targets n l hl

/-- Where nothing is reported, every link has its target. -/
theorem Coherent.target_of_settle (h : r.Coherent) (hawaits : r.Awaits) (hnone : r.settle.2 = [])
    (hn : n < r.links.length) :
    ∃ l t, r.settle.1.links[n]? = some l ∧ l.target = .bound t ∧ t ∈ r.features ∧
      t.id = l.targetId := by
  obtain ⟨hfeatures, -, hdangling, hlinks⟩ := h.settle_eq
  obtain ⟨l, hl⟩ : ∃ l, r.links[n]? = some l := ⟨_, List.getElem?_eq_getElem hn⟩
  have hregistered : ∀ w ∈ r.pending, r.contains w.targetId = true := by
    intro w hw
    rw [hdangling, List.filter_eq_nil_iff] at hnone
    simpa [PendingLink.report] using hnone w.report (List.mem_map_of_mem hw)
  have hresolved : ∃ l', r.settle.1.links[n]? = some l' ∧ l'.target ≠ .unset := by
    rw [hlinks, hl]
    split
    next hmem =>
      obtain ⟨w, hw, rfl⟩ := List.mem_map.1 hmem
      obtain ⟨l', hl', hid, -⟩ := h.waits w hw
      obtain rfl := Option.some.inj (hl.symm.trans hl')
      have hset : (r.settledLink l).isResolved = true := by
        rw [isResolved_settledLink (h.targets _ l hl), hid, hregistered w hw]
      refine ⟨_, rfl, fun hunset => ?_⟩
      simp [Link.isResolved, hunset, Slot.isSet] at hset
    next hmem => exact ⟨l, rfl, fun hunset => hmem (hawaits n l hl hunset)⟩
  obtain ⟨l', hl', hset⟩ := hresolved
  obtain ⟨t, ht, htarget⟩ := (h.settle.targets n l' hl').resolve_left hset
  obtain ⟨hmem, hid⟩ := h.settle.distinct.feature?_eq_some.1 ht
  exact ⟨l', t, hl', htarget, hfeatures ▸ hmem, hid⟩

end Registry

end FeatureMarkup

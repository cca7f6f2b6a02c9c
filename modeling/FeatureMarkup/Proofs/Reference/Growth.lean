import FeatureMarkup.Reference.Registry

/-! How a registry grows while a document is read.

What is there stays: features, links and those that wait are only added behind the others.
`Adds` says what has been added, each link together with the reference it stands for; the
steps of a registry are additions, and additions follow one another. The owner of a link
is written last, when the feature around it is complete, and touches none but its own. -/
namespace FeatureMarkup

variable {κ : Type}

/-- A reference met in a feature: the number of its link, the feature that holds it once
complete, and where in that feature it stands. -/
structure Reference (κ : Type) where
  number : Nat
  owner : Slot κ
  ownerId : String
  property : Name
  occurrence : Nat

/-- The reference with an owner, if it has none yet. -/
def Reference.own (f : Feature κ) (ref : Reference κ) : Reference κ :=
  { ref with owner := ref.owner.write f }

/-- A reference with its link. -/
structure Entry (κ : Type) where
  reference : Reference κ
  link : Link κ

namespace Entry

/-- What waits for an entry that has not been resolved. -/
def waiting? (e : Entry κ) : Option PendingLink :=
  if e.link.isResolved then none
  else some ⟨e.reference.number, e.link.targetId, e.reference.ownerId, e.reference.property,
    e.reference.occurrence⟩

/-- The entry with an owner, if it has none yet. -/
def own (f : Feature κ) (e : Entry κ) : Entry κ :=
  ⟨e.reference.own f, e.link.bindOwner f⟩

/-- An entry whose link has the owner of its reference, and no target but the registered
feature it asks for. -/
structure Sound (r : Registry κ) (e : Entry κ) : Prop where
  owner : e.link.owner = e.reference.owner
  target : e.link.target = .unset ∨
    ∃ t, r.feature? e.link.targetId = some t ∧ e.link.target = .bound t

theorem Sound.own {r : Registry κ} {e : Entry κ} (h : e.Sound r) (f : Feature κ) :
    (e.own f).Sound r :=
  ⟨congrArg (Slot.write f) h.owner, h.target⟩

end Entry

/-- What has been added to a registry: features, without those that have no id, and links
with the references they stand for. -/
structure Adds (r r' : Registry κ) (features : List (Feature κ)) (entries : List (Entry κ)) :
    Prop where
  features : r'.features = r.features ++ features.filter (·.id ≠ "")
  links : r'.links = r.links ++ entries.map (·.link)
  pending : r'.pending = r.pending ++ entries.filterMap (·.waiting?)
  numbers : entries.map (·.reference.number) = List.range' r.links.length entries.length
  sound : ∀ e ∈ entries, e.Sound r'

namespace Registry

theorem feature?_append {r r' : Registry κ} {more : List (Feature κ)}
    (h : r'.features = r.features ++ more) {id : String} {f : Feature κ}
    (hf : r.feature? id = some f) : r'.feature? id = some f := by
  unfold feature? at *
  rw [h, List.find?_append, hf, Option.some_or]

/-- A registry in which every feature has an id of its own. -/
structure Distinct (r : Registry κ) : Prop where
  nodup : r.ids.Nodup
  nonempty : "" ∉ r.ids

theorem distinct_empty : (empty : Registry κ).Distinct := ⟨List.nodup_nil, nofun⟩

theorem contains_iff_mem_ids {r : Registry κ} {id : String} :
    r.contains id = true ↔ id ∈ r.ids := by
  simp [contains, feature?, ids, List.find?_isSome]

/-- A feature is registered under its id, unless it has none. -/
theorem register_eq_ok {r r' : Registry κ} {f : Feature κ} :
    r.register f = .ok r' ↔
      (f.id = "" ∧ r' = r) ∨
        (f.id ≠ "" ∧ f.id ∉ r.ids ∧ r' = { r with features := r.features ++ [f] }) := by
  unfold register
  by_cases hid : f.id = ""
  · rw [if_pos (by simp [hid])]
    simp only [Except.ok.injEq, hid, true_and, ne_eq, not_true_eq_false, false_and, or_false]
    exact eq_comm
  · rw [if_neg (by simpa using hid)]
    by_cases hmem : f.id ∈ r.ids
    · simp [hid, hmem, contains_iff_mem_ids.2 hmem]
    · rw [if_neg (by rwa [contains_iff_mem_ids])]
      simp only [Except.ok.injEq, hid, hmem, false_and, ne_eq, not_false_eq_true, true_and, false_or]
      exact eq_comm

/-- A feature is refused exactly if its id is registered already. -/
theorem register_eq_error {r : Registry κ} {f : Feature κ} {e : DuplicateId} :
    r.register f = .error e ↔ f.id ≠ "" ∧ f.id ∈ r.ids ∧ e = ⟨f.id⟩ := by
  unfold register
  by_cases hid : f.id = ""
  · simp [hid]
  · rw [if_neg (by simpa using hid), ← contains_iff_mem_ids]
    split
    next hmem =>
      simp only [Except.error.injEq, hid, hmem, ne_eq, not_false_eq_true, true_and]
      exact eq_comm
    next hmem => simp [hmem]

/-- Registered features are found by their ids. -/
theorem Distinct.feature?_eq_some {r : Registry κ} (h : r.Distinct) {id : String} {f : Feature κ} :
    r.feature? id = some f ↔ f ∈ r.features ∧ f.id = id := by
  constructor
  · intro hf
    exact ⟨List.mem_of_find?_eq_some hf, by simpa using List.find?_some hf⟩
  · intro hgiven
    obtain ⟨hmem, rfl⟩ := hgiven
    have hnodup := h.nodup
    unfold ids at hnodup
    unfold feature?
    generalize r.features = features at hmem hnodup ⊢
    induction features with
    | nil => cases hmem
    | cons g rest ih =>
      rw [List.map_cons, List.nodup_cons] at hnodup
      rcases List.mem_cons.1 hmem with rfl | hrest
      · simp
      · have hne : g.id ≠ f.id := fun heq => hnodup.1 (heq ▸ List.mem_map_of_mem hrest)
        rw [List.find?_cons_of_neg (by simpa using hne)]
        exact ih hrest hnodup.2

/-- Ids stay distinct where no feature is added. -/
theorem Distinct.of_features {r r' : Registry κ} (h : r.Distinct) (hr : r'.features = r.features) :
    r'.Distinct := by
  have hids : r'.ids = r.ids := congrArg (List.map _) hr
  exact ⟨hids ▸ h.nodup, hids ▸ h.nonempty⟩

theorem Distinct.register {r r' : Registry κ} {f : Feature κ} (h : r.Distinct)
    (hr : r.register f = .ok r') : r'.Distinct := by
  rcases register_eq_ok.1 hr with ⟨-, rfl⟩ | ⟨hid, hnew, rfl⟩
  · exact h
  · have hids : ids { r with features := r.features ++ [f] } = r.ids ++ [f.id] := by
      simp [ids]
    constructor
    · rw [hids]
      exact List.nodup_append.2 ⟨h.nodup, by simp, by
        intro a ha b hb
        rintro rfl
        exact hnew (List.mem_singleton.1 hb ▸ ha)⟩
    · rw [hids, List.mem_append, List.mem_singleton]
      intro hgiven
      rcases hgiven with hmem | hempty
      · exact h.nonempty hmem
      · exact hid hempty.symm

end Registry

/-! ### Additions -/

namespace Adds
variable {r r₁ r' : Registry κ} {features features' : List (Feature κ)}
  {entries entries' : List (Entry κ)}

theorem refl (r : Registry κ) : Adds r r [] [] :=
  ⟨by simp, by simp, by simp, rfl, nofun⟩

theorem length_links (h : Adds r r' features entries) :
    r'.links.length = r.links.length + entries.length := by
  rw [h.links]
  simp

/-- Links are numbered as they are added. -/
theorem number_eq (h : Adds r r' features entries) {k : Nat} {e : Entry κ}
    (he : entries[k]? = some e) : e.reference.number = r.links.length + k := by
  obtain ⟨hlt, rfl⟩ := List.getElem?_eq_some_iff.1 he
  have hk := congrArg (·[k]?) h.numbers
  simpa [hlt] using hk

theorem trans (h : Adds r r₁ features entries) (h' : Adds r₁ r' features' entries') :
    Adds r r' (features ++ features') (entries ++ entries') where
  features := by rw [h'.features, h.features, List.filter_append, List.append_assoc]
  links := by rw [h'.links, h.links, List.map_append, List.append_assoc]
  pending := by rw [h'.pending, h.pending, List.filterMap_append, List.append_assoc]
  numbers := by
    rw [List.map_append, h.numbers, h'.numbers, h.length_links, List.length_append,
      List.range'_append_1]
  sound e he := by
    rcases List.mem_append.1 he with he | he
    · have hsound := h.sound e he
      exact ⟨hsound.owner, hsound.target.imp_right fun ⟨t, ht, htarget⟩ =>
        ⟨t, Registry.feature?_append h'.features ht, htarget⟩⟩
    · exact h'.sound e he

/-- A reference adds a link, resolved if the feature it asks for is registered already. -/
theorem refer {ownerId targetId : String} {property : Name} {occurrence number : Nat}
    (h : r.refer ownerId property occurrence targetId = (number, r')) :
    ∃ link, link.targetId = targetId ∧
      Adds r r' [] [⟨⟨number, .unset, ownerId, property, occurrence⟩, link⟩] := by
  unfold Registry.refer at h
  cases ht : r.feature? targetId with
  | some target =>
    rw [ht] at h
    obtain ⟨rfl, rfl⟩ := Prod.mk.inj h
    refine ⟨(Link.unbound targetId).resolve target, rfl, by simp, rfl, ?_, rfl, ?_⟩
    · simp [Entry.waiting?, Link.isResolved, Link.resolve, Link.unbound, Slot.write, Slot.isSet]
    · intro e he
      obtain rfl := List.mem_singleton.1 he
      exact ⟨rfl, .inr ⟨target, ht, rfl⟩⟩
  | none =>
    rw [ht] at h
    obtain ⟨rfl, rfl⟩ := Prod.mk.inj h
    refine ⟨.unbound targetId, rfl, by simp, rfl, ?_, rfl, ?_⟩
    · simp [Entry.waiting?, Link.isResolved, Link.unbound, Slot.isSet]
    · intro e he
      obtain rfl := List.mem_singleton.1 he
      exact ⟨rfl, .inl rfl⟩

/-- A complete feature is added if it has an id. -/
theorem register {f : Feature κ} (h : r.register f = .ok r') : Adds r r' [f] [] := by
  rcases Registry.register_eq_ok.1 h with ⟨hid, rfl⟩ | ⟨hid, -, rfl⟩
  · exact ⟨by simp [hid], by simp, by simp, rfl, nofun⟩
  · exact ⟨by simp [hid], by simp, by simp, rfl, nofun⟩

end Adds

/-! ### Owners -/

theorem Link.bindOwner_bindOwner (f : Feature κ) (l : Link κ) :
    (l.bindOwner f).bindOwner f = l.bindOwner f := by
  cases l with | mk targetId owner target => cases owner <;> rfl

/-- A link that has an owner keeps it. -/
theorem Link.bindOwner_of_set {f : Feature κ} {l : Link κ} (h : l.owner ≠ .unset) :
    l.bindOwner f = l := by
  obtain ⟨targetId, owner, target⟩ := l
  cases owner with
  | unset => exact absurd rfl h
  | bound | expired => rfl

namespace Registry

/-- A feature becomes the owner of the links with its numbers, and nothing else
changes. -/
theorem bindLinks_eq (r : Registry κ) (f : Feature κ) :
    (r.bindLinks f).features = r.features ∧ (r.bindLinks f).pending = r.pending ∧
      ∀ i, (r.bindLinks f).links[i]? =
        if i ∈ f.links then r.links[i]?.map (Link.bindOwner f) else r.links[i]? := by
  unfold bindLinks
  induction f.links generalizing r with
  | nil => exact ⟨rfl, rfl, fun i => by simp⟩
  | cons number rest ih =>
    obtain ⟨hfeatures, hpending, hlinks⟩ := ih (r.modifyLink number (.bindOwner f))
    refine ⟨hfeatures, hpending, fun i => ?_⟩
    rw [List.foldl_cons, hlinks]
    by_cases hi : number = i
    · subst hi
      cases hl : r.links[number]? with
      | none => simp [modifyLink, hl]
      | some l => simp [modifyLink, hl, Link.bindOwner_bindOwner]
    · have hne : i ≠ number := fun h => hi h.symm
      simp [modifyLink, hi, hne]

theorem length_bindLinks (r : Registry κ) (f : Feature κ) :
    (r.bindLinks f).links.length = r.links.length := by
  unfold bindLinks
  induction f.links generalizing r with
  | nil => rfl
  | cons number rest ih => rw [List.foldl_cons, ih, modifyLink, List.length_modify]

end Registry

/-- The owner is written to those of the added links that stand for references of the
feature's own, the only ones still without an owner. -/
theorem Adds.own {r r₁ : Registry κ} {features : List (Feature κ)} {entries : List (Entry κ)}
    (h : Adds r r₁ features entries) {f : Feature κ}
    (hown : ∀ number, number ∈ f.links ↔
      ∃ e ∈ entries, e.reference.owner = .unset ∧ e.reference.number = number) :
    Adds r (r₁.bindLinks f) features (entries.map (·.own f)) := by
  obtain ⟨hfeatures, hpending, hlinks⟩ := r₁.bindLinks_eq f
  refine ⟨hfeatures.trans h.features, ?_, ?_, ?_, ?_⟩
  · refine List.ext_getElem? fun i => ?_
    rw [hlinks, h.links]
    rcases Nat.lt_or_ge i r.links.length with hlt | hge
    · have hold : i ∉ f.links := by
        intro hi
        obtain ⟨e, he, -, rfl⟩ := (hown i).1 hi
        obtain ⟨k, hk⟩ := List.getElem?_of_mem he
        have := h.number_eq hk
        omega
      rw [if_neg hold, List.getElem?_append_left hlt, List.getElem?_append_left hlt]
    · obtain ⟨k, rfl⟩ := Nat.exists_eq_add_of_le hge
      rw [List.getElem?_append_right hge, List.getElem?_append_right hge, Nat.add_sub_cancel_left,
        List.getElem?_map, List.getElem?_map, List.getElem?_map]
      cases he : entries[k]? with
      | none => simp
      | some e =>
        have hmem := List.mem_of_getElem? he
        by_cases hunset : e.reference.owner = .unset
        · rw [if_pos ((hown _).2 ⟨e, hmem, hunset, h.number_eq he⟩)]
          rfl
        · have hset : e.link.owner ≠ .unset := (h.sound e hmem).owner ▸ hunset
          have hother : r.links.length + k ∉ f.links := by
            intro hi
            obtain ⟨e₁, he₁, hunset₁, hnumber₁⟩ := (hown _).1 hi
            obtain ⟨k₁, hk₁⟩ := List.getElem?_of_mem he₁
            obtain rfl : k₁ = k := by have := h.number_eq hk₁; omega
            exact hunset (Option.some.inj (hk₁.symm.trans he) ▸ hunset₁)
          rw [if_neg hother]
          exact congrArg some (Link.bindOwner_of_set hset).symm
  · rw [hpending, h.pending, List.filterMap_map]
    rfl
  · rw [List.length_map, ← h.numbers, List.map_map]
    rfl
  · intro e he
    obtain ⟨e₁, he₁, rfl⟩ := List.mem_map.1 he
    have hsound := (h.sound e₁ he₁).own f
    exact ⟨hsound.owner, by unfold Registry.feature? at *; rw [hfeatures]; exact hsound.target⟩

/-! ### Settling -/

/-- What a link is once everything is registered: resolved if the feature it asks for has
been. -/
def Registry.settledLink (r : Registry κ) (l : Link κ) : Link κ :=
  match r.feature? l.targetId with
  | some target => l.resolve target
  | none => l

/-- The report on a reference whose link has no target. -/
def Entry.dangling? (r : Registry κ) (e : Entry κ) : Option DanglingReference :=
  match r.feature? e.link.targetId with
  | some _ => none
  | none => some ⟨e.link.targetId, e.reference.ownerId, e.reference.property, e.reference.occurrence⟩

/-- A link that is resolved already has the target that it would get. -/
theorem Entry.Sound.settled {r : Registry κ} {e : Entry κ} (h : e.Sound r)
    (hresolved : e.link.isResolved = true) :
    r.settledLink e.link = e.link ∧ e.dangling? r = none := by
  rcases h.target with hunset | ⟨t, ht, htarget⟩
  · simp [Link.isResolved, hunset, Slot.isSet] at hresolved
  · have hkeep : e.link.resolve t = e.link := by
      obtain ⟨reference, targetId, owner, target⟩ := e
      cases htarget
      rfl
    simp [Registry.settledLink, Entry.dangling?, ht, hkeep]

/-- A settled link has a target exactly if the feature it asks for is registered. -/
theorem Registry.target_settledLink {r : Registry κ} {l : Link κ}
    (h : l.target = .unset ∨ ∃ t, r.feature? l.targetId = some t ∧ l.target = .bound t) :
    (r.settledLink l).target =
      match r.feature? l.targetId with
      | some t => .bound t
      | none => .unset := by
  unfold settledLink
  cases hfound : r.feature? l.targetId with
  | none =>
    refine h.resolve_right ?_
    intro hgiven
    obtain ⟨t, ht, -⟩ := hgiven
    rw [hfound] at ht
    cases ht
  | some t =>
    rcases h with hunset | ⟨t', ht', htarget⟩
    · simp [Link.resolve, hunset, Slot.write]
    · obtain rfl := Option.some.inj (hfound.symm.trans ht')
      simp [Link.resolve, htarget, Slot.write]

theorem Entry.Sound.target_settledLink {r : Registry κ} {e : Entry κ} (h : e.Sound r) :
    (r.settledLink e.link).target =
      match r.feature? e.link.targetId with
      | some t => .bound t
      | none => .unset :=
  Registry.target_settledLink h.target

@[simp] theorem Registry.settledLink_owner (r : Registry κ) (l : Link κ) :
    (r.settledLink l).owner = l.owner := by
  unfold settledLink
  split <;> rfl

@[simp] theorem Registry.settledLink_targetId (r : Registry κ) (l : Link κ) :
    (r.settledLink l).targetId = l.targetId := by
  unfold settledLink
  split <;> rfl

theorem Registry.settleAll_eq {entries : List (Entry κ)} {before : List (Link κ)} {r : Registry κ}
    (hlinks : r.links = before ++ entries.map (·.link))
    (hnumbers : entries.map (·.reference.number) = List.range' before.length entries.length)
    (hsound : ∀ e ∈ entries, e.Sound r) :
    r.settleAll (entries.filterMap (·.waiting?)) =
      ({ r with links := before ++ entries.map (r.settledLink ·.link) },
        entries.filterMap (·.dangling? r)) := by
  induction entries generalizing before r with
  | nil =>
    obtain ⟨features, links, pending⟩ := r
    obtain rfl : links = before ++ [] := hlinks
    rfl
  | cons e rest ih =>
    rw [List.map_cons, List.length_cons, List.range'_succ, List.cons.injEq] at hnumbers
    obtain ⟨hnumber, hnumbers⟩ := hnumbers
    -- What becomes of the first entry decides what the links before the others are.
    have hrest : ∀ r₁ : Registry κ, r₁.features = r.features → r₁.pending = r.pending →
        r₁.links = (before ++ [r.settledLink e.link]) ++ rest.map (·.link) →
        r₁.settleAll (rest.filterMap (·.waiting?)) =
          ({ r with links := before ++ (e :: rest).map (r.settledLink ·.link) },
            rest.filterMap (·.dangling? r)) := by
      rintro ⟨features, links, pending⟩ rfl rfl hlinks₁
      rw [ih hlinks₁ (by simpa using hnumbers) fun e he => ⟨(hsound e (.tail _ he)).owner,
        (hsound e (.tail _ he)).target⟩, List.append_assoc]
      rfl
    cases hresolved : e.link.isResolved with
    | true =>
      obtain ⟨hkeep, hdangling⟩ := (hsound e List.mem_cons_self).settled hresolved
      rw [List.filterMap_cons_none (by simp [Entry.waiting?, hresolved]),
        List.filterMap_cons_none hdangling]
      exact hrest r rfl rfl (by rw [hlinks, hkeep]; simp)
    | false =>
      rw [List.filterMap_cons_some (by simp [Entry.waiting?, hresolved]; rfl), settleAll, settleOne]
      cases ht : r.feature? e.link.targetId with
      | some t =>
        rw [List.filterMap_cons_none (by simp [Entry.dangling?, ht])]
        dsimp only
        have hmodify : (r.modifyLink e.reference.number (.resolve t)).links =
            (before ++ [r.settledLink e.link]) ++ rest.map (·.link) := by
          simp only [modifyLink, settledLink, ht, hlinks, hnumber]
          rw [List.modify_eq_take_cons_drop (by simp)]
          simp
        rw [hrest (r.modifyLink e.reference.number (.resolve t)) rfl rfl hmodify]
        rfl
      | none =>
        rw [List.filterMap_cons_some (by simp [Entry.dangling?, ht]; rfl)]
        dsimp only
        rw [hrest r rfl rfl (by rw [hlinks]; simp [settledLink, ht])]
        rfl

/-- Settling resolves what can be resolved, and tells of the rest in order. -/
theorem Adds.settle {r : Registry κ} {features : List (Feature κ)} {entries : List (Entry κ)}
    (h : Adds .empty r features entries) :
    r.settle = (⟨r.features, entries.map (r.settledLink ·.link), []⟩,
      entries.filterMap (·.dangling? r)) := by
  have hpending : r.pending = entries.filterMap (·.waiting?) := h.pending
  have hlinks : ({ r with pending := [] } : Registry κ).links = [] ++ entries.map (·.link) := h.links
  have hsettle := Registry.settleAll_eq hlinks h.numbers fun e he =>
    ⟨(h.sound e he).owner, (h.sound e he).target⟩
  rw [Registry.settle, hpending, hsettle]
  rfl

end FeatureMarkup

import FeatureMarkup.Proofs.Reference.Standing

/-! What a registry tells after any calls.

Features are registered, references made and the registry settled in any order and any
number of times. What it holds then is told by the calls alone (`Accounts`): a link that
waits is touched once, by the first settling behind it, and a link that does not wait never
again (`Stands`). -/
namespace FeatureMarkup

variable {κ : Type}

/-- What can be asked of a registry. -/
inductive Call (κ : Type) where
  | register (f : Feature κ)
  | refer (ownerId : String) (property : Name) (occurrence : Nat) (targetId : String)
  | settle

namespace Registry

/-- The registry after a call; a feature whose id is registered already leaves it as it
is. -/
def perform (r : Registry κ) : Call κ → Registry κ
  | .register f =>
    match r.register f with
    | .ok r' => r'
    | .error _ => r
  | .refer ownerId property occurrence targetId =>
    (r.refer ownerId property occurrence targetId).2
  | .settle => r.settle.1

/-- The registry after several calls. -/
def run (r : Registry κ) (calls : List (Call κ)) : Registry κ :=
  calls.foldl perform r

/-- The registry after calls from the beginning. -/
def after (calls : List (Call κ)) : Registry κ :=
  empty.run calls

/-- What calls one after another give, each by the registry before it. -/
def collect {β : Type} (give : Registry κ → Call κ → Option β) (r : Registry κ) :
    List (Call κ) → List β
  | [] => []
  | c :: rest => (give r c).toList ++ collect give (r.perform c) rest

/-- The feature that a call registers; one without an id is passed over. -/
def registers? (r : Registry κ) : Call κ → Option (Feature κ)
  | .register f =>
    match r.register f with
    | .ok _ => if f.id = "" then none else some f
    | .error _ => none
  | _ => none

/-- The reference that a call makes to a feature that is not registered. -/
def unmet? (r : Registry κ) : Call κ → Option DanglingReference
  | .refer ownerId property occurrence targetId =>
    if r.contains targetId then none else some ⟨targetId, ownerId, property, occurrence⟩
  | _ => none

variable {r : Registry κ} {c : Call κ} {calls : List (Call κ)} {f : Feature κ} {n : Nat}
  {l : Link κ}

theorem run_append (r : Registry κ) (calls more : List (Call κ)) :
    r.run (calls ++ more) = (r.run calls).run more :=
  List.foldl_append

theorem after_append (calls more : List (Call κ)) :
    after (calls ++ more) = (after calls : Registry κ).run more :=
  run_append empty calls more

/-! ### One call -/

theorem perform_register_ok {r' : Registry κ} (h : r.register f = .ok r') :
    r.perform (.register f) = r' := by
  show (match r.register f with | .ok r' => r' | .error _ => r) = r'
  rw [h]

theorem perform_register_error {e : DuplicateId} (h : r.register f = .error e) :
    r.perform (.register f) = r := by
  show (match r.register f with | .ok r' => r' | .error _ => r) = r
  rw [h]

theorem Coherent.perform (h : r.Coherent) (c : Call κ) : (r.perform c).Coherent := by
  cases c with
  | register f =>
    cases hr : r.register f with
    | ok r' => exact perform_register_ok hr ▸ h.register hr
    | error e => exact (perform_register_error hr).symm ▸ h
  | refer => exact h.refer
  | settle => exact h.settle

theorem features_perform (h : r.Coherent) (c : Call κ) :
    (r.perform c).features = r.features ++ (r.registers? c).toList := by
  cases c with
  | register f =>
    show _ = r.features ++ Option.toList
      (match r.register f with
      | .ok _ => if f.id = "" then none else some f
      | .error _ => none)
    cases hr : r.register f with
    | ok r' =>
      rw [perform_register_ok hr]
      rcases register_eq_ok.1 hr with ⟨hid, rfl⟩ | ⟨hid, -, rfl⟩ <;> simp [hid]
    | error e =>
      rw [perform_register_error hr]
      simp
  | refer ownerId property occurrence targetId =>
    show (r.refer ownerId property occurrence targetId).2.features = r.features ++ []
    rw [refer_eq, List.append_nil]
  | settle => exact h.settle_eq.1.trans (List.append_nil _).symm

/-- As long as nothing is settled, references to what is not registered wait behind the
others. -/
theorem pending_perform (hc : c ≠ .settle) :
    (r.perform c).pending.map (·.report) = r.pending.map (·.report) ++ (r.unmet? c).toList := by
  cases c with
  | register f =>
    show _ = r.pending.map (·.report) ++ []
    rw [List.append_nil]
    cases hr : r.register f with
    | ok r' => rw [perform_register_ok hr, (links_register hr).2]
    | error e => rw [perform_register_error hr]
  | refer ownerId property occurrence targetId =>
    show (r.refer ownerId property occurrence targetId).2.pending.map (·.report) = _ ++
      Option.toList (if r.contains targetId then none else _)
    rw [refer_eq]
    by_cases hc : r.contains targetId <;> simp [hc, PendingLink.report]
  | settle => exact absurd rfl hc

/-! ### Several calls -/

theorem Coherent.run (h : r.Coherent) (calls : List (Call κ)) : (r.run calls).Coherent := by
  induction calls generalizing r with
  | nil => exact h
  | cons c rest ih => exact ih (h.perform c)

theorem coherent_after (calls : List (Call κ)) : (after calls : Registry κ).Coherent :=
  coherent_empty.run calls

theorem features_run (h : r.Coherent) (calls : List (Call κ)) :
    (r.run calls).features = r.features ++ collect registers? r calls := by
  induction calls generalizing r with
  | nil => exact (List.append_nil _).symm
  | cons c rest ih =>
    show ((r.perform c).run rest).features = _
    rw [ih (h.perform c), features_perform h c, List.append_assoc]
    rfl

theorem pending_run (hcalls : .settle ∉ calls) :
    (r.run calls).pending.map (·.report) = r.pending.map (·.report) ++ collect unmet? r calls := by
  induction calls generalizing r with
  | nil => exact (List.append_nil _).symm
  | cons c rest ih =>
    rw [List.mem_cons, not_or] at hcalls
    show ((r.perform c).run rest).pending.map (·.report) = _
    rw [ih hcalls.2, pending_perform (Ne.symm hcalls.1), List.append_assoc]
    rfl

/-! ### One link -/

/-- What a link is, and whether it waits. -/
structure Stands (r : Registry κ) (n : Nat) (l : Link κ) (waits : Bool) : Prop where
  link : r.links[n]? = some l
  waits : n ∈ r.waiting ↔ waits = true

namespace Stands
variable {waits : Bool}

theorem perform (h : Stands r n l waits) (hc : c ≠ .settle) : Stands (r.perform c) n l waits := by
  cases c with
  | register f =>
    cases hr : r.register f with
    | ok r' =>
      obtain ⟨hlinks, hpending⟩ := links_register hr
      rw [perform_register_ok hr]
      exact ⟨by rw [hlinks, h.link], by rw [waiting, hpending]; exact h.waits⟩
    | error e =>
      rw [perform_register_error hr]
      exact h
  | refer ownerId property occurrence targetId =>
    have hlt : n < r.links.length := (List.getElem?_eq_some_iff.1 h.link).1
    show Stands (r.refer ownerId property occurrence targetId).2 n l waits
    rw [refer_eq]
    refine ⟨by rw [List.getElem?_append_left hlt, h.link], ?_⟩
    rw [waiting, List.map_append, List.mem_append, ← h.waits, waiting, or_iff_left]
    split <;> simp [Nat.ne_of_lt hlt]
  | settle => exact absurd rfl hc

/-- Settling is what ends the waiting. -/
theorem settle (hr : r.Coherent) (h : Stands r n l waits) :
    Stands r.settle.1 n (if waits then r.settledLink l else l) false := by
  obtain ⟨-, hpending, -, hlinks⟩ := hr.settle_eq
  refine ⟨?_, by simp [waiting, hpending]⟩
  rw [hlinks, h.link]
  cases waits with
  | true => rw [if_pos (h.waits.2 rfl), if_pos rfl, Option.map_some]
  | false => rw [if_neg (by simp [h.waits]), if_neg Bool.false_ne_true]

/-- A link stays as it is as long as nothing is settled. -/
theorem run (h : Stands r n l waits) (hcalls : .settle ∉ calls) :
    Stands (r.run calls) n l waits := by
  induction calls generalizing r with
  | nil => exact h
  | cons c rest ih =>
    rw [List.mem_cons, not_or] at hcalls
    exact ih (h.perform (Ne.symm hcalls.1)) hcalls.2

/-- A link that does not wait stays as it is. -/
theorem stays (hr : r.Coherent) (h : Stands r n l false) (calls : List (Call κ)) :
    Stands (r.run calls) n l false := by
  induction calls generalizing r with
  | nil => exact h
  | cons c rest ih =>
    refine ih (hr.perform c) ?_
    cases c with
    | settle => exact h.settle hr
    | register f => exact h.perform nofun
    | refer => exact h.perform nofun

/-- A link that waits is settled once, by the first settling. -/
theorem settled (hr : r.Coherent) (h : Stands r n l true) {between rest : List (Call κ)}
    (hbetween : .settle ∉ between) :
    Stands (r.run (between ++ .settle :: rest)) n ((r.run between).settledLink l) false := by
  have hbefore := hr.run between
  rw [run_append]
  exact ((h.run hbetween).settle hbefore).stays hbefore.settle rest

/-- A new link waits if the feature it asks for is not registered. -/
theorem refer (hr : r.Coherent) (ownerId : String) (property : Name) (occurrence : Nat)
    (targetId : String) :
    Stands (r.perform (.refer ownerId property occurrence targetId)) r.links.length
      (r.newLink targetId) (!r.contains targetId) := by
  show Stands (r.refer ownerId property occurrence targetId).2 _ _ _
  rw [refer_eq]
  refine ⟨List.getElem?_concat_length .., ?_⟩
  have hnew : r.links.length ∉ r.pending.map (·.number) := fun hmem =>
    absurd (hr.lt_length hmem) (Nat.lt_irrefl _)
  rw [waiting, List.map_append, List.mem_append, or_iff_right hnew]
  cases r.contains targetId <;> simp

end Stands

/-- A link that has a target stays as it is. -/
theorem Coherent.stands_of_isResolved (hr : r.Coherent) (hl : r.links[n]? = some l)
    (hresolved : l.isResolved = true) : Stands r n l false := by
  refine ⟨hl, ?_⟩
  simp only [Bool.false_eq_true, iff_false]
  intro hmem
  obtain ⟨w, hw, rfl⟩ := List.mem_map.1 hmem
  obtain ⟨l', hl', -, hunset⟩ := hr.waits w hw
  obtain rfl := Option.some.inj (hl.symm.trans hl')
  simp [Link.isResolved, hunset, Slot.isSet] at hresolved

/-- A new link is resolved at once, or by the first settling behind it, if the feature it asks
for is registered then, and else not at all. -/
theorem Coherent.link_run (hr : r.Coherent) (ownerId : String) (property : Name)
    (occurrence : Nat) (targetId : String) (later : List (Call κ)) :
    let made := r.perform (.refer ownerId property occurrence targetId)
    ∃ l, (made.run later).links[r.links.length]? = some l ∧ l.targetId = targetId ∧
      (l.isResolved = true ↔ r.contains targetId = true ∨
        ∃ between rest, later = between ++ .settle :: rest ∧ .settle ∉ between ∧
          (made.run between).contains targetId = true) := by
  intro made
  have hmade : made.Coherent := hr.perform _
  have hnew : Stands made r.links.length (r.newLink targetId) (!r.contains targetId) :=
    .refer hr ownerId property occurrence targetId
  have hresolved := r.isResolved_newLink targetId
  cases hcontains : r.contains targetId with
  | true =>
    rw [hcontains] at hnew hresolved
    exact ⟨_, (hnew.stays hmade later).link, newLink_targetId r _, by simp [hresolved]⟩
  | false =>
    rw [hcontains] at hnew hresolved
    have hunset := Link.target_of_not_isResolved hresolved
    have hthen : ∀ between, ((made.run between).settledLink (r.newLink targetId)).isResolved =
        (made.run between).contains targetId := fun between => by
      rw [isResolved_settledLink (.inl hunset), newLink_targetId]
    by_cases hlater : Call.settle ∈ later
    · obtain ⟨between, rest, rfl, hbetween⟩ := List.eq_append_cons_of_mem hlater
      have hlink : (made.run (between ++ .settle :: rest)).links[_]? = _ :=
        (hnew.settled hmade hbetween).link
      refine ⟨_, hlink, by simp, ?_⟩
      constructor
      · intro h
        exact .inr ⟨between, rest, rfl, hbetween, hthen between ▸ h⟩
      · intro h
        obtain ⟨between', rest', hsplit, hbetween', hcontains'⟩ := h.resolve_left (by simp)
        rw [hsplit, (hnew.settled hmade hbetween').link] at hlink
        rw [← Option.some.inj hlink, hthen, hcontains']
    · refine ⟨_, (hnew.run hlater).link, newLink_targetId r _, ?_⟩
      rw [hresolved]
      refine iff_of_false Bool.false_ne_true ?_
      rintro (h | ⟨between, rest, rfl, -⟩)
      · exact Bool.false_ne_true h
      · exact hlater (List.mem_append_right _ List.mem_cons_self)

/-! ### Accounts -/

/-- What is known of a registry after calls from the beginning. -/
structure Accounts (calls : List (Call κ)) : Prop where
  /-- The features are those that have been registered, in that order. -/
  features : (after calls).features = collect registers? empty calls
  distinct : (after calls : Registry κ).ids.Nodup
  nonempty : "" ∉ (after calls : Registry κ).ids
  /-- A feature is refused exactly if its id is registered already. -/
  refused : ∀ (f : Feature κ) e, (after calls).register f = .error e ↔
    f.id ≠ "" ∧ f.id ∈ (after calls : Registry κ).ids ∧ e = ⟨f.id⟩
  /-- A feature that is refused changes nothing. -/
  unchanged : ∀ (f : Feature κ) e, (after calls).register f = .error e →
    after (calls ++ [.register f]) = after calls
  /-- A link is resolved if the feature it asks for is registered when it is made or when
  there is the first settling behind that. -/
  links : ∀ before ownerId property occurrence targetId later,
    calls = before ++ .refer ownerId property occurrence targetId :: later →
    ∃ l, (after calls).links[((after before : Registry κ).refer ownerId property occurrence
        targetId).1]? = some l ∧ l.targetId = targetId ∧
      (l.isResolved = true ↔ (after before : Registry κ).contains targetId = true ∨
        ∃ between rest, later = between ++ .settle :: rest ∧ .settle ∉ between ∧
          (after (before ++ .refer ownerId property occurrence targetId :: between) :
            Registry κ).contains targetId = true)
  /-- The target of a link is the registered feature it asks for, and stays it. -/
  targets : ∀ (n : Nat) (l : Link κ), (after calls).links[n]? = some l → l.isResolved = true →
    (∃ t ∈ (after calls).features, t.id = l.targetId ∧ l.target = .bound t) ∧
    ∀ more, (after (calls ++ more)).links[n]? = some l
  /-- Settling reports the references made since the last settling to features that were not
  registered then and are not now; those that were not registered then wait. -/
  settled : ∀ earlier since, calls = earlier ++ since →
    (earlier = [] ∨ ∃ calls', earlier = calls' ++ [.settle]) → .settle ∉ since →
    (after calls : Registry κ).settle.2 = (collect unmet? (after earlier) since).filter
        (fun ref => !(after calls : Registry κ).contains ref.targetId) ∧
      (after calls : Registry κ).pending.length = (collect unmet? (after earlier) since).length

/-- Nothing waits before the first call and behind a settling. -/
theorem pending_after (h : calls = [] ∨ ∃ calls', calls = calls' ++ [.settle]) :
    (after calls : Registry κ).pending = [] := by
  rcases h with rfl | ⟨calls', rfl⟩
  · rfl
  · rw [after_append]
    exact (coherent_after calls').settle_eq.2.1

/-- **The calls alone tell what a registry holds**, whatever they are and in whatever order:
its features, which of its links are resolved and to what, and what the next settling
reports. -/
theorem accounts (calls : List (Call κ)) : Accounts calls := by
  have hr := coherent_after calls
  refine ⟨?_, hr.distinct.nodup, hr.distinct.nonempty, fun f e => register_eq_error,
    fun f e h => ?_, ?_, fun n l hl hresolved => ⟨?_, fun more => ?_⟩, ?_⟩
  · exact features_run coherent_empty calls
  · rw [after_append]
    exact perform_register_error h
  · intro before ownerId property occurrence targetId later hcalls
    obtain ⟨l, hl, hid, hresolved⟩ :=
      (coherent_after before).link_run ownerId property occurrence targetId later
    refine ⟨l, ?_, hid, ?_⟩
    · rw [hcalls, after_append, refer_eq]
      exact hl
    · rw [hresolved]
      simp only [after_append]
      rfl
  · rcases hr.targets n l hl with hunset | ⟨t, ht, htarget⟩
    · simp [Link.isResolved, hunset, Slot.isSet] at hresolved
    · obtain ⟨hmem, hid⟩ := hr.distinct.feature?_eq_some.1 ht
      exact ⟨t, hmem, hid, htarget⟩
  · rw [after_append]
    exact ((hr.stands_of_isResolved hl hresolved).stays hr more).link
  · intro earlier since hcalls hearlier hsince
    have hreports : (after calls).pending.map (·.report) = collect unmet? (after earlier) since := by
      rw [hcalls, after_append, pending_run hsince, pending_after hearlier]
      rfl
    exact ⟨by rw [hr.settle_eq.2.2.1, hreports], by rw [← hreports, List.length_map]⟩

end Registry

end FeatureMarkup

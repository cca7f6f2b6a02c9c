import FeatureMarkup.Proofs.Schema.Limits

/-! What is answered to an element, whatever has been answered before.

The validator keeps one place and one count, and a violation may leave it half way through a
move. `Verdict` says the answer in other words: by how often every declaration has occurred so
far. The two agree behind any elements, `violations_exact`, because a place that has been left
or not yet reached is told by the invariant `Tracks` as well as the active one. The move to a
later declaration and the end of the elements ask the same question of the declarations passed
over, namely which is the first that lacks an occurrence (`firstUnder`). -/
namespace FeatureMarkup.Progress

/-! ### Too few occurrences -/

/-- Every declaration from `start` on and before `stop` has occurred often enough, the
occurrences being numbered by place. -/
def Satisfied (declarations : List Declaration) (number : Nat → Nat) (start stop : Nat) : Prop :=
  ∀ i e, start ≤ i → i < stop → declarations[i]? = some e → e.minOccurs.toNat ≤ number i

/-- The first declaration from `start` on and before `stop` that lacks an occurrence. -/
structure FirstLacking (declarations : List Declaration) (number : Nat → Nat) (start stop k : Nat)
    (d : Declaration) : Prop where
  start_le : start ≤ k
  lt_stop : k < stop
  declared : declarations[k]? = some d
  lacks : number k < d.minOccurs.toNat
  before : Satisfied declarations number start k

/-- The answer to an element and the place that is active then. -/
inductive Verdict (takes : Declaration → Bool) (declarations : List Declaration)
    (number : Nat → Nat) (active : Nat) : Except Violation Declaration × Nat → Prop where
  /-- All declarations have been left. -/
  | past : declarations[active]? = none →
      Verdict takes declarations number active (.error .unexpected, active)
  | stays {d} : declarations[active]? = some d → takes d = true →
      d.maxOccurs.Covers (number active + 1) → Verdict takes declarations number active (.ok d, active)
  | tooMany {d} : declarations[active]? = some d → takes d = true →
      ¬d.maxOccurs.Covers (number active + 1) →
      Verdict takes declarations number active (.error (.over d), active)
  | tooFew {current k d} {found : UInt32} : declarations[active]? = some current →
      takes current = false →
      FirstLacking declarations number active (place takes declarations (active + 1)) k d →
      found.toNat = number k → Verdict takes declarations number active (.error (.under d found), k)
  | moves {current d} : declarations[active]? = some current → takes current = false →
      Satisfied declarations number active (place takes declarations (active + 1)) →
      declarations[place takes declarations (active + 1)]? = some d →
      Verdict takes declarations number active (.ok d, place takes declarations (active + 1))
  /-- No later declaration takes the element. -/
  | unknown {current} : declarations[active]? = some current → takes current = false →
      Satisfied declarations number active (place takes declarations (active + 1)) →
      declarations[place takes declarations (active + 1)]? = none →
      Verdict takes declarations number active (.error .unexpected, declarations.length)

section Places
variable {takes : Declaration → Bool} {declarations : List Declaration} {places : List Nat}
  {p : Progress}

/-- What the state tells of a place that has not been left. -/
theorem Tracks.count_eq (ht : Tracks declarations places p) {i : Nat} (hi : p.active ≤ i) :
    places.count i = (if i = p.active then p.count else 0).toNat := by
  by_cases hactive : i = p.active
  · simp [hactive, ht.count]
  · have hfresh : i ∉ places := fun hmem => by
      have := ht.within i hmem
      omega
    simp [hactive, List.count_eq_zero.2 hfresh]

theorem getElem?_take_drop (declarations : List Declaration) (start stop i : Nat) :
    ((declarations.take stop).drop start)[i]? =
      if start + i < stop then declarations[start + i]? else none := by
  rw [List.getElem?_drop, List.getElem?_take]

theorem Tracks.firstUnder_eq_none_iff (ht : Tracks declarations places p) (stop : Nat) :
    firstUnder p.active p.count ((declarations.take stop).drop p.active) = none ↔
      Satisfied declarations places.count p.active stop := by
  have hshift (i : Nat) : (if i = 0 then p.count else 0).toNat = places.count (p.active + i) := by
    simp [ht.count_eq (Nat.le_add_right p.active i)]
  simp only [firstUnder_eq_none, getElem?_take_drop, UInt32.le_iff_toNat_le, hshift]
  constructor
  · intro h i e hle hlt he
    have hi : p.active + (i - p.active) = i := Nat.add_sub_cancel' hle
    simpa [hi, hlt, he] using h (i - p.active) e
  · intro h i e he
    by_cases hlt : p.active + i < stop
    · rw [if_pos hlt] at he
      exact h _ e (Nat.le_add_right _ _) hlt he
    · simp [hlt] at he

theorem Tracks.firstUnder_eq_some_iff (ht : Tracks declarations places p) {stop k : Nat}
    {d : Declaration} {found : UInt32} :
    firstUnder p.active p.count ((declarations.take stop).drop p.active) = some (k, d, found) ↔
      FirstLacking declarations places.count p.active stop k d ∧ found.toNat = places.count k := by
  have hshift (i : Nat) : (if i = 0 then p.count else 0).toNat = places.count (p.active + i) := by
    simp [ht.count_eq (Nat.le_add_right p.active i)]
  simp only [Progress.firstUnder_eq_some_iff, getElem?_take_drop, UInt32.le_iff_toNat_le,
    UInt32.lt_iff_toNat_lt, ← UInt32.toNat_inj, hshift]
  constructor
  · intro hgiven
    obtain ⟨i, rfl, hd, hfound, hlacks, hbefore⟩ := hgiven
    have hlt : p.active + i < stop := by
      refine Nat.not_le.1 fun hge => ?_
      simp [Nat.not_lt.2 hge] at hd
    refine ⟨⟨Nat.le_add_right _ _, hlt, by simpa [hlt] using hd, by omega, ?_⟩, hfound⟩
    intro i' e hle hlt' he
    have hi : p.active + (i' - p.active) = i' := Nat.add_sub_cancel' hle
    have hstop : i' < stop := Nat.lt_trans hlt' hlt
    simpa [hi, hstop, he] using hbefore (i' - p.active) e (by omega)
  · intro hgiven
    obtain ⟨⟨hle, hlt, hd, hlacks, hbefore⟩, hfound⟩ := hgiven
    have hk : p.active + (k - p.active) = k := Nat.add_sub_cancel' hle
    refine ⟨k - p.active, hk.symm, by simpa [hk, hlt] using hd, by simpa [hk] using hfound,
      by omega, fun i' e hlt' he => ?_⟩
    have hstop : p.active + i' < stop := by omega
    rw [if_pos hstop] at he
    exact hbefore _ e (Nat.le_add_right _ _) (by omega) he

/-! ### One element -/

/-- The move to a later declaration holds those that it passes over against their least number
of occurrences, the active one included, and all of them where no later one takes the element. -/
theorem moveOn_eq (p : Progress) (left : Declaration) (later : List Declaration) :
    moveOn takes p left later =
      match firstUnder p.active p.count (left :: later.take (later.findIdx takes)) with
      | some (k, d, found) => (.error (.under d found), ⟨k, found⟩)
      | none =>
        match later[later.findIdx takes]? with
        | some d => (.ok d, ⟨p.active + 1 + later.findIdx takes, 1⟩)
        | none => (.error .unexpected, ⟨p.active + 1 + later.length, 0⟩) := by
  induction later generalizing p left with
  | nil => by_cases h : p.count < left.minOccurs <;> simp [moveOn, firstUnder, h]
  | cons next later ih =>
    rw [moveOn, firstUnder]
    by_cases h : p.count < left.minOccurs
    · simp [h]
    · cases htakes : takes next with
      | true => simp [h, htakes, List.findIdx_cons, firstUnder]
      | false =>
        simp only [h, htakes, if_false, Bool.false_eq_true, ih, List.findIdx_cons, cond_false,
          List.take_succ_cons, List.getElem?_cons_succ, List.length_cons]
        simp only [Nat.add_assoc, Nat.add_comm 1]

theorem accept_of_past (h : declarations[p.active]? = none) :
    accept takes declarations p = (.error .unexpected, p) := by
  have hdrop : declarations.drop p.active = [] := List.drop_eq_nil_iff.2 (List.getElem?_eq_none_iff.1 h)
  simp [accept, hdrop]

theorem accept_of_takes {current : Declaration} (h : declarations[p.active]? = some current)
    (htakes : takes current = true) :
    accept takes declarations p =
      if current.maxOccurs.allows (p.count + 1) then (.ok current, ⟨p.active, p.count + 1⟩)
      else (.error (.over current), p) := by
  simp [accept, drop_eq_cons_of_getElem? h, htakes]

/-- An element that the active declaration does not take is searched for behind it. -/
theorem accept_of_not_takes {current : Declaration} (h : declarations[p.active]? = some current)
    (htakes : takes current = false) :
    accept takes declarations p =
      match firstUnder p.active p.count
        ((declarations.take (place takes declarations (p.active + 1))).drop p.active) with
      | some (k, d, found) => (.error (.under d found), ⟨k, found⟩)
      | none =>
        match declarations[place takes declarations (p.active + 1)]? with
        | some d => (.ok d, ⟨place takes declarations (p.active + 1), 1⟩)
        | none => (.error .unexpected, ⟨declarations.length, 0⟩) := by
  obtain ⟨hlt, -⟩ := List.getElem?_eq_some_iff.1 h
  have hpassed : (declarations.take (place takes declarations (p.active + 1))).drop p.active =
      current :: (declarations.drop (p.active + 1)).take
        ((declarations.drop (p.active + 1)).findIdx takes) := by
    rw [List.drop_take, drop_eq_cons_of_getElem? h, place,
      show ∀ n, p.active + 1 + n - p.active = n + 1 by omega, List.take_succ_cons]
  have hlength : p.active + 1 + (declarations.drop (p.active + 1)).length = declarations.length := by
    rw [List.length_drop]
    omega
  rw [accept, drop_eq_cons_of_getElem? h, hpassed]
  simp only [htakes, Bool.false_eq_true, if_false, moveOn_eq, hlength, List.getElem?_drop]
  rfl

theorem accept_over {d : Declaration} (h : (accept takes declarations p).1 = .error (.over d)) :
    (accept takes declarations p).2 = p := by
  cases hcurrent : declarations[p.active]? with
  | none => rw [accept_of_past hcurrent]
  | some current =>
    cases htakes : takes current with
    | true =>
      rw [accept_of_takes hcurrent htakes] at h ⊢
      by_cases hallows : current.maxOccurs.allows (p.count + 1) = true
      · simp [hallows] at h
      · simp [hallows]
    | false =>
      rw [accept_of_not_takes hcurrent htakes] at h
      split at h
      · simp at h
      · split at h <;> simp at h

namespace Tracks

theorem covers_iff (ht : Tracks declarations places p)
    (hroom : places.count p.active + 1 < UInt32.size) (max : MaxOccurs) :
    max.Covers (places.count p.active + 1) ↔ max.allows (p.count + 1) = true := by
  rw [← ht.count] at hroom ⊢
  rw [← toNat_count_add_one hroom, MaxOccurs.covers_toNat]

/-- Nothing else is answered. -/
theorem eq_of_verdict (ht : Tracks declarations places p)
    (hroom : places.count p.active + 1 < UInt32.size) {verdict : Except Violation Declaration × Nat}
    (h : Verdict takes declarations places.count p.active verdict) :
    verdict = ((Progress.accept takes declarations p).1,
      (Progress.accept takes declarations p).2.active) := by
  cases h with
  | past hnone => rw [accept_of_past hnone]
  | stays hd htakes hcovers =>
    have hallows := (ht.covers_iff hroom _).1 hcovers
    simp [accept_of_takes hd htakes, hallows]
  | tooMany hd htakes hfull =>
    have hallows := mt (ht.covers_iff hroom _).2 hfull
    simp [accept_of_takes hd htakes, hallows]
  | tooFew hcurrent htakes hlacking hfound =>
    rw [accept_of_not_takes hcurrent htakes, ht.firstUnder_eq_some_iff.2 ⟨hlacking, hfound⟩]
  | moves hcurrent htakes hsatisfied hd =>
    rw [accept_of_not_takes hcurrent htakes, (ht.firstUnder_eq_none_iff _).2 hsatisfied, hd]
  | unknown hcurrent htakes hsatisfied hnone =>
    rw [accept_of_not_takes hcurrent htakes, (ht.firstUnder_eq_none_iff _).2 hsatisfied, hnone]

/-- The cases leave nothing out. -/
theorem exists_verdict (ht : Tracks declarations places p) (takes : Declaration → Bool) :
    ∃ verdict, Verdict takes declarations places.count p.active verdict := by
  cases hcurrent : declarations[p.active]? with
  | none => exact ⟨_, .past hcurrent⟩
  | some current =>
    cases htakes : takes current with
    | true =>
      by_cases hcovers : current.maxOccurs.Covers (places.count p.active + 1)
      · exact ⟨_, .stays hcurrent htakes hcovers⟩
      · exact ⟨_, .tooMany hcurrent htakes hcovers⟩
    | false =>
      let stop := place takes declarations (p.active + 1)
      cases hunder : firstUnder p.active p.count ((declarations.take stop).drop p.active) with
      | some short =>
        obtain ⟨hlacking, hfound⟩ := ht.firstUnder_eq_some_iff.1 hunder
        exact ⟨_, .tooFew hcurrent htakes hlacking hfound⟩
      | none =>
        have hsatisfied := (ht.firstUnder_eq_none_iff stop).1 hunder
        cases hstop : declarations[stop]? with
        | none => exact ⟨_, .unknown hcurrent htakes hsatisfied hstop⟩
        | some d => exact ⟨_, .moves hcurrent htakes hsatisfied hstop⟩

/-- The answer to an element is the verdict on it. -/
theorem verdict_iff (ht : Tracks declarations places p)
    (hroom : places.count p.active + 1 < UInt32.size) (takes : Declaration → Bool)
    (verdict : Except Violation Declaration × Nat) :
    Verdict takes declarations places.count p.active verdict ↔
      verdict = ((Progress.accept takes declarations p).1,
        (Progress.accept takes declarations p).2.active) := by
  constructor
  · exact ht.eq_of_verdict hroom
  · intro h
    obtain ⟨given, hgiven⟩ := ht.exists_verdict takes
    rw [h, ← ht.eq_of_verdict hroom hgiven]
    exact hgiven

/-- The end of the elements is refused for the first declaration that lacks an occurrence. -/
theorem finish_eq_error_iff (ht : Tracks declarations places p) (v : Violation) :
    Progress.finish declarations p true = .error v ↔
      ∃ k d found, FirstLacking declarations places.count p.active declarations.length k d ∧
        found.toNat = places.count k ∧ v = .under d found := by
  have hall : declarations.drop p.active = (declarations.take declarations.length).drop p.active := by
    rw [List.take_length]
  unfold Progress.finish shortfall?
  rw [if_pos rfl, hall]
  cases hunder : firstUnder p.active p.count
      ((declarations.take declarations.length).drop p.active) with
  | none =>
    have hsatisfied := (ht.firstUnder_eq_none_iff _).1 hunder
    simp only [reduceCtorEq, false_iff, not_exists]
    intro k d found h
    exact absurd (hsatisfied k d h.1.start_le h.1.lt_stop h.1.declared) (Nat.not_le.2 h.1.lacks)
  | some short =>
    obtain ⟨k, d, found⟩ := short
    simp only [Except.error.injEq]
    constructor
    · intro h
      exact ⟨k, d, found, (ht.firstUnder_eq_some_iff.1 hunder).1,
        (ht.firstUnder_eq_some_iff.1 hunder).2, h.symm⟩
    · intro h
      obtain ⟨k', d', found', hlacking, hfound, rfl⟩ := h
      have hsame := hunder.symm.trans (ht.firstUnder_eq_some_iff.2 ⟨hlacking, hfound⟩)
      simp only [Option.some.injEq, Prod.mk.injEq] at hsame
      rw [hsame.2.1, hsame.2.2]

end Tracks

/-! ### Never back -/

theorem active_le_accept (takes : Declaration → Bool) (declarations : List Declaration)
    (p : Progress) : p.active ≤ (accept takes declarations p).2.active := by
  rcases haccept : accept takes declarations p with ⟨v | d, p'⟩
  · rcases accept_eq_error haccept with rfl | ⟨hlt, -⟩
    · exact Nat.le_refl _
    · exact Nat.le_of_lt hlt
  · exact (accept_place haccept).1

end Places

variable {α : Type} {declarations : List Declaration} {p : Progress}

/-- No answer goes back to a place that has been left. -/
theorem active_le_answers (takes : α → Declaration → Bool) (word : List α)
    {answer : Except Violation Declaration × Progress}
    (h : answer ∈ answers takes declarations p word) : p.active ≤ answer.2.active := by
  induction word generalizing p with
  | nil => cases h
  | cons e rest ih =>
    have hfirst := active_le_accept (takes e) declarations p
    rcases List.mem_cons.1 h with rfl | h
    · exact hfirst
    · exact Nat.le_trans hfirst (ih h)

/-! ### All elements so far -/

/-- Behind any elements, whatever was wrong with them, the answer to the next one is the verdict
by the numbers of occurrences so far. An occurrence too many leaves the state as it is, the
place never goes back, and the end of the elements finds the first declaration that lacks
occurrences. -/
theorem violations_exact (takes : α → Declaration → Bool) (declarations : List Declaration)
    (word : List α) (hfew : word.length < UInt32.size) :
    let p := after takes declarations .initial word
    let number (i : Nat) : Nat := (taken takes declarations .initial word).count i
    (∀ e, word.length + 1 < UInt32.size → ∀ verdict,
      Verdict (takes e) declarations number p.active verdict ↔
        verdict = ((accept (takes e) declarations p).1, (accept (takes e) declarations p).2.active)) ∧
    (∀ e d, (accept (takes e) declarations p).1 = .error (.over d) →
      (accept (takes e) declarations p).2 = p) ∧
    (∀ more, ∀ answer ∈ answers takes declarations p more, p.active ≤ answer.2.active ∧
      ∀ d, answer.1 = .ok d → declarations[answer.2.active]? = some d) ∧
    (∀ v, finish declarations p true = .error v ↔
      ∃ k d found, FirstLacking declarations number p.active declarations.length k d ∧
        found.toNat = number k ∧ v = .under d found) := by
  intro p number
  have hkeeps : Keeps declarations (taken takes declarations .initial word) p :=
    keeps_initial.run (by simpa using hfew)
  have ht := hkeeps.tracks
  refine ⟨fun e hroom verdict => ?_, fun e d => accept_over, fun more answer hanswer => ?_,
    ht.finish_eq_error_iff⟩
  · have hle : number p.active ≤ word.length :=
      Nat.le_trans List.count_le_length (length_taken_le word)
    exact ht.verdict_iff (Nat.lt_of_le_of_lt (Nat.succ_le_succ hle) hroom) (takes e) verdict
  · exact ⟨active_le_answers takes more hanswer, fun d hd => answers_place hanswer hd⟩

/-- A lane before the name, a second name, and a remark behind too few lanes. -/
theorem violations_exact_lanes :
    let name := Declaration.single (.unqualified "name") .simple
    let lane := (Declaration.single (.unqualified "lane") .simple).occurs 2 (.bounded 3)
    let remark := (Declaration.single (.unqualified "remark") .simple).optional
    let takes (e : Name) (d : Declaration) : Bool := e = d.name
    let declarations := [name, lane, remark]
    let word := [lane.name, name.name, name.name, lane.name, remark.name]
    let p := after takes declarations .initial word
    word.length + 1 < UInt32.size ∧ p = ⟨1, 1⟩ ∧
      Verdict (takes remark.name) declarations
        (fun i => (taken takes declarations .initial word).count i) p.active
        (.error (.under lane 1), 1) ∧
      (accept (takes name.name) declarations (after takes declarations .initial [name.name])).2 =
        after takes declarations .initial [name.name] := by
  intro name lane remark takes declarations word p
  have hword : word.length + 1 < UInt32.size := by decide
  obtain ⟨hverdict, -⟩ := violations_exact takes declarations word (by decide)
  obtain ⟨-, hover, -⟩ := violations_exact takes declarations [name.name] (by decide)
  have hplace : after takes declarations .initial word = ⟨1, 1⟩ := by decide +kernel
  have hunder := hverdict remark.name hword (.error (.under lane 1), 1)
  rw [hplace] at hunder
  refine ⟨hword, hplace, ?_, hover name.name name rfl⟩
  rw [show p = ⟨1, 1⟩ from hplace]
  exact hunder.2 rfl

end FeatureMarkup.Progress

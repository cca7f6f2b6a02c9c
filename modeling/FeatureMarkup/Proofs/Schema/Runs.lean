import Mathlib.Data.List.Forall2
import FeatureMarkup.Proofs.Schema.Places

/-! Runs of elements, one for each declaration.

A word splits into runs, one for each declaration in order, of elements that the declaration
takes, no fewer and no more than it says. `Completes` says which runs are still to come at a
place where some elements have been counted. Accepting an element takes it off the first run
that is not empty, and the runs left are those still to come behind it (`leads_of_accept`);
where no element is taken by two declarations, that works the other way too
(`accept_of_leads`). -/
namespace FeatureMarkup

/-- So many occurrences are no more than a limit. -/
def MaxOccurs.Covers : MaxOccurs → Nat → Prop
  | .bounded limit, n => n ≤ limit.toNat
  | .unbounded, _ => True

instance : (max : MaxOccurs) → (n : Nat) → Decidable (max.Covers n)
  | .bounded limit, n => inferInstanceAs (Decidable (n ≤ limit.toNat))
  | .unbounded, _ => isTrue trivial

namespace MaxOccurs
variable {max : MaxOccurs} {m n : Nat}

theorem covers_toNat {count : UInt32} : max.Covers count.toNat ↔ max.allows count = true := by
  cases max with
  | bounded limit => simp [Covers, allows, UInt32.le_iff_toNat_le]
  | unbounded => simp [Covers, allows]

theorem Covers.mono (h : max.Covers n) (hle : m ≤ n) : max.Covers m := by
  cases max with
  | bounded limit => exact Nat.le_trans hle h
  | unbounded => trivial

theorem covers_zero (max : MaxOccurs) : max.Covers 0 := by
  cases max with
  | bounded limit => exact Nat.zero_le _
  | unbounded => trivial

/-- Only the limit zero leaves no room for an occurrence. -/
theorem covers_one (h : max ≠ .bounded 0) : max.Covers 1 := by
  cases max with
  | bounded limit =>
    have hlimit : limit.toNat ≠ 0 := fun hzero => h (congrArg _ (UInt32.toNat_inj.1 hzero))
    exact Nat.one_le_iff_ne_zero.2 hlimit
  | unbounded => trivial

end MaxOccurs

namespace Progress
variable {α : Type}

/-- Elements that a declaration takes and that, with the `count` elements before them, are all
there is of it. -/
structure Fills (takes : α → Declaration → Bool) (count : Nat) (d : Declaration) (run : List α) :
    Prop where
  own : ∀ e ∈ run, takes e d = true
  least : d.minOccurs.toNat ≤ count + run.length
  most : d.maxOccurs.Covers (count + run.length)

/-- A word that is put together from runs, one for each declaration. -/
structure Splits (takes : α → Declaration → Bool) (declarations : List Declaration)
    (word : List α) (runs : List (List α)) : Prop where
  fills : List.Forall₂ (Fills takes 0) declarations runs
  word : runs.flatten = word

/-- No element is taken by two of the declarations. -/
def Apart (takes : α → Declaration → Bool) (declarations : List Declaration) : Prop :=
  declarations.Pairwise fun d d' => ∀ e, ¬(takes e d = true ∧ takes e d' = true)

/-- The answers to the elements of runs when each goes to the declaration of its run, the
first of the declarations having this place. -/
def assigned (place : Nat) : List Declaration → List (List α) →
    List (Except Violation Declaration × Nat)
  | d :: later, run :: runs => run.map (fun _ => (.ok d, place)) ++ assigned (place + 1) later runs
  | _, _ => []

/-- Runs that are still to come when the first of the declarations has had `count` elements
and the others none. -/
inductive Completes (takes : α → Declaration → Bool) (count : Nat) :
    List Declaration → List (List α) → Prop where
  | nil : Completes takes count [] []
  | cons {d later run runs} : Fills takes count d run → List.Forall₂ (Fills takes 0) later runs →
      Completes takes count (d :: later) (run :: runs)

/-- An element is the first of some runs, in the run of this number, and the other runs are
left from there on. -/
inductive Leads (e : α) : List (List α) → Nat → List (List α) → Prop where
  | here {run runs} : Leads e ((e :: run) :: runs) 0 (run :: runs)
  | later {runs k runs'} : Leads e runs k runs' → Leads e ([] :: runs) (k + 1) runs'

/-- Runs no longer than a count can tell, the first with `count` elements before it. -/
def Counted (count : Nat) : List (List α) → Prop
  | [] => True
  | run :: runs => count + run.length < UInt32.size ∧ ∀ run ∈ runs, run.length < UInt32.size

variable {takes : α → Declaration → Bool} {declarations later : List Declaration}
  {p p' : Progress} {d : Declaration} {e : α} {run : List α} {runs runs' : List (List α)}
  {count : Nat}

theorem completes_zero_iff :
    Completes takes 0 declarations runs ↔ List.Forall₂ (Fills takes 0) declarations runs := by
  constructor
  · intro h
    cases h with
    | nil => exact .nil
    | cons hrun hlater => exact .cons hrun hlater
  · intro h
    cases h with
    | nil => exact .nil
    | cons hrun hlater => exact .cons hrun hlater

/-! ### The first element -/

namespace Leads
variable {k : Nat}

theorem flatten (h : Leads e runs k runs') : runs.flatten = e :: runs'.flatten := by
  induction h with
  | here => rfl
  | later _ ih => simpa using ih

/-- Runs that are not all empty have a first element. -/
theorem of_flatten {rest : List α} (h : runs.flatten = e :: rest) :
    ∃ k runs', Leads e runs k runs' ∧ runs'.flatten = rest := by
  induction runs with
  | nil => cases h
  | cons run runs ih =>
    cases run with
    | nil =>
      obtain ⟨k, runs', hlead, hrest⟩ := ih (by simpa using h)
      exact ⟨k + 1, runs', .later hlead, hrest⟩
    | cons e' run =>
      rw [List.flatten_cons, List.cons_append, List.cons.injEq] at h
      obtain ⟨rfl, rfl⟩ := h
      exact ⟨0, run :: runs, .here, rfl⟩

/-- The first element goes to the declaration of its run, and the others where they would go
without it. -/
theorem assigned (h : Leads e runs k runs') {place : Nat} (hd : declarations[k]? = some d) :
    assigned place declarations runs =
      (.ok d, place + k) :: assigned (place + k) (declarations.drop k) runs' := by
  induction h generalizing declarations place with
  | here =>
    cases declarations with
    | nil => cases hd
    | cons d' later =>
      obtain rfl : d' = d := Option.some.inj hd
      rfl
  | @later runs k runs' _ ih =>
    cases declarations with
    | nil => cases hd
    | cons d' later =>
      have hrest : Progress.assigned (place + 1) later runs =
          (.ok d, place + (k + 1)) ::
            Progress.assigned (place + (k + 1)) (later.drop k) runs' := by
        rw [ih (by simpa using hd), Nat.add_right_comm, Nat.add_assoc]
      simpa [Progress.assigned] using hrest

theorem counted_of_short (h : Leads e runs k runs') (hshort : ∀ run ∈ runs, run.length < UInt32.size) :
    Counted 1 runs' := by
  induction h with
  | @here run runs =>
    rw [List.forall_mem_cons, List.length_cons, Nat.add_comm] at hshort
    exact hshort
  | later _ ih => exact ih (List.forall_mem_cons.1 hshort).2

/-- Taking the first element off leaves runs that can be counted, if they could be before. -/
theorem counted (h : Leads e runs k runs') (hcounted : Counted count runs) :
    (k = 0 → count + 1 < UInt32.size) ∧ Counted (if k = 0 then count + 1 else 1) runs' := by
  cases h with
  | here =>
    obtain ⟨hrun, hshort⟩ := hcounted
    rw [List.length_cons] at hrun
    exact ⟨fun _ => by omega, by rw [if_pos rfl]; omega, hshort⟩
  | later h =>
    rw [if_neg (Nat.succ_ne_zero _)]
    exact ⟨fun hzero => absurd hzero (Nat.succ_ne_zero _), h.counted_of_short hcounted.2⟩

end Leads

/-! ### One element -/

theorem fills_nil_iff :
    Fills takes count d [] ↔ d.minOccurs.toNat ≤ count ∧ d.maxOccurs.Covers count :=
  ⟨fun h => ⟨h.least, h.most⟩, fun h => ⟨nofun, h.1, h.2⟩⟩

/-- An element of a run counts like one before it. -/
theorem fills_cons_iff :
    Fills takes count d (e :: run) ↔ takes e d = true ∧ Fills takes (count + 1) d run := by
  have hlength : count + (e :: run).length = count + 1 + run.length := by
    rw [List.length_cons]
    omega
  constructor
  · intro h
    exact ⟨h.own e List.mem_cons_self, fun e' he' => h.own e' (List.mem_cons_of_mem _ he'),
      hlength ▸ h.least, hlength ▸ h.most⟩
  · intro hgiven
    obtain ⟨htakes, h⟩ := hgiven
    refine ⟨fun e' he' => ?_, hlength.symm ▸ h.least, hlength.symm ▸ h.most⟩
    rcases List.mem_cons.1 he' with rfl | he'
    · exact htakes
    · exact h.own e' he'

/-- Declarations that ask for no element may be passed over. -/
theorem exists_leads {k : Nat} (hd : later[k]? = some d) (htakes : takes e d = true)
    (hskip : ∀ i d', i < k → later[i]? = some d' → d'.minOccurs = 0)
    (h : Completes takes 1 (later.drop k) runs') :
    ∃ runs, Leads e runs k runs' ∧ List.Forall₂ (Fills takes 0) later runs := by
  induction k generalizing later with
  | zero =>
    cases h with
    | nil => cases hd
    | cons hrun hlater =>
      obtain rfl := Option.some.inj hd
      exact ⟨_, .here, .cons (fills_cons_iff.2 ⟨htakes, hrun⟩) hlater⟩
  | succ k ih =>
    cases later with
    | nil => cases hd
    | cons d' later =>
      obtain ⟨runs, hlead, hruns⟩ := ih (by simpa using hd)
        (fun i d' hi hd' => hskip (i + 1) d' (by omega) hd') h
      have hzero : d'.minOccurs = 0 := hskip 0 d' (Nat.succ_pos k) rfl
      have hempty : Fills takes 0 d' [] :=
        fills_nil_iff.2 ⟨by simp [hzero], d'.maxOccurs.covers_zero⟩
      exact ⟨[] :: runs, .later hlead, .cons hempty hruns⟩

/-- The first element of some runs is taken by the declaration of its run, and the
declarations before that ask for none. -/
theorem Leads.fills {k : Nat} (hlead : Leads e runs k runs')
    (h : List.Forall₂ (Fills takes 0) later runs) :
    ∃ d, later[k]? = some d ∧ takes e d = true ∧
      (∀ i d', i < k → later[i]? = some d' → d'.minOccurs = 0) ∧
      Completes takes 1 (later.drop k) runs' := by
  induction hlead generalizing later with
  | here =>
    cases h with
    | @cons d _ _ _ hrun hlater =>
      obtain ⟨htakes, hrun⟩ := fills_cons_iff.1 hrun
      exact ⟨d, rfl, htakes, nofun, .cons hrun hlater⟩
  | later _ ih =>
    cases h with
    | @cons d' _ _ _ hrun hlater =>
      obtain ⟨d, hd, htakes, hskip, hrest⟩ := ih hlater
      refine ⟨d, hd, htakes, fun i d'' hi hd'' => ?_, hrest⟩
      cases i with
      | zero =>
        obtain rfl := Option.some.inj hd''
        have hmin := (fills_nil_iff.1 hrun).1
        exact UInt32.toNat_inj.1 (Nat.le_zero.1 hmin)
      | succ i => exact hskip i d'' (by omega) hd''

/-- The count of the active declaration is within its limit. -/
def Within (declarations : List Declaration) (p : Progress) : Prop :=
  ∀ d, declarations[p.active]? = some d → d.maxOccurs.Covers p.count.toNat

theorem within_initial : Within declarations .initial :=
  fun d _ => d.maxOccurs.covers_zero

theorem toNat_count_add_one (h : p.count.toNat + 1 < UInt32.size) :
    (p.count + 1).toNat = p.count.toNat + 1 := by
  rw [UInt32.toNat_add]
  exact Nat.mod_eq_of_lt h

/-- What accepting an element does to the counts. -/
theorem within_of_accept (hmax : ∀ d ∈ declarations, d.maxOccurs ≠ .bounded 0)
    (h : accept (takes e) declarations p = (.ok d, p')) : Within declarations p' := by
  intro d' hd'
  obtain ⟨current, hcurrent, ⟨-, hallows, -, rfl⟩ | ⟨-, -, j, -, -, -, -, rfl⟩⟩ := accept_eq_ok.1 h
  · obtain rfl := Option.some.inj (hcurrent.symm.trans hd')
    exact MaxOccurs.covers_toNat.2 hallows
  · exact MaxOccurs.covers_one (hmax d' (List.mem_of_getElem? hd'))

theorem count_le_of_accept (hcounted : p.count.toNat + 1 < UInt32.size)
    (h : accept (takes e) declarations p = (.ok d, p')) : p'.count.toNat ≤ p.count.toNat + 1 := by
  obtain ⟨current, -, ⟨-, -, -, rfl⟩ | ⟨-, -, j, -, -, -, -, rfl⟩⟩ := accept_eq_ok.1 h
  · exact Nat.le_of_eq (toNat_count_add_one hcounted)
  · exact Nat.le_add_left 1 _

/-- Accepting an element takes it off the runs: what may come behind it may come with it. -/
theorem leads_of_accept (hwithin : Within declarations p)
    (hcounted : p.count.toNat + 1 < UInt32.size)
    (h : accept (takes e) declarations p = (.ok d, p'))
    (hruns : Completes takes p'.count.toNat (declarations.drop p'.active) runs') :
    ∃ k runs, p'.active = p.active + k ∧ (declarations.drop p.active)[k]? = some d ∧
      Leads e runs k runs' ∧ Completes takes p.count.toNat (declarations.drop p.active) runs := by
  obtain ⟨current, hcurrent, hcase⟩ := accept_eq_ok.1 h
  have hdrop := drop_eq_cons_of_getElem? hcurrent
  rcases hcase with ⟨htakes, -, rfl, rfl⟩ | ⟨-, hmin, j, hj, hd, htakes, hbefore, rfl⟩
  · dsimp only at hruns
    rw [toNat_count_add_one hcounted, hdrop] at hruns
    cases hruns with
    | cons hrun hlater =>
      rw [hdrop]
      exact ⟨0, _, rfl, rfl, .here, .cons (fills_cons_iff.2 ⟨htakes, hrun⟩) hlater⟩
  · obtain ⟨k, rfl⟩ := Nat.exists_eq_add_of_lt hj
    have hlater : ∀ i, (declarations.drop (p.active + 1))[i]? = declarations[p.active + i + 1]? := by
      intro i
      rw [List.getElem?_drop, Nat.add_right_comm]
    have hrest : Completes takes 1 ((declarations.drop (p.active + 1)).drop k) runs' := by
      rw [List.drop_drop, Nat.add_right_comm]
      exact hruns
    obtain ⟨runs, hlead, hfills⟩ := exists_leads (by rw [hlater, hd]) htakes
      (fun i d' hi hd' => (hbefore _ d' (by omega) (by omega) (hlater i ▸ hd')).2) hrest
    have hempty : Fills takes p.count.toNat current [] :=
      fills_nil_iff.2 ⟨UInt32.le_iff_toNat_le.1 hmin, hwithin current hcurrent⟩
    refine ⟨k + 1, [] :: runs, rfl, ?_, .later hlead, ?_⟩
    · rw [hdrop, List.getElem?_cons_succ, hlater, hd]
    · rw [hdrop]
      exact .cons hempty hfills

theorem Apart.not_takes (h : Apart takes declarations) {i j : Nat} {d' : Declaration} (hlt : i < j)
    (hi : declarations[i]? = some d') (hj : declarations[j]? = some d) (htakes : takes e d = true) :
    takes e d' = false := by
  obtain ⟨hi', rfl⟩ := List.getElem?_eq_some_iff.1 hi
  obtain ⟨hj', rfl⟩ := List.getElem?_eq_some_iff.1 hj
  have hboth := List.pairwise_iff_getElem.1 h i j hi' hj' hlt e
  simpa [htakes] using hboth

/-- Where no element is taken by two declarations, the first element of what may come is
accepted for the declaration of its run. -/
theorem accept_of_leads (hapart : Apart takes declarations) {k : Nat}
    (hlead : Leads e runs k runs') (hcounted : k = 0 → p.count.toNat + 1 < UInt32.size)
    (hruns : Completes takes p.count.toNat (declarations.drop p.active) runs) :
    ∃ d p', accept (takes e) declarations p = (.ok d, p') ∧ p'.active = p.active + k ∧
      p'.count.toNat = (if k = 0 then p.count.toNat + 1 else 1) ∧
      (declarations.drop p.active)[k]? = some d ∧
      Completes takes p'.count.toNat (declarations.drop p'.active) runs' := by
  generalize hdrop : declarations.drop p.active = rest at hruns ⊢
  cases hruns with
  | nil => cases hlead
  | @cons current later run runs hrun hlater =>
    obtain ⟨hcurrent, hplace⟩ := getElem?_of_drop_eq_cons hdrop
    have hnext : declarations.drop (p.active + 1) = later := by
      rw [← List.tail_drop, hdrop]
      rfl
    cases hlead with
    | here =>
      obtain ⟨htakes, hrun⟩ := fills_cons_iff.1 hrun
      have hcount := toNat_count_add_one (hcounted rfl)
      have hallows : current.maxOccurs.allows (p.count + 1) = true := by
        rw [← MaxOccurs.covers_toNat, hcount]
        exact hrun.most.mono (Nat.le_add_right _ _)
      refine ⟨current, _, accept_eq_ok.2 ⟨current, hcurrent, .inl ⟨htakes, hallows, rfl, rfl⟩⟩, rfl,
        hcount, rfl, ?_⟩
      rw [hcount, hdrop]
      exact .cons hrun hlater
    | @later _ k _ hlead =>
      obtain ⟨d, hd, htakes, hskip, hrest⟩ := hlead.fills hlater
      have hd' : declarations[p.active + 1 + k]? = some d := hplace k ▸ hd
      have hmin := (fills_nil_iff.1 hrun).1
      refine ⟨d, ⟨p.active + 1 + k, 1⟩, accept_eq_ok.2 ⟨current, hcurrent,
        .inr ⟨hapart.not_takes (by omega) hcurrent hd' htakes, UInt32.le_iff_toNat_le.2 hmin, _,
          by omega, hd', htakes, fun i d' hlt hlt' hi => ⟨hapart.not_takes hlt' hi hd' htakes, ?_⟩,
          rfl⟩⟩, Nat.add_right_comm _ 1 k, by rw [if_neg (Nat.succ_ne_zero k)]; rfl, hd, ?_⟩
      · obtain ⟨i, rfl⟩ := Nat.exists_eq_add_of_le hlt
        exact hskip i d' (by omega) (by rw [hplace, ← hi])
      · rw [← List.drop_drop, hnext]
        exact hrest

end Progress

end FeatureMarkup

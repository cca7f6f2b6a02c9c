import FeatureMarkup.Schema.Progress

/-! The places that elements take among the declarations.

An element that is accepted goes to the first place from the active one on whose
declaration takes it, and the places left behind have had their least number of elements.
`Tracks` is the invariant: what the state of the validator remembers, one place and one
count, is enough to know that of all places so far. Counts are 32-bit words, so the
elements must be fewer than the words there are. -/
namespace FeatureMarkup.Progress

variable {takes : Declaration → Bool} {declarations : List Declaration} {p p' : Progress}
  {d : Declaration}

/-! ### One element -/

theorem moveOn_eq_ok {left : Declaration} {later : List Declaration} :
    moveOn takes p left later = (.ok d, p') ↔
      left.minOccurs ≤ p.count ∧ ∃ j, later[j]? = some d ∧ takes d = true ∧
        (∀ i e, i < j → later[i]? = some e → takes e = false ∧ e.minOccurs = 0) ∧
        p' = ⟨p.active + j + 1, 1⟩ := by
  induction later generalizing p left with
  | nil =>
    unfold moveOn
    split <;> simp
  | cons next later ih =>
    unfold moveOn
    split
    next hlt => simp [UInt32.not_le.2 hlt]
    next hle =>
      have hmin : left.minOccurs ≤ p.count := UInt32.not_lt.1 hle
      split
      next htakes =>
        simp only [Prod.mk.injEq, Except.ok.injEq, hmin, true_and]
        constructor
        · intro h
          obtain ⟨rfl, rfl⟩ := h
          exact ⟨0, rfl, htakes, by simp, rfl⟩
        · intro h
          obtain ⟨j, hj, -, hbefore, rfl⟩ := h
          obtain _ | j := j
          · exact ⟨by simpa using hj, rfl⟩
          · have := (hbefore 0 next (Nat.succ_pos j) rfl).1
            simp [htakes] at this
      next htakes =>
        rw [ih]
        simp only [hmin, true_and]
        constructor
        · intro h
          obtain ⟨hzero, j, hj, hd, hbefore, rfl⟩ := h
          refine ⟨j + 1, hj, hd, fun i e hi he => ?_, by simp; omega⟩
          obtain _ | i := i
          · cases he
            refine ⟨by simpa using htakes, UInt32.le_zero_iff.1 hzero⟩
          · exact hbefore i e (by omega) he
        · intro h
          obtain ⟨j, hj, hd, hbefore, rfl⟩ := h
          obtain _ | j := j
          · cases hj
            exact absurd hd htakes
          · refine ⟨UInt32.le_zero_iff.2 (hbefore 0 next (Nat.succ_pos j) rfl).2, j, hj, hd,
              fun i e hi he => hbefore (i + 1) e (by omega) he, by simp; omega⟩

/-- The list from an element of it on. -/
theorem getElem?_of_drop_eq_cons {α : Type} {l rest : List α} {n : Nat} {a : α}
    (h : l.drop n = a :: rest) : l[n]? = some a ∧ ∀ i, rest[i]? = l[n + 1 + i]? := by
  constructor
  · have hat : (l.drop n)[0]? = l[n]? := List.getElem?_drop
    rw [← hat, h]
    rfl
  · intro i
    have htail : rest = l.drop (n + 1) := by rw [← List.tail_drop, h, List.tail_cons]
    rw [htail, List.getElem?_drop]

theorem drop_eq_cons_of_getElem? {α : Type} {l : List α} {n : Nat} {a : α} (h : l[n]? = some a) :
    l.drop n = a :: l.drop (n + 1) := by
  obtain ⟨hlt, rfl⟩ := List.getElem?_eq_some_iff.1 h
  exact List.drop_eq_getElem_cons hlt

/-- What accepting an element does: it stays at the active place, or moves on to the first
later one whose declaration takes the element, when the active declaration does not. -/
theorem accept_eq_ok :
    accept takes declarations p = (.ok d, p') ↔
      ∃ current, declarations[p.active]? = some current ∧
        ((takes current = true ∧ current.maxOccurs.allows (p.count + 1) = true ∧ d = current ∧
            p' = ⟨p.active, p.count + 1⟩) ∨
          (takes current = false ∧ current.minOccurs ≤ p.count ∧
            ∃ j, p.active < j ∧ declarations[j]? = some d ∧ takes d = true ∧
              (∀ i e, p.active < i → i < j → declarations[i]? = some e →
                takes e = false ∧ e.minOccurs = 0) ∧
              p' = ⟨j, 1⟩)) := by
  unfold accept
  cases hdrop : declarations.drop p.active with
  | nil =>
    have hnone : declarations[p.active]? = none :=
      List.getElem?_eq_none (List.drop_eq_nil_iff.1 hdrop)
    simp [hnone]
  | cons current later =>
    obtain ⟨hcurrent, hlater⟩ := getElem?_of_drop_eq_cons hdrop
    simp only [hcurrent, Option.some.injEq, exists_eq_left']
    cases htakes : takes current with
    | true =>
      simp only [if_true, Bool.true_eq_false, false_and, or_false, true_and]
      split
      next hallows =>
        simp only [Prod.mk.injEq, Except.ok.injEq, hallows, true_and]
        exact and_congr eq_comm eq_comm
      next hallows => simp [hallows]
    | false =>
      simp only [Bool.false_eq_true, if_false, false_and, false_or, true_and, moveOn_eq_ok]
      refine and_congr_right fun _ => ?_
      constructor
      · intro h
        obtain ⟨j, hj, hd, hbefore, rfl⟩ := h
        rw [hlater] at hj
        refine ⟨p.active + 1 + j, by omega, hj, hd, fun i e hlt hlt' he => ?_, by simp; omega⟩
        refine hbefore (i - (p.active + 1)) e (by omega) ?_
        rw [hlater, show p.active + 1 + (i - (p.active + 1)) = i by omega]
        exact he
      · intro h
        obtain ⟨j, hlt, hj, hd, hbefore, rfl⟩ := h
        have hplace : p.active + 1 + (j - (p.active + 1)) = j := by omega
        refine ⟨j - (p.active + 1), by rw [hlater, hplace, hj], hd, fun i e hi he => ?_,
          by simp; omega⟩
        rw [hlater] at he
        exact hbefore _ e (by omega) (by omega) he

/-- An accepted element is taken by the declaration at the place it goes to, and by none
between that place and the one before. -/
theorem accept_place (h : accept takes declarations p = (.ok d, p')) :
    p.active ≤ p'.active ∧ declarations[p'.active]? = some d ∧ takes d = true ∧
      ∀ i e, p.active ≤ i → i < p'.active → declarations[i]? = some e → takes e = false := by
  obtain ⟨current, hcurrent, ⟨htakes, -, rfl, rfl⟩ | ⟨htakes, -, j, hlt, hj, hd, hbefore, rfl⟩⟩ :=
    accept_eq_ok.1 h
  · exact ⟨Nat.le_refl _, hcurrent, htakes, fun i e hle hlt => absurd hle (Nat.not_le.2 hlt)⟩
  · refine ⟨Nat.le_of_lt hlt, hj, hd, fun i e hle hlt' he => ?_⟩
    rcases Nat.eq_or_lt_of_le hle with rfl | hgt
    · cases hcurrent.symm.trans he
      exact htakes
    · exact (hbefore i e hgt hlt' he).1

theorem moveOn_eq_error {left : Declaration} {later : List Declaration} {v : Violation}
    (h : moveOn takes p left later = (.error v, p')) :
    p' = p ∨ (p.active < p'.active ∧ p'.count = 0 ∧ left.minOccurs ≤ p.count ∧
      ∀ i e, p.active + 1 + i < p'.active → later[i]? = some e → e.minOccurs = 0) := by
  induction later generalizing p left with
  | nil =>
    unfold moveOn at h
    split at h
    · exact .inl (Prod.mk.inj h).2.symm
    next hle =>
      obtain rfl := (Prod.mk.inj h).2
      exact .inr ⟨Nat.lt_succ_self _, rfl, UInt32.not_lt.1 hle, nofun⟩
  | cons next later ih =>
    unfold moveOn at h
    split at h
    · exact .inl (Prod.mk.inj h).2.symm
    next hle =>
      split at h
      · cases (Prod.mk.inj h).1
      · refine .inr ?_
        rcases ih h with rfl | ⟨hlt, hcount, hzero, hbefore⟩
        · exact ⟨Nat.lt_succ_self _, rfl, UInt32.not_lt.1 hle, fun i e hi =>
            absurd hi (by show ¬ p.active + 1 + i < p.active + 1; omega)⟩
        · refine ⟨Nat.lt_of_succ_lt hlt, hcount, UInt32.not_lt.1 hle, fun i e hi he => ?_⟩
          obtain _ | i := i
          · cases he
            exact UInt32.le_zero_iff.1 hzero
          · exact hbefore i e (by show p.active + 1 + 1 + i < _; omega) he

/-- An element that is not accepted leaves the place or moves it on, over declarations that
have occurred often enough, to one that has not occurred. -/
theorem accept_eq_error {v : Violation} (h : accept takes declarations p = (.error v, p')) :
    p' = p ∨ (p.active < p'.active ∧ p'.count = 0 ∧
      (∀ e, declarations[p.active]? = some e → e.minOccurs ≤ p.count) ∧
      ∀ i e, p.active < i → i < p'.active → declarations[i]? = some e → e.minOccurs = 0) := by
  unfold accept at h
  cases hdrop : declarations.drop p.active with
  | nil =>
    rw [hdrop] at h
    exact .inl (Prod.mk.inj h).2.symm
  | cons current later =>
    obtain ⟨hcurrent, hlater⟩ := getElem?_of_drop_eq_cons hdrop
    rw [hdrop] at h
    dsimp only at h
    split at h
    · split at h
      · cases (Prod.mk.inj h).1
      · exact .inl (Prod.mk.inj h).2.symm
    · refine (moveOn_eq_error h).imp_right ?_
      intro hgiven
      obtain ⟨hlt, hcount, hmin, hbefore⟩ := hgiven
      refine ⟨hlt, hcount, fun e he => ?_, fun i e hgt hi he => ?_⟩
      · cases hcurrent.symm.trans he
        exact hmin
      · refine hbefore (i - (p.active + 1)) e (by omega) ?_
        rw [hlater, show p.active + 1 + (i - (p.active + 1)) = i by omega]
        exact he

/-- The first place from one on whose declaration takes an element, or the place behind the
last. -/
def place (takes : Declaration → Bool) (declarations : List Declaration) (start : Nat) : Nat :=
  start + (declarations.drop start).findIdx takes

theorem place_eq {start i : Nat} (hle : start ≤ i) (hd : declarations[i]? = some d)
    (htakes : takes d = true)
    (hbetween : ∀ k e, start ≤ k → k < i → declarations[k]? = some e → takes e = false) :
    place takes declarations start = i := by
  obtain ⟨hlt, hget⟩ := List.getElem?_eq_some_iff.1 hd
  have hfound : (declarations.drop start).findIdx takes = i - start := by
    refine (List.findIdx_eq (by rw [List.length_drop]; omega)).2 ⟨?_, fun k hk => ?_⟩
    · simpa [Nat.add_sub_cancel' hle, hget] using htakes
    · rw [List.getElem_drop]
      exact hbetween _ _ (Nat.le_add_right _ _) (by omega) (List.getElem?_eq_getElem _)
  rw [place, hfound, Nat.add_sub_cancel' hle]

theorem accept_active (h : accept takes declarations p = (.ok d, p')) :
    p'.active = place takes declarations p.active := by
  obtain ⟨hle, hd, htakes, hbetween⟩ := accept_place h
  exact (place_eq hle hd htakes hbetween).symm

/-! ### The end of the elements -/

theorem firstUnder_eq_none {place : Nat} {count : UInt32} {later : List Declaration} :
    firstUnder place count later = none ↔
      ∀ i e, later[i]? = some e → e.minOccurs ≤ if i = 0 then count else 0 := by
  induction later generalizing place count with
  | nil => simp [firstUnder]
  | cons next later ih =>
    unfold firstUnder
    split
    next hlt =>
      refine ⟨nofun, fun h => absurd (h 0 next rfl) (UInt32.not_le.2 hlt)⟩
    next hle =>
      rw [ih]
      constructor
      · intro h i e he
        obtain _ | i := i
        · cases he
          exact UInt32.not_lt.1 hle
        · have := h i e he
          simpa using this
      · intro h i e he
        simpa using h (i + 1) e he

theorem firstUnder_eq_some_iff {place k : Nat} {count found : UInt32} {later : List Declaration}
    {d : Declaration} : firstUnder place count later = some (k, d, found) ↔
      ∃ i, k = place + i ∧ later[i]? = some d ∧ found = (if i = 0 then count else 0) ∧
        found < d.minOccurs ∧
        ∀ i' e, i' < i → later[i']? = some e → e.minOccurs ≤ if i' = 0 then count else 0 := by
  induction later generalizing place count with
  | nil => simp [firstUnder]
  | cons next later ih =>
    unfold firstUnder
    split
    next hlt =>
      simp only [Option.some.injEq, Prod.mk.injEq]
      constructor
      · intro hgiven
        obtain ⟨rfl, rfl, rfl⟩ := hgiven
        exact ⟨0, rfl, rfl, rfl, hlt, by simp⟩
      · intro hgiven
        obtain ⟨i, rfl, hi, rfl, -, hbefore⟩ := hgiven
        obtain _ | i := i
        · exact ⟨rfl, by simpa using hi, rfl⟩
        · exact absurd hlt (UInt32.not_lt.2 (hbefore 0 next (Nat.succ_pos i) rfl))
    next hle =>
      rw [ih]
      constructor
      · intro hgiven
        obtain ⟨i, rfl, hi, hfound, hfew, hbefore⟩ := hgiven
        refine ⟨i + 1, by omega, hi, by simpa using hfound, hfew, fun i' e hlt he => ?_⟩
        obtain _ | i' := i'
        · cases he
          exact UInt32.not_lt.1 hle
        · simpa using hbefore i' e (Nat.lt_of_succ_lt_succ hlt) he
      · intro hgiven
        obtain ⟨i, rfl, hi, rfl, hfew, hbefore⟩ := hgiven
        obtain _ | i := i
        · cases hi
          exact absurd hfew hle
        · refine ⟨i, by omega, hi, by simp, hfew, fun i' e hlt he => ?_⟩
          simpa using hbefore (i' + 1) e (Nat.succ_lt_succ hlt) he

/-- What the end of the elements is refused for is a declaration that lacks some. -/
theorem finish_eq_error {checkRest : Bool} {v : Violation}
    (h : finish declarations p checkRest = .error v) :
    ∃ d found, v = .under d found ∧ d ∈ declarations ∧ found < d.minOccurs := by
  unfold finish at h
  cases hshort : p.shortfall? declarations checkRest with
  | none => simp [hshort] at h
  | some short =>
    obtain ⟨i, d, found⟩ := short
    simp only [hshort, Except.error.injEq] at h
    unfold shortfall? at hshort
    split at hshort
    · obtain ⟨_, -, hget, -, hlt, -⟩ := firstUnder_eq_some_iff.1 hshort
      exact ⟨d, found, h.symm, List.mem_of_mem_drop (List.mem_of_getElem? hget), hlt⟩
    · cases hshort

/-- If the rest is checked, the elements may end where no declaration lacks any. -/
theorem finish_true_eq_ok :
    finish declarations p true = .ok () ↔
      firstUnder p.active p.count (declarations.drop p.active) = none := by
  unfold finish shortfall?
  cases firstUnder p.active p.count (declarations.drop p.active) <;> simp

/-- The elements may end where no declaration from the active one on lacks any, or where
that is not asked for. -/
theorem finish_eq_ok {checkRest : Bool} :
    finish declarations p checkRest = .ok () ↔
      (checkRest = true → ∀ i e, p.active ≤ i → declarations[i]? = some e →
        e.minOccurs ≤ if i = p.active then p.count else 0) := by
  cases checkRest with
  | false => simp [finish, shortfall?]
  | true =>
    rw [finish_true_eq_ok, firstUnder_eq_none]
    simp only [List.getElem?_drop, true_implies]
    constructor
    · intro h i e hle he
      have hat := h (i - p.active) e (by rwa [Nat.add_sub_cancel' hle])
      by_cases hi : i = p.active
      · simpa [hi] using hat
      · rw [if_neg (by omega)] at hat
        rwa [if_neg hi]
    · intro h i e he
      have hat := h (p.active + i) e (Nat.le_add_right _ _) he
      by_cases hi : i = 0
      · simpa [hi] using hat
      · rw [if_neg (by omega)] at hat
        rwa [if_neg hi]

/-! ### All elements so far -/

/-- What the state of a validator tells of the places that the elements so far have
taken. -/
structure Tracks (declarations : List Declaration) (places : List Nat) (p : Progress) : Prop where
  /-- The count is that of the active place. -/
  count : p.count.toNat = places.count p.active
  /-- No later place has been taken. -/
  within : ∀ i ∈ places, i ≤ p.active
  /-- Every earlier place has had its least number of elements. -/
  left : ∀ i e, i < p.active → declarations[i]? = some e → e.minOccurs.toNat ≤ places.count i
  /-- No place has had too many; the first element of a declaration is not held against its
  greatest number. -/
  most : ∀ i e, declarations[i]? = some e →
    places.count i ≤ 1 ∨ e.maxOccurs.allows (.ofNat (places.count i)) = true

theorem tracks_initial : Tracks declarations [] .initial :=
  ⟨rfl, nofun, fun _ _ hlt => absurd hlt (Nat.not_lt_zero _),
    fun _ _ _ => .inl (Nat.zero_le _)⟩

theorem Tracks.accept {places : List Nat} (ht : Tracks declarations places p)
    (hlength : places.length + 1 < UInt32.size) (h : accept takes declarations p = (.ok d, p')) :
    Tracks declarations (places ++ [p'.active]) p' := by
  have hcount : places.count p.active ≤ places.length := List.count_le_length
  have hother : ∀ i, i ≠ p'.active → (places ++ [p'.active]).count i = places.count i := by
    intro i hi
    simp [List.count_append, hi.symm]
  obtain ⟨current, hcurrent, ⟨-, hallows, rfl, rfl⟩ | ⟨-, hmin, j, hlt, -, -, hbefore, rfl⟩⟩ :=
    accept_eq_ok.1 h
  · have hadd : p.count + 1 = .ofNat (places.count p.active + 1) := by
      rw [← ht.count, UInt32.ofNat_add, UInt32.ofNat_toNat]
      rfl
    have hsize : (UInt32.ofNat (places.count p.active + 1)).toNat = places.count p.active + 1 :=
      UInt32.toNat_ofNat_of_lt' (by omega)
    refine ⟨by rw [hadd, hsize, List.count_append, List.count_singleton_self], fun i hi => ?_,
      fun i e hi he => ?_, fun i e he => ?_⟩
    · rcases List.mem_append.1 hi with hi | hi
      · exact ht.within i hi
      · exact Nat.le_of_eq (List.mem_singleton.1 hi)
    · rw [hother i (Nat.ne_of_lt hi)]
      exact ht.left i e hi he
    · by_cases hi : i = p.active
      · subst hi
        cases hcurrent.symm.trans he
        exact .inr (by simpa [List.count_append, ← hadd] using hallows)
      · rw [hother i hi]
        exact ht.most i e he
  · have hfresh : places.count j = 0 :=
      List.count_eq_zero.2 fun hj => absurd (ht.within j hj) (Nat.not_le.2 hlt)
    refine ⟨by simp [hfresh], fun i hi => ?_, fun i e hi he => ?_, fun i e he => ?_⟩
    · rcases List.mem_append.1 hi with hi | hi
      · exact Nat.le_trans (ht.within i hi) (Nat.le_of_lt hlt)
      · exact Nat.le_of_eq (List.mem_singleton.1 hi)
    · rw [hother i (Nat.ne_of_lt hi)]
      rcases Nat.lt_trichotomy i p.active with hlt' | rfl | hgt
      · exact ht.left i e hlt' he
      · cases hcurrent.symm.trans he
        rw [← ht.count]
        exact UInt32.le_iff_toNat_le.1 hmin
      · rw [(hbefore i e hgt hi he).2]
        exact Nat.zero_le _
    · by_cases hi : i = j
      · exact .inl (by simp [hi, hfresh])
      · rw [hother i hi]
        exact ht.most i e he

/-- An element that is not accepted takes no place. -/
theorem Tracks.reject {places : List Nat} {v : Violation} (ht : Tracks declarations places p)
    (h : Progress.accept takes declarations p = (.error v, p')) :
    Tracks declarations places p' := by
  rcases accept_eq_error h with rfl | ⟨hlt, hcount, hmin, hbefore⟩
  · exact ht
  have hfresh : places.count p'.active = 0 :=
    List.count_eq_zero.2 fun hmem => absurd (ht.within _ hmem) (Nat.not_le.2 hlt)
  refine ⟨by rw [hcount, hfresh]; rfl, fun i hi => Nat.le_trans (ht.within i hi) (Nat.le_of_lt hlt),
    fun i e hi he => ?_, ht.most⟩
  rcases Nat.lt_trichotomy i p.active with hlt' | rfl | hgt
  · exact ht.left i e hlt' he
  · rw [← ht.count]
    exact UInt32.le_iff_toNat_le.1 (hmin e he)
  · rw [hbefore i e hgt hi he]
    exact Nat.zero_le _

/-- The end of the elements finds every declaration satisfied, if the rest is checked. -/
theorem Tracks.finish {places : List Nat} (ht : Tracks declarations places p)
    (h : finish declarations p true = .ok ()) :
    ∀ i e, declarations[i]? = some e → e.minOccurs.toNat ≤ places.count i := by
  intro i e he
  rcases Nat.lt_or_ge i p.active with hlt | hge
  · exact ht.left i e hlt he
  · have hmin := finish_eq_ok.1 h rfl i e hge he
    split at hmin
    next hi =>
      rw [hi, ← ht.count]
      exact UInt32.le_iff_toNat_le.1 hmin
    next =>
      rw [UInt32.le_zero_iff.1 hmin]
      exact Nat.zero_le _

end FeatureMarkup.Progress

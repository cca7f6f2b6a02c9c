import FeatureMarkup.Proofs.Schema.Answers
import FeatureMarkup.Proofs.Schema.Runs

/-! The greatest numbers of occurrences, kept over any elements.

An element that stays at the active place is held against the greatest number there; one
that moves on to a later place is not. A later place takes an element only when it is moved
to, so that only the number zero is exceeded, by that one element. The first place is active
from the beginning and exceeds no number. -/
namespace FeatureMarkup

/-- So many elements at a place are no more than its declaration says, or are the one that a
later place lets through where there should be none. -/
def Declaration.Kept (d : Declaration) (place n : Nat) : Prop :=
  d.maxOccurs.Covers n ∨ (place ≠ 0 ∧ d.maxOccurs = .bounded 0 ∧ n = 1)

namespace Progress

variable {α : Type} {takes : α → Declaration → Bool} {declarations : List Declaration}
  {places : List Nat} {p p' : Progress}

/-- The places that elements take one after another; those that are not accepted take none. -/
def taken (takes : α → Declaration → Bool) (declarations : List Declaration) (p : Progress)
    (word : List α) : List Nat :=
  (answers takes declarations p word).filterMap fun answer =>
    match answer.1 with
    | .ok _ => some answer.2.active
    | .error _ => none

/-! ### One element -/

/-- What the state tells of the places so far, and that the first has kept its greatest
number. -/
structure Keeps (declarations : List Declaration) (places : List Nat) (p : Progress) : Prop where
  tracks : p.Tracks declarations places
  first : ∀ d, declarations[0]? = some d → d.maxOccurs.Covers (places.count 0)

theorem keeps_initial : Keeps declarations [] .initial :=
  ⟨tracks_initial, fun d _ => d.maxOccurs.covers_zero⟩

theorem Keeps.accept {takes : Declaration → Bool} {d : Declaration}
    (hk : Keeps declarations places p) (hlength : places.length + 1 < UInt32.size)
    (h : Progress.accept takes declarations p = (.ok d, p')) :
    Keeps declarations (places ++ [p'.active]) p' := by
  have ht := hk.tracks.accept hlength h
  refine ⟨ht, fun e he => ?_⟩
  obtain ⟨current, hcurrent, ⟨-, hallows, rfl, rfl⟩ | ⟨-, -, j, hlt, -, -, -, rfl⟩⟩ :=
    accept_eq_ok.1 h
  · by_cases hactive : p.active = 0
    · rw [hactive] at hcurrent
      cases hcurrent.symm.trans he
      have hcount := ht.count
      rw [← MaxOccurs.covers_toNat, hcount] at hallows
      rwa [hactive] at hallows ⊢
    · simpa [List.count_append, hactive] using hk.first e he
  · have hj : j ≠ 0 := Nat.ne_zero_of_lt hlt
    simpa [List.count_append, hj] using hk.first e he

/-- No place has had more elements than it should, but for the one let through. -/
theorem Keeps.kept {i : Nat} {d : Declaration} (hk : Keeps declarations places p)
    (hlength : places.length < UInt32.size) (hd : declarations[i]? = some d) :
    d.Kept i (places.count i) := by
  have hle : places.count i ≤ places.length := List.count_le_length
  rcases hk.tracks.most i d hd with hone | hallows
  · by_cases hroom : d.maxOccurs = .bounded 0
    · rcases Nat.le_one_iff_eq_zero_or_eq_one.1 hone with hzero | hone
      · exact .inl (hzero ▸ d.maxOccurs.covers_zero)
      by_cases hi : i = 0
      · subst hi
        exact .inl (hk.first d hd)
      · exact .inr ⟨hi, hroom, hone⟩
    · exact .inl ((MaxOccurs.covers_one hroom).mono hone)
  · rw [← MaxOccurs.covers_toNat, UInt32.toNat_ofNat_of_lt' (by omega)] at hallows
    exact .inl hallows

/-! ### All elements -/

theorem taken_cons_ok {e : α} {rest : List α} {d : Declaration}
    (h : accept (takes e) declarations p = (.ok d, p')) :
    taken takes declarations p (e :: rest) = p'.active :: taken takes declarations p' rest := by
  rw [taken, answers, h]
  rfl

theorem taken_cons_error {e : α} {rest : List α} {v : Violation}
    (h : accept (takes e) declarations p = (.error v, p')) :
    taken takes declarations p (e :: rest) = taken takes declarations p' rest := by
  rw [taken, answers, h]
  rfl

theorem taken_append (word more : List α) :
    taken takes declarations p (word ++ more) =
      taken takes declarations p word ++
        taken takes declarations (after takes declarations p word) more := by
  induction word generalizing p with
  | nil => rfl
  | cons e rest ih =>
    rcases haccept : Progress.accept (takes e) declarations p with ⟨outcome | d, p₁⟩
    · rw [List.cons_append, taken_cons_error haccept, taken_cons_error haccept, after_cons haccept,
        ih]
    · rw [List.cons_append, taken_cons_ok haccept, taken_cons_ok haccept, after_cons haccept, ih,
        List.cons_append]

theorem length_taken_le (word : List α) :
    (taken takes declarations p word).length ≤ word.length := by
  have hanswers : (answers takes declarations p word).length = word.length := by
    induction word generalizing p with
    | nil => rfl
    | cons e rest ih => rw [answers, List.length_cons, List.length_cons, ih]
  exact hanswers ▸ List.length_filterMap_le _ _

theorem Keeps.run {word : List α} (hk : Keeps declarations places p)
    (hlength : places.length + word.length < UInt32.size) :
    Keeps declarations (places ++ taken takes declarations p word)
      (after takes declarations p word) := by
  induction word generalizing places p with
  | nil => simpa [taken, answers, after] using hk
  | cons e rest ih =>
    rw [List.length_cons] at hlength
    rcases haccept : Progress.accept (takes e) declarations p with ⟨outcome | d, p₁⟩
    · rw [taken_cons_error haccept, after_cons haccept]
      exact ih ⟨hk.tracks.reject haccept, hk.first⟩ (by omega)
    · rw [taken_cons_ok haccept, after_cons haccept, List.append_cons]
      exact ih (hk.accept (by omega) haccept)
        (by rw [List.length_append, List.length_singleton]; omega)

/-- Over any elements, accepted or not, no place has more of them than it should, but for the
one let through. -/
theorem taken_kept (takes : α → Declaration → Bool) {word : List α}
    (hlength : word.length < UInt32.size) {i : Nat} {d : Declaration}
    (hd : declarations[i]? = some d) :
    d.Kept i ((taken takes declarations .initial word).count i) := by
  have hkeeps : Keeps declarations (taken takes declarations .initial word) _ :=
    keeps_initial.run (by rwa [List.length_nil, Nat.zero_add])
  exact hkeeps.kept (Nat.lt_of_le_of_lt (length_taken_le word) hlength) hd

/-- An accepted element goes to the declaration at the place that is active then. -/
theorem answers_place {word : List α} {answer : Except Violation Declaration × Progress}
    {d : Declaration} (hmem : answer ∈ answers takes declarations p word)
    (hd : answer.1 = .ok d) : declarations[answer.2.active]? = some d := by
  induction word generalizing p with
  | nil => cases hmem
  | cons e rest ih =>
    rw [answers] at hmem
    rcases List.mem_cons.1 hmem with rfl | hmem
    · exact (accept_place (Prod.ext hd rfl)).2.1
    · exact ih hmem

end Progress

end FeatureMarkup

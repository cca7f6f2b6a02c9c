import FeatureMarkup.Proofs.Schema.Places

/-! What the validator answers to elements one after another.

The elements go on behind a violation, from the place that the search for a declaration has
come to. -/
namespace FeatureMarkup.Progress

variable {α : Type} {takes : α → Declaration → Bool} {declarations : List Declaration}
  {p : Progress}

/-- The answers to elements one after another, each with the state that it leaves. -/
def answers (takes : α → Declaration → Bool) (declarations : List Declaration) (p : Progress) :
    List α → List (Except Violation Declaration × Progress)
  | [] => []
  | e :: rest =>
    let answer := accept (takes e) declarations p
    answer :: answers takes declarations answer.2 rest

/-- The state that elements leave one after another. -/
def after (takes : α → Declaration → Bool) (declarations : List Declaration) (p : Progress)
    (word : List α) : Progress :=
  word.foldl (fun p e => (accept (takes e) declarations p).2) p

/-- The answers alone, with the place of the declaration that is active then. -/
def outcomes (takes : α → Declaration → Bool) (declarations : List Declaration) (p : Progress)
    (word : List α) : List (Except Violation Declaration × Nat) :=
  (answers takes declarations p word).map fun answer => (answer.1, answer.2.active)

/-- All of the elements are accepted. -/
def Accepted (takes : α → Declaration → Bool) (declarations : List Declaration) (p : Progress)
    (word : List α) : Prop :=
  ∀ answer ∈ answers takes declarations p word, ∃ d, answer.1 = .ok d

section Cons
variable {p' : Progress} {e : α} {rest : List α} {outcome : Except Violation Declaration}

theorem after_cons (h : accept (takes e) declarations p = (outcome, p')) :
    after takes declarations p (e :: rest) = after takes declarations p' rest := by
  rw [after, List.foldl_cons, h]
  rfl

theorem outcomes_cons (h : accept (takes e) declarations p = (outcome, p')) :
    outcomes takes declarations p (e :: rest) =
      (outcome, p'.active) :: outcomes takes declarations p' rest := by
  rw [outcomes, answers, h]
  rfl

theorem accepted_cons :
    Accepted takes declarations p (e :: rest) ↔
      ∃ d p', accept (takes e) declarations p = (.ok d, p') ∧
        Accepted takes declarations p' rest := by
  unfold Accepted
  rw [answers]
  rcases haccept : accept (takes e) declarations p with ⟨outcome, p'⟩
  constructor
  · intro h
    obtain ⟨d, rfl⟩ := h _ List.mem_cons_self
    exact ⟨d, p', rfl, fun answer hanswer => h answer (List.mem_cons_of_mem _ hanswer)⟩
  · intro hgiven answer hanswer
    obtain ⟨d, p₁, heq, hrest⟩ := hgiven
    obtain ⟨rfl, rfl⟩ := Prod.mk.inj heq
    rcases List.mem_cons.1 hanswer with rfl | hanswer
    · exact ⟨d, rfl⟩
    · exact hrest answer hanswer

end Cons

end FeatureMarkup.Progress

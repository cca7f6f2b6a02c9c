import FeatureMarkup.Proofs.Success

/-! Two runs in step.

Two readings are in step when from states that stand in a relation they fail with the same error,
or both succeed with values and in states that are related again. The rules put readings in step
together from their parts; nothing is asked of the relations but what the parts keep. -/
namespace FeatureMarkup

open Xml (Attribute)

variable {τ α α' β β' σ σ' : Type} {S : τ → τ → Prop} {V : α → α' → Prop} {W : β → β' → Prop}

/-- What two runs in step come to. -/
def InStep (S : τ → τ → Prop) (V : α → α' → Prop) :
    EStateM.Result ReadError τ α → EStateM.Result ReadError τ α' → Prop
  | .ok a s, .ok a' s' => V a a' ∧ S s s'
  | .error e _, .error e' _ => e = e'
  | _, _ => False

/-- Readings that are in step from related states. -/
def Lockstep (S : τ → τ → Prop) (V : α → α' → Prop) (m : EStateM ReadError τ α)
    (m' : EStateM ReadError τ α') : Prop :=
  ∀ ⦃s s'⦄, S s s' → InStep S V (m s) (m' s')

theorem InStep.bind {m : EStateM ReadError τ α} {m' : EStateM ReadError τ α'}
    {f : α → EStateM ReadError τ β} {f' : α' → EStateM ReadError τ β'} {s s' : τ}
    (hm : InStep S V (m s) (m' s'))
    (hf : ∀ a a' s₁ s₁', V a a' → S s₁ s₁' → InStep S W (f a s₁) (f' a' s₁')) :
    InStep S W ((m >>= f) s) ((m' >>= f') s') := by
  show InStep S W (EStateM.bind m f s) (EStateM.bind m' f' s')
  unfold EStateM.bind
  cases hs : m s with
  | ok a s₁ =>
    cases hs' : m' s' with
    | ok a' s₁' =>
      rw [hs, hs'] at hm
      exact hf a a' s₁ s₁' hm.1 hm.2
    | error e' s₁' =>
      rw [hs, hs'] at hm
      exact hm.elim
  | error e s₁ =>
    cases hs' : m' s' with
    | ok a' s₁' =>
      rw [hs, hs'] at hm
      exact hm.elim
    | error e' s₁' =>
      rw [hs, hs'] at hm
      exact hm

namespace Lockstep

theorem pure {a : α} {a' : α'} (h : V a a') :
    Lockstep S V (Pure.pure a : EStateM ReadError τ α) (Pure.pure a' : EStateM ReadError τ α') :=
  fun _ _ hs => ⟨h, hs⟩

theorem throw (e : ReadError) :
    Lockstep S V (MonadExcept.throw e : EStateM ReadError τ α)
      (MonadExcept.throw e : EStateM ReadError τ α') :=
  fun _ _ _ => rfl

theorem bind {m : EStateM ReadError τ α} {m' : EStateM ReadError τ α'}
    {f : α → EStateM ReadError τ β} {f' : α' → EStateM ReadError τ β'} (hm : Lockstep S V m m')
    (hf : ∀ a a', V a a' → Lockstep S W (f a) (f' a')) : Lockstep S W (m >>= f) (m' >>= f') :=
  fun _ _ hs => (hm hs).bind fun a a' _ _ ha hs₁ => hf a a' ha hs₁

theorem map {m : EStateM ReadError τ α} {m' : EStateM ReadError τ α'} {f : α → β} {f' : α' → β'}
    (hm : Lockstep S V m m') (hf : ∀ a a', V a a' → W (f a) (f' a')) :
    Lockstep S W (f <$> m) (f' <$> m') := by
  rw [map_eq_pure_bind, map_eq_pure_bind]
  exact hm.bind fun a a' ha => .pure (hf a a' ha)

/-- What depends on the state is in step when it is so for any related states. -/
theorem get {f : τ → EStateM ReadError τ α} {f' : τ → EStateM ReadError τ α'}
    (hf : ∀ s s', S s s' → Lockstep S V (f s) (f' s')) :
    Lockstep S V (MonadState.get >>= f) (MonadState.get >>= f') :=
  fun s s' hs => hf s s' hs hs

theorem modify {change change' : τ → τ} (h : ∀ s s', S s s' → S (change s) (change' s')) :
    Lockstep S Eq (modify change : EStateM ReadError τ PUnit) (modify change') :=
  fun s s' hs => ⟨rfl, h s s' hs⟩

theorem ite {p : Prop} [Decidable p] {m₁ m₂ : EStateM ReadError τ α} {m₁' m₂' : EStateM ReadError τ α'}
    (h₁ : Lockstep S V m₁ m₁') (h₂ : Lockstep S V m₂ m₂') :
    Lockstep S V (if p then m₁ else m₂) (if p then m₁' else m₂') := by
  split
  · exact h₁
  · exact h₂

/-- Errors that are the same are wrapped alike. -/
theorem inProperty {m : EStateM ReadError τ α} {m' : EStateM ReadError τ α'} (hm : Lockstep S V m m')
    (property : Name) (position : Position) :
    Lockstep S V (inProperty property position m) (inProperty property position m') := by
  intro s s' hs
  have h := hm hs
  unfold FeatureMarkup.inProperty
  cases hread : m s <;> cases hread' : m' s' <;> rw [hread, hread'] at h
  · exact h
  · exact h.elim
  · exact h.elim
  · exact congrArg _ h

/-- Two loops are in step when what moves them and their bodies are. -/
theorem foldTags {next : EStateM ReadError τ Tag}
    {body : Name → List Attribute → σ → EStateM ReadError τ σ}
    {body' : Name → List Attribute → σ' → EStateM ReadError τ σ'} {V : σ → σ' → Prop}
    (hnext : Lockstep S Eq next next)
    (hbody : ∀ name attributes a a', V a a' →
      Lockstep S V (body name attributes a) (body' name attributes a'))
    (rounds : Nat) {a : σ} {a' : σ'} (ha : V a a') :
    Lockstep S (fun r r' => r.1 = r'.1 ∧ V r.2 r'.2) (FeatureMarkup.foldTags next body rounds a)
      (FeatureMarkup.foldTags next body' rounds a') := by
  induction rounds generalizing a a' with
  | zero => exact .pure ⟨rfl, ha⟩
  | succ rounds ih =>
    refine bind hnext ?_
    rintro tag _ rfl
    cases tag with
    | start name attributes => exact bind (hbody name attributes a a' ha) fun _ _ ha₁ => ih ha₁
    | stop | finish => exact .pure ⟨rfl, ha⟩

/-! ### What one run tells of the other -/

theorem of_ok {m : EStateM ReadError τ α} {m' : EStateM ReadError τ α'} (h : Lockstep S V m m')
    {s s' s₁' : τ} {a' : α'} (hs : S s s') (hread : m' s' = .ok a' s₁') :
    ∃ a s₁, m s = .ok a s₁ ∧ V a a' ∧ S s₁ s₁' := by
  have hstep := h hs
  rw [hread] at hstep
  cases hm : m s with
  | ok a s₁ =>
    rw [hm] at hstep
    exact ⟨a, s₁, rfl, hstep⟩
  | error e s₁ =>
    rw [hm] at hstep
    exact hstep.elim

theorem of_error {m : EStateM ReadError τ α} {m' : EStateM ReadError τ α'} (h : Lockstep S V m m')
    {s s' s₁' : τ} {e : ReadError} (hs : S s s') (hread : m' s' = .error e s₁') :
    ∃ s₁, m s = .error e s₁ := by
  have hstep := h hs
  rw [hread] at hstep
  cases hm : m s with
  | ok a s₁ =>
    rw [hm] at hstep
    exact hstep.elim
  | error e' s₁ =>
    rw [hm] at hstep
    exact ⟨s₁, by rw [show e' = e from hstep]⟩

end Lockstep

end FeatureMarkup

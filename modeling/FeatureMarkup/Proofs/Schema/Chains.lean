import Mathlib.Data.List.Nodup
import Mathlib.Data.List.Perm.Subperm
import Mathlib.Logic.Relation
import FeatureMarkup.Schema.Substitution

/-! Which names a chain meets.

A chain goes from a name to the next one, where it has one, and may come back to a name it has
met. What it meets are exactly the names that can be reached: `Underway` is what holds while it
is followed, and says that nothing met so far leads anywhere but to where the chain is about to
go. Only finitely many names lead on, so a bound above their number never ends a chain. -/
namespace FeatureMarkup.Trail

variable {next : Name → Option Name} {known : List Name} {steps : Nat} {met : List Name}
  {current : Option Name}

/-- A name leads on to the next one. -/
def Leads (next : Name → Option Name) (a b : Name) : Prop := next a = some b

/-- A chain that is being followed with so many steps to go, all names that lead on being
among the known ones. -/
structure Underway (next : Name → Option Name) (known : List Name) (steps : Nat)
    (met : List Name) (current : Option Name) : Prop where
  nodup : met.Nodup
  leads : ∀ a ∈ met, ∀ b, Leads next a b → b ∈ met ∨ current = some b
  inside : current ≠ none → met ⊆ known
  room : known.length < steps + met.length

theorem underway_start (h : known.length < steps) (start : Option Name) :
    Underway next known steps [] start :=
  ⟨.nil, nofun, fun _ => List.nil_subset _, h⟩

namespace Underway

/-- A chain that goes on still has a step to go. -/
theorem steps_pos {name : Name} (h : Underway next known steps met (some name)) : 0 < steps := by
  have hle : met.length ≤ known.length :=
    (List.subperm_of_subset h.nodup (h.inside nofun)).length_le
  have := h.room
  omega

/-- One name further. -/
theorem step (hknown : ∀ a b, Leads next a b → a ∈ known) {name : Name}
    (h : Underway next known (steps + 1) met (some name)) (hnew : name ∉ met) :
    Underway next known steps (name :: met) (next name) where
  nodup := List.nodup_cons.2 ⟨hnew, h.nodup⟩
  leads a ha b hb := by
    rcases List.mem_cons.1 ha with rfl | ha
    · exact .inr hb
    · rcases h.leads a ha b hb with hmet | hcurrent
      · exact .inl (List.mem_cons_of_mem _ hmet)
      · exact .inl (Option.some.inj hcurrent ▸ List.mem_cons_self)
  inside hmore := by
    obtain ⟨b, hb⟩ := Option.ne_none_iff_exists'.1 hmore
    exact List.cons_subset.2 ⟨hknown name b hb, h.inside nofun⟩
  room := by
    have := h.room
    simp only [List.length_cons]
    omega

end Underway

/-! ### Following to the end -/

/-- The names of a chain followed to its end, from those met before on: each once, with a name
the one it leads to. -/
structure Exhausts (next : Name → Option Name) (met : List Name) (current : Option Name)
    (names : List Name) : Prop where
  nodup : names.Nodup
  met_subset : met ⊆ names
  current_mem : ∀ name, current = some name → name ∈ names
  closed : ∀ a ∈ names, ∀ b, Leads next a b → b ∈ names

/-- A chain is at its end where it goes nowhere but to a name it has met. -/
theorem Underway.exhausts (h : Underway next known steps met current)
    (hback : ∀ name, current = some name → name ∈ met) : Exhausts next met current met.reverse where
  nodup := List.nodup_reverse.2 h.nodup
  met_subset _ := List.mem_reverse.2
  current_mem name hname := List.mem_reverse.2 (hback name hname)
  closed a ha b hb :=
    List.mem_reverse.2 ((h.leads a (List.mem_reverse.1 ha) b hb).elim id (hback b))

theorem follow_none : follow next steps met none = ⟨met.reverse, none⟩ := by
  cases steps <;> rfl

/-- A bound above the number of names that lead on is enough to come to the end. -/
theorem Underway.exhausts_follow (hknown : ∀ a b, Leads next a b → a ∈ known)
    (h : Underway next known steps met current) :
    Exhausts next met current (follow next steps met current).names := by
  induction steps generalizing met current with
  | zero =>
    cases current with
    | some name => exact absurd h.steps_pos (Nat.lt_irrefl 0)
    | none => exact h.exhausts nofun
  | succ steps ih =>
    cases current with
    | none => exact h.exhausts nofun
    | some name =>
      rw [follow]
      split
      next hmem => exact h.exhausts fun _ hname => Option.some.inj hname ▸ hmem
      next hnew =>
        have hlater := ih (h.step hknown hnew)
        obtain ⟨hname, hmet⟩ := List.cons_subset.1 hlater.met_subset
        exact ⟨hlater.nodup, hmet, fun _ hsame => Option.some.inj hsame ▸ hname, hlater.closed⟩

/-- Nothing is met that cannot be reached. -/
theorem reaches_of_mem_follow {name : Name} (h : name ∈ (follow next steps met current).names) :
    name ∈ met ∨ ∃ start, current = some start ∧ Relation.ReflTransGen (Leads next) start name := by
  induction steps generalizing met current with
  | zero => cases current <;> exact .inl (List.mem_reverse.1 h)
  | succ steps ih =>
    cases current with
    | none => exact .inl (List.mem_reverse.1 h)
    | some start =>
      rw [follow] at h
      split at h
      next => exact .inl (List.mem_reverse.1 h)
      next =>
        rcases ih h with hmem | ⟨second, hsecond, hreach⟩
        · rcases List.mem_cons.1 hmem with rfl | hmem
          · exact .inr ⟨name, rfl, .refl⟩
          · exact .inl hmem
        · exact .inr ⟨start, rfl, hreach.head hsecond⟩

/-- A chain meets exactly the names that can be reached. -/
theorem mem_follow_iff (hknown : ∀ a b, Leads next a b → a ∈ known) (hsteps : known.length < steps)
    {start : Option Name} {name : Name} :
    name ∈ (follow next steps [] start).names ↔
      ∃ first, start = some first ∧ Relation.ReflTransGen (Leads next) first name := by
  have hends := (underway_start hsteps start).exhausts_follow hknown
  constructor
  · intro h
    exact (reaches_of_mem_follow h).resolve_left List.not_mem_nil
  · rintro ⟨first, hstart, hreach⟩
    induction hreach with
    | refl => exact hends.current_mem first hstart
    | tail _ hlead ih => exact hends.closed _ ih _ hlead

/-- It is not the bound that ends a chain: with more steps it ends where it did. -/
theorem follow_add (hknown : ∀ a b, Leads next a b → a ∈ known)
    (h : Underway next known steps met current) (more : Nat) :
    follow next (steps + more) met current = follow next steps met current := by
  induction steps generalizing met current with
  | zero =>
    cases current with
    | some name => exact absurd h.steps_pos (Nat.lt_irrefl 0)
    | none => rw [follow_none, follow_none]
  | succ steps ih =>
    rw [Nat.succ_add]
    cases current with
    | none => rfl
    | some name =>
      rw [follow, follow]
      split
      next => rfl
      next hnew => exact ih (h.step hknown hnew)

end FeatureMarkup.Trail

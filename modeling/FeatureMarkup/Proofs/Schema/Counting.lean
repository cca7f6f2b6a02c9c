import FeatureMarkup.Proofs.Schema.Limits

/-! How far the count of occurrences can be trusted, over any number of elements.

`Tracks` needs the elements to be fewer than there are 32-bit words. `Counts` asks for nothing
and holds behind every run: the count is the number of occurrences up to a multiple of
`UInt32.size`. A declaration with a limit below the greatest word is never accepted so often
that this makes a difference, since the limit is passed first. Only an endless one lets the
count start again from zero, at every multiple of `UInt32.size` (`count_eq_or_overflows`,
`overflows_lanes`). -/
namespace FeatureMarkup

namespace MaxOccurs
variable {max : MaxOccurs}

/-- No number that a word can hold is too many. -/
def Endless (max : MaxOccurs) : Prop := ∀ n, max.allows n = true

theorem endless_unbounded : unbounded.Endless := fun _ => rfl

theorem endless_bounded_iff {limit : UInt32} :
    (bounded limit).Endless ↔ limit.toNat + 1 = UInt32.size := by
  have hlimit := limit.toNat_lt_size
  have hgreatest : (UInt32.ofNat (UInt32.size - 1)).toNat = UInt32.size - 1 := by decide
  constructor
  · intro h
    have hle := covers_toNat.2 (h (.ofNat (UInt32.size - 1)))
    rw [Covers, hgreatest] at hle
    omega
  · intro h n
    have hn := n.toNat_lt_size
    exact covers_toNat.1 (show n.toNat ≤ limit.toNat by omega)

theorem Covers.succ_lt {n : Nat} (h : max.Covers n) (hends : ¬max.Endless) :
    n + 1 < UInt32.size := by
  cases max with
  | bounded limit =>
    have hlimit := limit.toNat_lt_size
    have hne := mt endless_bounded_iff.2 hends
    have hle : n ≤ limit.toNat := h
    omega
  | unbounded => exact absurd endless_unbounded hends

end MaxOccurs

namespace Progress

/-- The number by which an element is held against the greatest number of occurrences is one
more than a word can hold. -/
def Overflows (takes : Declaration → Bool) (declarations : List Declaration) (p : Progress) : Prop :=
  ∃ d, declarations[p.active]? = some d ∧ takes d = true ∧ p.count.toNat + 1 = UInt32.size

/-- What the state tells of the places that any number of elements have taken. -/
structure Counts (declarations : List Declaration) (places : List Nat) (p : Progress) : Prop where
  /-- The count starts again from zero where a word ends. -/
  count : p.count.toNat = places.count p.active % UInt32.size
  /-- No later place has been taken. -/
  within : ∀ i ∈ places, i ≤ p.active
  /-- A limit is kept; the first element of a declaration is not held against it. -/
  most : ∀ i d, declarations[i]? = some d → ¬d.maxOccurs.Endless →
    places.count i ≤ 1 ∨ d.maxOccurs.Covers (places.count i)

section Step
variable {takes : Declaration → Bool} {declarations : List Declaration} {places : List Nat}
  {p p' : Progress} {d : Declaration}

/-! ### One element -/

theorem toNat_count_add_one_mod (p : Progress) :
    (p.count + 1).toNat = (p.count.toNat + 1) % UInt32.size :=
  UInt32.toNat_add _ _

theorem counts_initial : Counts declarations [] .initial :=
  ⟨rfl, nofun, fun _ _ _ _ => .inl (Nat.zero_le _)⟩

namespace Counts

/-- A declaration that ends does not come near the last word. -/
theorem succ_lt (hc : Counts declarations places p) {i : Nat} (hd : declarations[i]? = some d)
    (hends : ¬d.maxOccurs.Endless) : places.count i + 1 < UInt32.size := by
  rcases hc.most i d hd hends with hle | hcovers
  · have hsize : 2 < UInt32.size := by decide
    omega
  · exact hcovers.succ_lt hends

/-- No element has been counted for a place to come. -/
theorem count_eq_zero (hc : Counts declarations places p) {i : Nat} (hlt : p.active < i) :
    places.count i = 0 := by
  apply List.count_eq_zero.2
  intro hmem
  exact absurd (hc.within i hmem) (Nat.not_le.2 hlt)

theorem count_eq_of_lt (hc : Counts declarations places p)
    (hfew : places.count p.active < UInt32.size) : p.count.toNat = places.count p.active := by
  rw [hc.count, Nat.mod_eq_of_lt hfew]

/-- The sum overflows for an endless declaration only, where its number fills a word. -/
theorem overflows_iff (hc : Counts declarations places p) :
    Overflows takes declarations p ↔ ∃ d, declarations[p.active]? = some d ∧ takes d = true ∧
      d.maxOccurs.Endless ∧ UInt32.size ∣ places.count p.active + 1 := by
  have hfull : p.count.toNat + 1 = UInt32.size ↔ UInt32.size ∣ places.count p.active + 1 := by
    rw [hc.count]
    unfold UInt32.size
    omega
  unfold Overflows
  rw [hfull]
  constructor
  · intro h
    obtain ⟨d, hd, htakes, hdvd⟩ := h
    refine ⟨d, hd, htakes, ?_, hdvd⟩
    by_contra hends
    exact absurd (Nat.le_of_dvd (Nat.succ_pos _) hdvd) (Nat.not_le.2 (hc.succ_lt hd hends))
  · intro h
    obtain ⟨d, hd, htakes, -, hdvd⟩ := h
    exact ⟨d, hd, htakes, hdvd⟩

theorem stay (hc : Counts declarations places p) (hd : declarations[p.active]? = some d)
    (hallows : d.maxOccurs.allows (p.count + 1) = true) :
    Counts declarations (places ++ [p.active]) ⟨p.active, p.count + 1⟩ := by
  refine ⟨?_, fun i hi => ?_, fun i e he hends => ?_⟩
  · rw [toNat_count_add_one_mod, hc.count, Nat.mod_add_mod, List.count_append,
      List.count_singleton_self]
  · rcases List.mem_append.1 hi with hi | hi
    · exact hc.within i hi
    · exact Nat.le_of_eq (List.mem_singleton.1 hi)
  · by_cases hi : i = p.active
    · subst hi
      cases hd.symm.trans he
      have hlt := hc.succ_lt hd hends
      have hcount := hc.count_eq_of_lt (Nat.lt_of_succ_lt hlt)
      rw [← MaxOccurs.covers_toNat, toNat_count_add_one (by omega), hcount] at hallows
      exact .inr (by simpa [List.count_append] using hallows)
    · simpa [List.count_append, Ne.symm hi] using hc.most i e he hends

theorem move (hc : Counts declarations places p) {j : Nat} (hlt : p.active < j) :
    Counts declarations (places ++ [j]) ⟨j, 1⟩ := by
  have hfresh := hc.count_eq_zero hlt
  refine ⟨?_, fun i hi => ?_, fun i e he hends => ?_⟩
  · rw [List.count_append, List.count_singleton_self, hfresh]
    rfl
  · rcases List.mem_append.1 hi with hi | hi
    · exact Nat.le_trans (hc.within i hi) (Nat.le_of_lt hlt)
    · exact Nat.le_of_eq (List.mem_singleton.1 hi)
  · by_cases hi : i = j
    · exact .inl (by simp [hi, hfresh])
    · simpa [List.count_append, Ne.symm hi] using hc.most i e he hends

theorem accept (hc : Counts declarations places p)
    (h : Progress.accept takes declarations p = (.ok d, p')) :
    Counts declarations (places ++ [p'.active]) p' := by
  obtain ⟨current, hcurrent, ⟨-, hallows, -, rfl⟩ | ⟨-, -, j, hlt, -, -, -, rfl⟩⟩ := accept_eq_ok.1 h
  · exact hc.stay hcurrent hallows
  · exact hc.move hlt

/-- An element that is not accepted takes no place. -/
theorem reject (hc : Counts declarations places p) {v : Violation}
    (h : Progress.accept takes declarations p = (.error v, p')) :
    Counts declarations places p' := by
  rcases accept_eq_error h with rfl | ⟨hlt, hzero, -, -⟩
  · exact hc
  · refine ⟨?_, fun i hi => Nat.le_trans (hc.within i hi) (Nat.le_of_lt hlt), hc.most⟩
    rw [hzero, hc.count_eq_zero hlt]
    rfl

end Counts

/-- What an accepted element leaves is the sum, but for the first element of a later place. -/
theorem count_of_accept (h : accept takes declarations p = (.ok d, p')) :
    p'.count = 0 ↔ Overflows takes declarations p := by
  have hzero : p.count + 1 = 0 ↔ p.count.toNat + 1 = UInt32.size := by
    have hlt := p.count.toNat_lt_size
    rw [← UInt32.toNat_inj, toNat_count_add_one_mod, UInt32.toNat_zero]
    unfold UInt32.size at hlt ⊢
    omega
  obtain ⟨current, hcurrent, ⟨htakes, -, -, rfl⟩ | ⟨htakes, -, j, -, -, -, -, rfl⟩⟩ :=
    accept_eq_ok.1 h
  · simp [Overflows, hcurrent, htakes, hzero]
  · simp [Overflows, hcurrent, htakes]

end Step

/-! ### Any number of elements -/

variable {α : Type} {takes : α → Declaration → Bool} {declarations : List Declaration}
  {places : List Nat} {p p' : Progress}

theorem Counts.run (word : List α) (hc : Counts declarations places p) :
    Counts declarations (places ++ taken takes declarations p word)
      (after takes declarations p word) := by
  induction word generalizing places p with
  | nil => simpa [taken, answers, after] using hc
  | cons e rest ih =>
    rcases haccept : Progress.accept (takes e) declarations p with ⟨outcome | d, p₁⟩
    · rw [taken_cons_error haccept, after_cons haccept]
      exact ih (hc.reject haccept)
    · rw [taken_cons_ok haccept, after_cons haccept, List.append_cons]
      exact ih (hc.accept haccept)

/-- Behind any elements, the sum that the next one is held against overflows exactly where it
is one of an endless declaration whose number, with this one, is a multiple of `UInt32.size`.
Such an element is accepted and leaves the count zero. An element accepted anywhere else leaves
a count that is not zero, and the number of occurrences itself unless an endless declaration has
come to `UInt32.size` of them. -/
theorem count_eq_or_overflows (takes : α → Declaration → Bool) (declarations : List Declaration)
    (word : List α) (e : α) :
    let p := after takes declarations .initial word
    let places := taken takes declarations .initial word
    (Overflows (takes e) declarations p ↔
      ∃ d, declarations[p.active]? = some d ∧ takes e d = true ∧ d.maxOccurs.Endless ∧
        UInt32.size ∣ places.count p.active + 1) ∧
    (Overflows (takes e) declarations p →
      ∃ d, accept (takes e) declarations p = (.ok d, ⟨p.active, 0⟩)) ∧
    ∀ d p', accept (takes e) declarations p = (.ok d, p') →
      let number := (taken takes declarations .initial (word ++ [e])).count p'.active
      p'.count.toNat = number % UInt32.size ∧
      (p'.count = 0 ↔ Overflows (takes e) declarations p) ∧
      ((d.maxOccurs.Endless → number < UInt32.size) → p'.count.toNat = number ∧ 1 ≤ p'.count.toNat) := by
  intro p places
  have hcounts : Counts declarations places p := counts_initial.run word
  refine ⟨hcounts.overflows_iff, fun hover => ?_, fun d p' haccept => ?_⟩
  · obtain ⟨d, hd, htakes, hends, -⟩ := hcounts.overflows_iff.1 hover
    obtain ⟨_, _, _, hfull⟩ := hover
    have hzero : p.count + 1 = 0 := by
      rw [← UInt32.toNat_inj, toNat_count_add_one_mod, hfull]
      rfl
    refine ⟨d, accept_eq_ok.2 ⟨d, hd, .inl ⟨htakes, hends _, rfl, by rw [hzero]⟩⟩⟩
  · intro number
    have hplaces : taken takes declarations .initial (word ++ [e]) = places ++ [p'.active] := by
      rw [taken_append, taken_cons_ok haccept]
      rfl
    have hnumber : number = (places ++ [p'.active]).count p'.active :=
      congrArg (List.count p'.active) hplaces
    have hcounts' := hcounts.accept haccept
    have hcount : p'.count.toNat = number % UInt32.size := by rw [hcounts'.count, hnumber]
    have hpos : 1 ≤ number := by
      rw [hnumber, List.count_append, List.count_singleton_self]
      exact Nat.le_add_left 1 _
    refine ⟨hcount, count_of_accept haccept, fun hfew => ?_⟩
    have hlt : number < UInt32.size := by
      by_cases hends : d.maxOccurs.Endless
      · exact hfew hends
      · have hsucc := hcounts'.succ_lt (accept_place haccept).2.1 hends
        rw [← hnumber] at hsucc
        exact Nat.lt_of_succ_lt hsucc
    rw [hcount, Nat.mod_eq_of_lt hlt]
    exact ⟨rfl, hpos⟩

/-- The third lane where any number of lanes may come. -/
theorem count_eq_or_overflows_lanes :
    let lane := (Declaration.single (.unqualified "lane") .simple).occurs 0 .unbounded
    let takes (e : Name) (d : Declaration) : Bool := e = d.name
    let p := after takes [lane] .initial [lane.name, lane.name]
    ¬Overflows (takes lane.name) [lane] p ∧
      accept (takes lane.name) [lane] p = (.ok lane, ⟨0, 3⟩) ∧
      (3 : UInt32).toNat =
        (taken takes [lane] .initial ([lane.name, lane.name] ++ [lane.name])).count 0 := by
  intro lane takes p
  obtain ⟨-, -, hexact⟩ := count_eq_or_overflows takes [lane] [lane.name, lane.name] lane.name
  have haccept : accept (takes lane.name) [lane] p = (.ok lane, ⟨0, 3⟩) := rfl
  obtain ⟨-, hzero, hnumber⟩ := hexact lane ⟨0, 3⟩ haccept
  refine ⟨fun hover => ?_, haccept, (hnumber fun _ => by decide +kernel).1⟩
  exact absurd (hzero.2 hover) (by decide)

/-! ### An endless declaration and nothing but its elements -/

section Replicate
variable {d : Declaration} {e : α}

theorem accept_endless (htakes : takes e d = true) (hends : d.maxOccurs.Endless) (n : UInt32) :
    accept (takes e) [d] ⟨0, n⟩ = (.ok d, ⟨0, n + 1⟩) :=
  accept_eq_ok.2 ⟨d, rfl, .inl ⟨htakes, hends _, rfl, rfl⟩⟩

theorem after_replicate (htakes : takes e d = true) (hends : d.maxOccurs.Endless) (n : Nat)
    (count : UInt32) :
    after takes [d] ⟨0, count⟩ (List.replicate n e) = ⟨0, count + .ofNat n⟩ := by
  induction n generalizing count with
  | zero => simp [after]
  | succ n ih =>
    rw [List.replicate_succ, after_cons (accept_endless htakes hends count), ih, UInt32.ofNat_add,
      UInt32.add_assoc, UInt32.add_comm 1]
    rfl

theorem taken_replicate (htakes : takes e d = true) (hends : d.maxOccurs.Endless) (n : Nat)
    (count : UInt32) :
    taken takes [d] ⟨0, count⟩ (List.replicate n e) = List.replicate n 0 := by
  induction n generalizing count with
  | zero => rfl
  | succ n ih =>
    rw [List.replicate_succ, taken_cons_ok (accept_endless htakes hends count), ih,
      List.replicate_succ]

end Replicate

/-- As many lanes as there are words, where any number of lanes may come. -/
theorem overflows_lanes :
    let lane := (Declaration.single (.unqualified "lane") .simple).occurs 0 .unbounded
    let takes (e : Name) (d : Declaration) : Bool := e = d.name
    let word := List.replicate (UInt32.size - 1) lane.name
    let p := after takes [lane] .initial word
    Overflows (takes lane.name) [lane] p ∧
      accept (takes lane.name) [lane] p = (.ok lane, ⟨0, 0⟩) ∧
      (taken takes [lane] .initial (word ++ [lane.name])).count 0 = UInt32.size := by
  intro lane takes word p
  have htakes : takes lane.name lane = true := by simp [takes]
  have hends : lane.maxOccurs.Endless := MaxOccurs.endless_unbounded
  have hp : p = ⟨0, .ofNat (UInt32.size - 1)⟩ := by
    rw [show p = _ from after_replicate htakes hends _ 0, UInt32.zero_add]
  have hword : word ++ [lane.name] = List.replicate UInt32.size lane.name :=
    List.replicate_succ'.symm
  rw [hp, accept_endless htakes hends, hword]
  refine ⟨⟨lane, rfl, htakes, rfl⟩, rfl, ?_⟩
  rw [show taken takes [lane] .initial _ = _ from taken_replicate htakes hends _ 0,
    List.count_replicate_self]

end Progress

end FeatureMarkup

import FeatureMarkup.Proofs.Schema.Answers
import FeatureMarkup.Proofs.Schema.Runs

/-! The words that the validator accepts.

The validator never looks ahead and never goes back. It accepts nothing but words that split
into runs for the declarations, or begin one that does; and where no element is taken by two
declarations it accepts them all, each element under the declaration of its run. -/
namespace FeatureMarkup.Progress

variable {α : Type} {takes : α → Declaration → Bool} {declarations later : List Declaration}
  {p : Progress} {d : Declaration} {runs runs' : List (List α)} {count : Nat}

/-! ### A word -/

theorem within_after {word : List α} (hmax : ∀ d ∈ declarations, d.maxOccurs ≠ .bounded 0)
    (hwithin : Within declarations p) (h : Accepted takes declarations p word) :
    Within declarations (after takes declarations p word) := by
  induction word generalizing p with
  | nil => exact hwithin
  | cons e rest ih =>
    obtain ⟨d, p', haccept, hrest⟩ := accepted_cons.1 h
    rw [after_cons haccept]
    exact ih (within_of_accept hmax haccept) hrest

/-- A word that is accepted may come before whatever may come behind it, and each element goes
to the declaration that it is accepted for. -/
theorem completes_of_accepted {word : List α} (hmax : ∀ d ∈ declarations, d.maxOccurs ≠ .bounded 0)
    (hwithin : Within declarations p) (hcounted : p.count.toNat + word.length < UInt32.size)
    (h : Accepted takes declarations p word) {p' : Progress}
    (hafter : after takes declarations p word = p')
    (hruns : Completes takes p'.count.toNat (declarations.drop p'.active) runs') :
    ∃ runs, Completes takes p.count.toNat (declarations.drop p.active) runs ∧
      runs.flatten = word ++ runs'.flatten ∧
      assigned p.active (declarations.drop p.active) runs =
        outcomes takes declarations p word ++
          assigned p'.active (declarations.drop p'.active) runs' := by
  induction word generalizing p with
  | nil =>
    obtain rfl : p = p' := hafter
    exact ⟨runs', hruns, rfl, rfl⟩
  | cons e rest ih =>
    rw [List.length_cons] at hcounted
    obtain ⟨d, p₁, haccept, hrest⟩ := accepted_cons.1 h
    have hone : p.count.toNat + 1 < UInt32.size := by omega
    have hcount := count_le_of_accept hone haccept
    obtain ⟨runs, hcompletes, hflatten, hassigned⟩ :=
      ih (within_of_accept hmax haccept) (by omega) hrest (after_cons haccept ▸ hafter)
    obtain ⟨k, runs₁, hplace, hd, hlead, hcompletes₁⟩ :=
      leads_of_accept hwithin hone haccept hcompletes
    refine ⟨runs₁, hcompletes₁, ?_, ?_⟩
    · rw [hlead.flatten, hflatten]
      rfl
    · rw [hlead.assigned hd, List.drop_drop, ← hplace, hassigned, outcomes_cons haccept]
      rfl

/-- Where no element is taken by two declarations, the beginning of what may come is accepted,
each element for the declaration it goes to, and the rest may come behind it. -/
theorem accepted_of_completes {word more : List α} (hapart : Apart takes declarations)
    (hcounted : p.count.toNat + word.length < UInt32.size)
    (hruns : Completes takes p.count.toNat (declarations.drop p.active) runs)
    (hword : runs.flatten = word ++ more) :
    Accepted takes declarations p word ∧ ∃ runs' p', after takes declarations p word = p' ∧
      Completes takes p'.count.toNat (declarations.drop p'.active) runs' ∧ runs'.flatten = more ∧
      assigned p.active (declarations.drop p.active) runs =
        outcomes takes declarations p word ++
          assigned p'.active (declarations.drop p'.active) runs' := by
  induction word generalizing p runs with
  | nil => exact ⟨nofun, runs, p, rfl, hruns, hword, rfl⟩
  | cons e rest ih =>
    rw [List.length_cons] at hcounted
    have hone : p.count.toNat + 1 < UInt32.size := by omega
    obtain ⟨k, runs₁, hlead, hflatten⟩ := Leads.of_flatten hword
    obtain ⟨d, p₁, haccept, hplace, -, hd, hcompletes⟩ :=
      accept_of_leads hapart hlead (fun _ => hone) hruns
    have hcount := count_le_of_accept hone haccept
    obtain ⟨haccepted, runs', p', hafter, hcompletes', hmore, hassigned⟩ :=
      ih (by omega) hcompletes hflatten
    refine ⟨accepted_cons.2 ⟨d, p₁, haccept, haccepted⟩, runs', p',
      (after_cons haccept).trans hafter, hcompletes', hmore, ?_⟩
    rw [hlead.assigned hd, List.drop_drop, ← hplace, hassigned, outcomes_cons haccept]
    rfl

/-! ### The end of a word -/

theorem fills_replicate_nil {rest : List Declaration} :
    List.Forall₂ (Fills takes 0) rest (List.replicate rest.length []) ↔
      ∀ d ∈ rest, d.minOccurs = 0 := by
  induction rest with
  | nil => simp
  | cons d rest ih =>
    have hempty : Fills takes 0 d [] ↔ d.minOccurs = 0 := by
      rw [fills_nil_iff, Nat.le_zero, ← UInt32.toNat_inj]
      exact and_iff_left d.maxOccurs.covers_zero
    rw [List.length_cons, List.replicate_succ, List.forall₂_cons, hempty, ih, List.forall_mem_cons]

/-- Where something may come that makes the validator complete, its count is within its
limit. -/
theorem Completes.within (h : Completes takes p.count.toNat (declarations.drop p.active) runs) :
    Within declarations p := by
  intro d hd
  generalize hdrop : declarations.drop p.active = rest at h
  cases h with
  | nil =>
    rw [List.getElem?_eq_none (List.drop_eq_nil_iff.1 hdrop)] at hd
    cases hd
  | cons hrun _ =>
    obtain rfl := Option.some.inj (hd.symm.trans (getElem?_of_drop_eq_cons hdrop).1)
    exact hrun.most.mono (Nat.le_add_right _ _)

/-- The elements may end where no more of them have to come. -/
theorem finish_iff_completes (hwithin : Within declarations p) :
    finish declarations p true = .ok () ↔
      Completes takes p.count.toNat (declarations.drop p.active)
        (List.replicate (declarations.drop p.active).length []) := by
  rw [finish_true_eq_ok, firstUnder_eq_none]
  cases hdrop : declarations.drop p.active with
  | nil => exact iff_of_true nofun .nil
  | cons current later =>
    have hcurrent := (getElem?_of_drop_eq_cons hdrop).1
    rw [List.length_cons, List.replicate_succ]
    constructor
    · intro h
      refine .cons (fills_nil_iff.2 ⟨UInt32.le_iff_toNat_le.1 (h 0 current rfl),
        hwithin current hcurrent⟩) (fills_replicate_nil.2 fun d hd => ?_)
      obtain ⟨i, hi⟩ := List.getElem?_of_mem hd
      exact UInt32.le_zero_iff.1 (h (i + 1) d hi)
    · intro h i d hd
      cases h with
      | cons hrun hlater =>
        cases i with
        | zero =>
          obtain rfl := Option.some.inj hd
          exact UInt32.le_iff_toNat_le.2 (fills_nil_iff.1 hrun).1
        | succ i =>
          exact UInt32.le_zero_iff.2 (fills_replicate_nil.1 hlater d (List.mem_of_getElem? hd))

/-- Nothing is in runs that are all empty. -/
theorem Completes.eq_replicate (h : Completes takes count later runs) (hnone : runs.flatten = []) :
    runs = List.replicate later.length [] := by
  refine List.eq_replicate_iff.2 ⟨?_, List.flatten_eq_nil_iff.1 hnone⟩
  cases h with
  | nil => rfl
  | cons _ hlater => rw [List.length_cons, List.length_cons, hlater.length_eq]

theorem assigned_replicate_nil (place n : Nat) :
    assigned place later (List.replicate n ([] : List α)) = [] := by
  induction later generalizing place n with
  | nil => cases n <;> rfl
  | cons d later ih =>
    cases n with
    | zero => rfl
    | succ n => exact ih (place + 1) n

/-- A declaration gets as many elements more as it asks for. -/
theorem exists_fills {n : Nat} (hn : d.maxOccurs.Covers n) (hsome : ∃ e, takes e d = true) :
    ∃ run, Fills takes n d run := by
  obtain ⟨e, htakes⟩ := hsome
  refine ⟨List.replicate (d.minOccurs.toNat - n) e,
    fun e' he' => List.eq_of_mem_replicate he' ▸ htakes, ?_, ?_⟩
  · rw [List.length_replicate]
    omega
  · rw [List.length_replicate]
    rcases Nat.le_total d.minOccurs.toNat n with hle | hle
    · rwa [Nat.sub_eq_zero_of_le hle, Nat.add_zero]
    · rw [Nat.add_sub_cancel' hle]
      exact MaxOccurs.covers_toNat.2 d.allows_minOccurs

/-- Wherever the validator is, something may come that makes it complete. -/
theorem exists_completes (hsome : ∀ d ∈ declarations, ∃ e, takes e d = true)
    (hwithin : Within declarations p) :
    ∃ runs, Completes takes p.count.toNat (declarations.drop p.active) runs := by
  have hall : ∀ rest : List Declaration, (∀ d ∈ rest, ∃ e, takes e d = true) →
      ∃ runs, List.Forall₂ (Fills takes 0) rest runs := by
    intro rest hrest
    induction rest with
    | nil => exact ⟨[], .nil⟩
    | cons d rest ih =>
      rw [List.forall_mem_cons] at hrest
      obtain ⟨run, hrun⟩ := exists_fills d.maxOccurs.covers_zero hrest.1
      obtain ⟨runs, hruns⟩ := ih hrest.2
      exact ⟨run :: runs, .cons hrun hruns⟩
  have hrest : ∀ d ∈ declarations.drop p.active, ∃ e, takes e d = true :=
    fun d hd => hsome d (List.mem_of_mem_drop hd)
  cases hdrop : declarations.drop p.active with
  | nil => exact ⟨[], .nil⟩
  | cons current later =>
    rw [hdrop, List.forall_mem_cons] at hrest
    have hcurrent := (getElem?_of_drop_eq_cons hdrop).1
    obtain ⟨run, hrun⟩ := exists_fills (hwithin current hcurrent) hrest.1
    obtain ⟨runs, hruns⟩ := hall later hrest.2
    exact ⟨run :: runs, .cons hrun hruns⟩

/-! ### The grammar -/

section Grammar
variable {word more : List α}

theorem lt_size_of_initial (hcounted : word.length < UInt32.size) :
    Progress.initial.count.toNat + word.length < UInt32.size := by
  rwa [show Progress.initial.count.toNat = 0 from rfl, Nat.zero_add]

/-- What is accepted begins a word that splits. -/
theorem exists_splits_append (hmax : ∀ d ∈ declarations, d.maxOccurs ≠ .bounded 0)
    (hsome : ∀ d ∈ declarations, ∃ e, takes e d = true) (hcounted : word.length < UInt32.size)
    (h : Accepted takes declarations .initial word) :
    ∃ more runs, Splits takes declarations (word ++ more) runs := by
  obtain ⟨runs', hruns'⟩ := exists_completes hsome (within_after hmax within_initial h)
  obtain ⟨runs, hcompletes, hflatten, -⟩ := completes_of_accepted hmax within_initial
    (lt_size_of_initial hcounted) h rfl hruns'
  exact ⟨runs'.flatten, runs, completes_zero_iff.1 hcompletes, hflatten⟩

/-- What is accepted up to where the end may come splits, each element under the declaration
that it is accepted for. -/
theorem exists_splits (hmax : ∀ d ∈ declarations, d.maxOccurs ≠ .bounded 0)
    (hcounted : word.length < UInt32.size) (h : Accepted takes declarations .initial word)
    (hfinish : finish declarations (after takes declarations .initial word) true = .ok ()) :
    ∃ runs, Splits takes declarations word runs ∧
      outcomes takes declarations .initial word = assigned 0 declarations runs := by
  have hend : Completes takes _ _ _ :=
    (finish_iff_completes (within_after hmax within_initial h)).1 hfinish
  obtain ⟨runs, hcompletes, hflatten, hassigned⟩ := completes_of_accepted hmax within_initial
    (lt_size_of_initial hcounted) h rfl hend
  rw [List.flatten_replicate_nil, List.append_nil] at hflatten
  rw [assigned_replicate_nil, List.append_nil] at hassigned
  exact ⟨runs, ⟨completes_zero_iff.1 hcompletes, hflatten⟩, hassigned.symm⟩

/-- Where no element is taken by two declarations, what begins a word that splits is accepted,
and the rest of the word may come behind it. -/
theorem Splits.accepted (h : Splits takes declarations (word ++ more) runs)
    (hapart : Apart takes declarations) (hcounted : word.length < UInt32.size) :
    Accepted takes declarations .initial word ∧ ∃ runs' p,
      after takes declarations .initial word = p ∧
      Completes takes p.count.toNat (declarations.drop p.active) runs' ∧ runs'.flatten = more ∧
      assigned 0 declarations runs = outcomes takes declarations .initial word ++
        assigned p.active (declarations.drop p.active) runs' :=
  accepted_of_completes hapart (lt_size_of_initial hcounted) (completes_zero_iff.2 h.fills) h.word

/-- Where no element is taken by two declarations, the end may come behind a word that splits,
and each element is accepted for the declaration of its run. -/
theorem Splits.finish (h : Splits takes declarations word runs)
    (hapart : Apart takes declarations) (hcounted : word.length < UInt32.size) :
    Progress.finish declarations (after takes declarations .initial word) true = .ok () ∧
      outcomes takes declarations .initial word = assigned 0 declarations runs := by
  rw [← List.append_nil word] at h
  obtain ⟨haccepted, runs', p, rfl, hcompletes, hnone, hassigned⟩ := h.accepted hapart hcounted
  obtain rfl := hcompletes.eq_replicate hnone
  rw [assigned_replicate_nil, List.append_nil] at hassigned
  exact ⟨(finish_iff_completes hcompletes.within).2 hcompletes, hassigned.symm⟩

end Grammar

/-- **The validator decides its grammar.** What is accepted begins a word that splits, and if
the end may come it splits itself, each element under the declaration that it is accepted
for. Where no element is taken by two declarations, no other word splits or begins one that
does. An end that is not checked may always come. -/
theorem accepted_iff_splits (takes : α → Declaration → Bool) (declarations : List Declaration)
    (hmax : ∀ d ∈ declarations, d.maxOccurs ≠ .bounded 0)
    (hsome : ∀ d ∈ declarations, ∃ e, takes e d = true) (word : List α)
    (hcounted : word.length < UInt32.size) :
    (∀ p, finish declarations p false = .ok ()) ∧
    (Accepted takes declarations .initial word →
      (∃ more runs, Splits takes declarations (word ++ more) runs) ∧
      (finish declarations (after takes declarations .initial word) true = .ok () →
        ∃ runs, Splits takes declarations word runs ∧
          outcomes takes declarations .initial word = assigned 0 declarations runs)) ∧
    (Apart takes declarations →
      (Accepted takes declarations .initial word ↔
        ∃ more runs, Splits takes declarations (word ++ more) runs) ∧
      (Accepted takes declarations .initial word ∧
          finish declarations (after takes declarations .initial word) true = .ok () ↔
        ∃ runs, Splits takes declarations word runs) ∧
      ∀ runs, Splits takes declarations word runs →
        outcomes takes declarations .initial word = assigned 0 declarations runs) := by
  refine ⟨fun p => rfl, fun h => ⟨exists_splits_append hmax hsome hcounted h,
    exists_splits hmax hcounted h⟩, fun hapart => ⟨⟨exists_splits_append hmax hsome hcounted, ?_⟩,
      ⟨?_, ?_⟩, fun runs h => (h.finish hapart hcounted).2⟩⟩
  · intro hgiven
    obtain ⟨more, runs, h⟩ := hgiven
    exact (h.accepted hapart hcounted).1
  · intro hgiven
    obtain ⟨h, hfinish⟩ := hgiven
    obtain ⟨runs, hsplits, -⟩ := exists_splits hmax hcounted h hfinish
    exact ⟨runs, hsplits⟩
  · intro hgiven
    obtain ⟨runs, h⟩ := hgiven
    have hbegins : Splits takes declarations (word ++ []) runs := by rwa [List.append_nil]
    exact ⟨(hbegins.accepted hapart hcounted).1, (h.finish hapart hcounted).1⟩

/-- A name, any number of nicknames, and two or three lanes. -/
theorem accepted_iff_splits_lanes :
    let name := Declaration.single (.unqualified "name") .simple
    let nick := (Declaration.single (.unqualified "nick") .simple).occurs 0 .unbounded
    let lane := (Declaration.single (.unqualified "lane") .simple).occurs 2 (.bounded 3)
    let takes (e : Name) (d : Declaration) : Bool := e = d.name
    let declarations := [name, nick, lane]
    let word := [name.name, nick.name, nick.name, lane.name, lane.name]
    (∀ d ∈ declarations, d.maxOccurs ≠ .bounded 0) ∧
      (∀ d ∈ declarations, ∃ e, takes e d = true) ∧ Apart takes declarations ∧
      word.length < UInt32.size ∧ Accepted takes declarations .initial word ∧
      finish declarations (after takes declarations .initial word) true = .ok () ∧
      outcomes takes declarations .initial word =
        [(.ok name, 0), (.ok nick, 1), (.ok nick, 1), (.ok lane, 2), (.ok lane, 2)] := by
  intro name nick lane takes declarations word
  have hmax : ∀ d ∈ declarations, d.maxOccurs ≠ .bounded 0 := by decide
  have hsome : ∀ d ∈ declarations, ∃ e, takes e d = true := fun d _ => ⟨d.name, by simp [takes]⟩
  have hapart : Apart takes declarations := by
    have hnames : declarations.Pairwise fun d d' => d.name ≠ d'.name := by decide
    refine hnames.imp fun hne e hboth => hne ?_
    simp only [takes, decide_eq_true_eq] at hboth
    exact hboth.1.symm.trans hboth.2
  have hword : word.length < UInt32.size := by decide
  have hsplits : Splits takes declarations word
      [[name.name], [nick.name, nick.name], [lane.name, lane.name]] :=
    ⟨.cons ⟨by decide, by decide, by decide⟩ (.cons ⟨by decide, by decide, by decide⟩
      (.cons ⟨by decide, by decide, by decide⟩ .nil)), rfl⟩
  obtain ⟨-, -, hdecides⟩ := accepted_iff_splits takes declarations hmax hsome word hword
  obtain ⟨-, hwhole, houtcomes⟩ := hdecides hapart
  obtain ⟨haccepted, hfinish⟩ := hwhole.2 ⟨_, hsplits⟩
  exact ⟨hmax, hsome, hapart, hword, haccepted, hfinish, houtcomes _ hsplits⟩

end FeatureMarkup.Progress

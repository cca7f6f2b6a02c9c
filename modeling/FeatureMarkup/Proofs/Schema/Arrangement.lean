import FeatureMarkup.Proofs.Schema.Grammar

/-! Elements that may stand in a feature of a type.

They are arranged in runs, one for each declaration in the order of these: elements that the
declaration takes, no fewer and no more than it says. The validator looks only at the next
element and never goes back; where no element is taken by two declarations, that is enough
to accept everything that is arranged, each element under its own declaration. -/
namespace FeatureMarkup

open Progress

variable {s : Schema} {d : Declaration} {declarations later : List Declaration}

/-- Declarations of which no two take the same element. -/
def Schema.Apart (s : Schema) (declarations : List Declaration) : Prop :=
  declarations.Pairwise fun d e => ∀ element, ¬(s.admits element d.name ∧ s.admits element e.name)

/-- In a schema without substitution groups declarations with different names are apart. -/
theorem Schema.apart_of_elements_nil (h : s.elements = [])
    (hnames : (declarations.map (·.name)).Nodup) : s.Apart declarations := by
  have hadmits : ∀ element declared, s.admits element declared = true → element = declared := by
    intro element declared hadmits
    have hmember : s.isMember element declared = false := by
      simp [isMember, heads, head?, h, Trail.follow]
    simpa [admits, hmember] using hadmits
  refine (List.pairwise_map.1 hnames).imp fun hne element ⟨hd, he⟩ => hne ?_
  rw [← hadmits _ _ hd, ← hadmits _ _ he]

/-- Elements that are all there is of a declaration. -/
structure Run (s : Schema) (d : Declaration) (elements : List (Name × Declaration)) : Prop where
  own : ∀ e ∈ elements, e.2 = d ∧ s.admits e.1 d.name = true
  least : d.minOccurs.toNat ≤ elements.length
  most : d.maxOccurs.allows (.ofNat elements.length) = true
  counted : elements.length < UInt32.size

/-- Elements with their declarations, a run for each declaration. -/
inductive Arranged (s : Schema) : List Declaration → List (Name × Declaration) → Prop where
  | nil : Arranged s [] []
  | cons {d later run rest} : Run s d run → Arranged s later rest →
      Arranged s (d :: later) (run ++ rest)

/-- Elements that the validator accepts one after another, each under its declaration. -/
inductive Accepts (s : Schema) (declarations : List Declaration) :
    Progress → List (Name × Declaration) → Progress → Prop where
  | nil {p} : Accepts s declarations p [] p
  | cons {p p₁ p' element d rest} : s.accept declarations p element = (.ok d, p₁) →
      Accepts s declarations p₁ rest p' → Accepts s declarations p ((element, d) :: rest) p'

/-! ### Runs -/

/-- What is arranged are runs for the declarations, each short enough for a count. -/
theorem Arranged.exists_runs {elements : List (Name × Declaration)}
    (h : Arranged s declarations elements) :
    ∃ runs : List (List Name),
      List.Forall₂ (Fills (fun element d => s.admits element d.name) 0) declarations runs ∧
      (∀ run ∈ runs, run.length < UInt32.size) ∧ runs.flatten = elements.map (·.1) ∧
      ∀ place, (assigned place declarations runs).map (·.1) = elements.map fun e => .ok e.2 := by
  induction h with
  | nil => exact ⟨[], .nil, nofun, rfl, fun _ => rfl⟩
  | @cons d later run rest hrun _ ih =>
    obtain ⟨runs, hfills, hshort, hflatten, hassigned⟩ := ih
    have hmost := MaxOccurs.covers_toNat.2 hrun.most
    rw [UInt32.toNat_ofNat_of_lt' hrun.counted] at hmost
    have hfirst : Fills (fun element d => s.admits element d.name) 0 d (run.map (·.1)) := by
      refine ⟨fun element helement => ?_, ?_, ?_⟩
      · obtain ⟨e, he, rfl⟩ := List.mem_map.1 helement
        exact (hrun.own e he).2
      · rw [List.length_map, Nat.zero_add]
        exact hrun.least
      · rwa [List.length_map, Nat.zero_add]
    have hown : run.map (fun _ => (.ok d : Except Violation Declaration)) =
        run.map fun e => .ok e.2 :=
      List.map_congr_left fun e he => by rw [(hrun.own e he).1]
    refine ⟨run.map (·.1) :: runs, .cons hfirst hfills, ?_, ?_, fun place => ?_⟩
    · rw [List.forall_mem_cons, List.length_map]
      exact ⟨hrun.counted, hshort⟩
    · rw [List.flatten_cons, hflatten, List.map_append]
    · rw [assigned, List.map_append, hassigned, List.map_append, ← hown, List.map_map, List.map_map]
      rfl

/-- Elements of runs that may come are accepted, each under the declaration it goes to, and
the end may come behind them. -/
theorem accepts_of_completes {elements : List (Name × Declaration)} {p : Progress}
    {runs : List (List Name)} (hapart : s.Apart declarations)
    (hruns : Completes (fun element d => s.admits element d.name) p.count.toNat
      (declarations.drop p.active) runs)
    (hcounted : Counted p.count.toNat runs) (hflatten : runs.flatten = elements.map (·.1))
    (hassigned : (assigned p.active (declarations.drop p.active) runs).map (·.1) =
      elements.map fun e => .ok e.2) :
    ∃ p', Accepts s declarations p elements p' ∧
      ∀ checkRest, p'.finish declarations checkRest = .ok () := by
  induction elements generalizing p runs with
  | nil =>
    obtain rfl := hruns.eq_replicate hflatten
    have hfinish := (finish_iff_completes hruns.within).2 hruns
    refine ⟨p, .nil, fun checkRest => ?_⟩
    cases checkRest with
    | true => exact hfinish
    | false => rfl
  | cons e rest ih =>
    obtain ⟨element, d⟩ := e
    obtain ⟨k, runs', hlead, hrest⟩ := Leads.of_flatten hflatten
    obtain ⟨hone, hcounted'⟩ := hlead.counted hcounted
    obtain ⟨d', p₁, haccept, hplace, hcount, hd, hcompletes⟩ :=
      accept_of_leads hapart hlead hone hruns
    rw [hlead.assigned hd, List.drop_drop, ← hplace, List.map_cons, List.map_cons,
      List.cons.injEq] at hassigned
    obtain ⟨hsame, hassigned'⟩ := hassigned
    obtain rfl := Except.ok.inj hsame
    obtain ⟨p', haccepts, hfinish⟩ := ih hcompletes (hcount ▸ hcounted') hrest hassigned'
    exact ⟨p', .cons haccept haccepts, hfinish⟩

/-- Whatever is arranged is accepted from the beginning, and the end may come behind it. -/
theorem Arranged.accepts {elements : List (Name × Declaration)}
    (h : Arranged s declarations elements) (hapart : s.Apart declarations) :
    ∃ p', Accepts s declarations .initial elements p' ∧
      ∀ checkRest, p'.finish declarations checkRest = .ok () := by
  obtain ⟨runs, hfills, hshort, hflatten, hassigned⟩ := h.exists_runs
  have hcounted : Counted Progress.initial.count.toNat runs := by
    cases runs with
    | nil => trivial
    | cons run runs =>
      rw [List.forall_mem_cons] at hshort
      exact ⟨by simpa [Progress.initial] using hshort.1, hshort.2⟩
  exact accepts_of_completes hapart (completes_zero_iff.2 hfills) hcounted hflatten (hassigned 0)

end FeatureMarkup

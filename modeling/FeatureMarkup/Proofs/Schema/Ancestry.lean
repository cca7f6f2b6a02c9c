import FeatureMarkup.Proofs.Schema.Groups

/-! Which feature types are derived from which.

Of several feature types with one name only the last counts, and it may have a super type that
is declared nowhere, so super types are a graph in which every name leads to one other at most
and which may have cycles. A type may stand for another exactly when it reaches it in that
graph, `derives_of_declared`. A search along the chain looks for the type that is expected
before it looks for a type that it has met, and so a cycle ends it without hiding anything:
`finds_eq` says that it finds what the whole chain has. -/
namespace FeatureMarkup

open Relation (ReflTransGen)

namespace Trail

variable {next : Name → Option Name} {steps : Nat} {met : List Name} {current : Option Name}
  {expected : Name}

/-- Whether the chain from `current` on comes to a name before it comes back to one of those
`met`, in so many steps at most. -/
def finds (next : Name → Option Name) (expected : Name) : Nat → List Name → Option Name → Bool
  | _, _, none => false
  | 0, _, some _ => false
  | steps + 1, met, some name =>
    if name = expected then true
    else if name ∈ met then false
    else finds next expected steps (name :: met) (next name)

theorem finds_none : finds next expected steps met none = false := by
  cases steps <;> rfl

theorem mem_follow_of_mem {name : Name} (h : name ∈ met) :
    name ∈ (follow next steps met current).names := by
  induction steps generalizing met current with
  | zero => cases current <;> exact List.mem_reverse.2 h
  | succ steps ih =>
    cases current with
    | none => exact List.mem_reverse.2 h
    | some first =>
      rw [follow]
      split
      next => exact List.mem_reverse.2 h
      next => exact ih (List.mem_cons_of_mem first h)

/-- To stop at the name that is looked for is to look for it on the whole chain. -/
theorem finds_eq (h : expected ∉ met) : finds next expected steps met current =
    (follow next steps met current).names.contains expected := by
  induction steps generalizing met current with
  | zero => cases current <;> simp [finds, follow, h]
  | succ steps ih =>
    cases current with
    | none => simp [finds_none, follow_none, h]
    | some name =>
      rw [finds, follow]
      by_cases hname : name = expected
      · subst hname
        simp [h, mem_follow_of_mem]
      · by_cases hmet : name ∈ met
        · simp [hname, hmet, h]
        · have hlater : expected ∉ name :: met := by simp [h, Ne.symm hname]
          simp [hname, hmet, ih hlater]

end Trail

/-! ### Super types that count -/

/-- The feature type that a declaration gives to a name. -/
def TopLevel.type? (name : Name) : TopLevel → Option FeatureType
  | .type t => if t.name = name then some t else none
  | .element _ _ => none

theorem TopLevel.type?_eq_some_iff {name : Name} {t : FeatureType} {d : TopLevel} :
    d.type? name = some t ↔ d = .type t ∧ t.name = name := by
  cases d with
  | type declared =>
    by_cases h : declared.name = name
    · simp only [TopLevel.type?, h, if_true, Option.some.injEq, TopLevel.type.injEq]
      constructor
      · intro heq
        subst heq
        exact ⟨rfl, h⟩
      · exact And.left
    · simp only [TopLevel.type?, h, if_false, TopLevel.type.injEq]
      constructor
      · nofun
      · intro hgiven
        obtain ⟨rfl, hname⟩ := hgiven
        exact absurd hname h
  | element _ _ => simp [TopLevel.type?]

namespace Schema

variable {s : Schema} {name expected actual : Name}

theorem featureType?_declare (s : Schema) (d : TopLevel) (name : Name) :
    (s.declare d).featureType? name = (d.type? name).or (s.featureType? name) := by
  cases d with
  | type t => by_cases h : t.name = name <;> simp [declare, addType, featureType?, TopLevel.type?, h]
  | element _ _ => rfl

/-- The feature type with a name is the last one declared with it. -/
theorem featureType?_ofDeclared_eq_some_iff {ds : List TopLevel} {t : FeatureType} :
    (ofDeclared ds).featureType? name = some t ↔
      ∃ before after, ds = before ++ .type t :: after ∧ t.name = name ∧
        ∀ u, .type u ∈ after → u.name ≠ name := by
  have hnone {l : List TopLevel} : (∀ d ∈ l, d.type? name = none) ↔
      ∀ u, TopLevel.type u ∈ l → u.name ≠ name := by
    simp only [Option.eq_none_iff_forall_ne_some, ne_eq, TopLevel.type?_eq_some_iff]
    exact ⟨fun h u hmem hu => h _ hmem u ⟨rfl, hu⟩, fun h d hmem u hu => h u (hu.1 ▸ hmem) hu.2⟩
  rw [ofDeclared_eq_findSome? (·.featureType? name) _ rfl (fun s d => featureType?_declare s d name) ds,
    findSome?_reverse_eq_some_iff]
  simp only [TopLevel.type?_eq_some_iff, hnone]
  constructor
  · intro hgiven
    obtain ⟨before, _, after, hds, ⟨rfl, hname⟩, hafter⟩ := hgiven
    exact ⟨before, after, hds, hname, hafter⟩
  · intro hgiven
    obtain ⟨before, after, hds, hname, hafter⟩ := hgiven
    exact ⟨before, _, after, hds, ⟨rfl, hname⟩, hafter⟩

/-- A name has the other for its super type. -/
def HasSuperType (s : Schema) : Name → Name → Prop := Trail.Leads s.superType?

theorem hasSuperType_iff {super : Name} :
    s.HasSuperType name super ↔ ∃ t, s.featureType? name = some t ∧ t.superType = some super :=
  Option.bind_eq_some_iff

theorem hasSuperType_ofDeclared_iff {ds : List TopLevel} {super : Name} :
    (ofDeclared ds).HasSuperType name super ↔
      ∃ before t after, ds = before ++ .type t :: after ∧ t.name = name ∧
        t.superType = some super ∧ ∀ u, .type u ∈ after → u.name ≠ name := by
  rw [hasSuperType_iff]
  simp only [featureType?_ofDeclared_eq_some_iff]
  constructor
  · intro hgiven
    obtain ⟨t, ⟨before, after, hds, hname, hafter⟩, hsuper⟩ := hgiven
    exact ⟨before, t, after, hds, hname, hsuper, hafter⟩
  · intro hgiven
    obtain ⟨before, t, after, hds, hname, hsuper, hafter⟩ := hgiven
    exact ⟨t, ⟨before, after, hds, hname, hafter⟩, hsuper⟩

/-! ### Chains of super types -/

theorem mem_names_of_superType? (a b : Name) (h : Trail.Leads s.superType? a b) :
    a ∈ s.types.map (·.name) := by
  obtain ⟨t, ht, -⟩ := hasSuperType_iff.1 h
  have hname : t.name = a := by simpa using List.find?_some ht
  exact List.mem_map.2 ⟨t, List.mem_reverse.1 (List.mem_of_find?_eq_some ht), hname⟩

theorem length_names_lt (s : Schema) : (s.types.map (·.name)).length < s.types.length + 2 := by
  simp

/-- A type may stand for those it reaches, over no other or more. -/
theorem derives_iff : s.derives expected actual = true ↔ ReflTransGen s.HasSuperType actual expected := by
  rw [derives, List.contains_iff_mem, ancestry,
    Trail.mem_follow_iff mem_names_of_superType? s.length_names_lt]
  simp [HasSuperType]

/-- A search that stops where it finds the type has the answer, and it is not the bound that
ends it. -/
theorem finds_superType (s : Schema) (expected actual : Name) (more : Nat) :
    Trail.finds s.superType? expected (s.types.length + 2 + more) [] (some actual) =
      s.derives expected actual := by
  rw [Trail.finds_eq List.not_mem_nil,
    Trail.follow_add mem_names_of_superType? (Trail.underway_start s.length_names_lt _) more]
  rfl

theorem derives_refl (s : Schema) (type : Name) : s.derives type type = true :=
  derives_iff.2 .refl

theorem derives_trans {a b c : Name} (hab : s.derives a b = true) (hbc : s.derives b c = true) :
    s.derives a c = true :=
  derives_iff.2 ((derives_iff.1 hbc).trans (derives_iff.1 hab))

/-! ### Of all declarations together -/

/-- Derivation is the reflexive and transitive closure of the super types that count, and
whatever the super types are the search for it ends. -/
theorem derives_of_declared (ds : List TopLevel) :
    let s := ofDeclared ds
    (∀ name super, s.HasSuperType name super ↔
      ∃ before t after, ds = before ++ .type t :: after ∧ t.name = name ∧
        t.superType = some super ∧ ∀ u, .type u ∈ after → u.name ≠ name) ∧
    (∀ expected actual more,
      Trail.finds s.superType? expected (s.types.length + 2 + more) [] (some actual) =
        s.derives expected actual) ∧
    (∀ expected actual,
      s.derives expected actual = true ↔ ReflTransGen s.HasSuperType actual expected) ∧
    (∀ type, s.derives type type = true) ∧
    (∀ a b c, s.derives a b = true → s.derives b c = true → s.derives a c = true) :=
  ⟨fun _ _ => hasSuperType_ofDeclared_iff, finds_superType _, fun _ _ => derives_iff,
    derives_refl _, fun _ _ _ => derives_trans⟩

/-- A lane and a way are declared twice. Of the super types that count, those of the track and
of the way go round, and that of the lane leads to them. -/
theorem derives_of_declared_ring :
    let type (name : String) (super : String) : TopLevel :=
      .type ⟨.unqualified name, [], some (.unqualified super), false⟩
    let s := ofDeclared [type "lane" "part", type "way" "thing", type "lane" "track",
      type "track" "way", type "way" "track"]
    s.derives (.unqualified "way") (.unqualified "track") = true ∧
      s.derives (.unqualified "track") (.unqualified "lane") = true ∧
      s.derives (.unqualified "way") (.unqualified "lane") = true ∧
      s.derives (.unqualified "thing") (.unqualified "lane") = false := by
  intro type s
  obtain ⟨-, -, -, -, htrans⟩ := derives_of_declared [type "lane" "part", type "way" "thing",
    type "lane" "track", type "track" "way", type "way" "track"]
  have hway : s.derives (.unqualified "way") (.unqualified "track") = true := by decide
  have htrack : s.derives (.unqualified "track") (.unqualified "lane") = true := by decide
  exact ⟨hway, htrack, htrans _ _ _ hway htrack, by decide⟩

end Schema

end FeatureMarkup

import Mathlib.Data.List.Induction
import FeatureMarkup.Proofs.Schema.Chains

/-! What top-level declarations make of substitution groups.

A schema is declared one feature type or one element after another. Only the last head of an
element counts, so heads are a graph in which every name leads to one other at most; it may
have cycles, and lead to names that are declared nowhere. The group of a head is everything
else that reaches it, `groups_of_declared`, whatever was declared in between and in whatever
order the groups are filled. -/
namespace FeatureMarkup

open Relation (TransGen ReflTransGen)

/-! ### Declarations -/

/-- One declaration at the top level of a schema. -/
inductive TopLevel where
  | type (type : FeatureType)
  | element (name : Name) (head : Option Name)

/-- The name that is declared. -/
def TopLevel.name : TopLevel → Name
  | .type t => t.name
  | .element name _ => name

/-- The head that a declaration gives to a name. -/
def TopLevel.head? (name : Name) : TopLevel → Option Name
  | .type _ => none
  | .element declared head => if declared = name then head else none

theorem TopLevel.head?_eq_some_iff {name head : Name} {d : TopLevel} :
    d.head? name = some head ↔ d = .element name (some head) := by
  cases d with
  | type t => simp [TopLevel.head?]
  | element declared given =>
    simp only [TopLevel.head?, TopLevel.element.injEq]
    by_cases h : declared = name <;> simp [h]

namespace Schema

/-- The schema with one declaration more. -/
def declare (s : Schema) : TopLevel → Schema
  | .type t => s.addType t
  | .element name head => s.addElement name head

/-- The schema of several declarations, in order. -/
def ofDeclared (ds : List TopLevel) : Schema := ds.foldl declare empty

theorem ofDeclared_concat (ds : List TopLevel) (d : TopLevel) :
    ofDeclared (ds ++ [d]) = (ofDeclared ds).declare d := by
  simp [ofDeclared]

theorem head?_declare (s : Schema) (d : TopLevel) (name : Name) :
    (s.declare d).head? name = (d.head? name).or (s.head? name) := by
  cases d with
  | type t => rfl
  | element declared head =>
    by_cases h : declared = name
    · cases head <;> simp [declare, addElement, Schema.head?, TopLevel.head?, h]
    · simp [declare, addElement, Schema.head?, TopLevel.head?, h]

/-- What every declaration either tells anew or leaves is told by the last that tells it. -/
theorem ofDeclared_eq_findSome? {β : Type} (look : Schema → Option β) (tells : TopLevel → Option β)
    (hempty : look empty = none) (hdeclare : ∀ s d, look (s.declare d) = (tells d).or (look s))
    (ds : List TopLevel) : look (ofDeclared ds) = ds.reverse.findSome? tells := by
  induction ds using List.reverseRecOn with
  | nil => exact hempty
  | append_singleton ds d ih =>
    rw [ofDeclared_concat, hdeclare, ih, List.reverse_append, List.reverse_singleton,
      List.singleton_append, List.findSome?_cons]
    cases tells d <;> rfl

/-- The last declaration that tells something is one behind which none does. -/
theorem findSome?_reverse_eq_some_iff {β : Type} {tells : TopLevel → Option β} {b : β}
    {ds : List TopLevel} : ds.reverse.findSome? tells = some b ↔
      ∃ before d after, ds = before ++ d :: after ∧ tells d = some b ∧
        ∀ other ∈ after, tells other = none := by
  rw [List.findSome?_eq_some_iff]
  constructor
  · intro hgiven
    obtain ⟨after, d, before, hds, hd, hafter⟩ := hgiven
    exact ⟨before.reverse, d, after.reverse, by simpa using congrArg List.reverse hds, hd,
      by simpa using hafter⟩
  · intro hgiven
    obtain ⟨before, d, after, rfl, hd, hafter⟩ := hgiven
    exact ⟨after.reverse, d, before.reverse, by simp, hd, by simpa using hafter⟩

theorem head?_ofDeclared (ds : List TopLevel) (name : Name) :
    (ofDeclared ds).head? name = ds.reverse.findSome? (TopLevel.head? name) :=
  ofDeclared_eq_findSome? (·.head? name) _ rfl (fun s d => head?_declare s d name) ds

/-- The head of an element is the one it was last declared with. -/
theorem head?_ofDeclared_eq_some_iff {ds : List TopLevel} {name head : Name} :
    (ofDeclared ds).head? name = some head ↔
      ∃ before after, ds = before ++ .element name (some head) :: after ∧
        ∀ other, .element name (some other) ∉ after := by
  have hnone {l : List TopLevel} : (∀ d ∈ l, d.head? name = none) ↔
      ∀ other, TopLevel.element name (some other) ∉ l := by
    simp only [Option.eq_none_iff_forall_ne_some, ne_eq, TopLevel.head?_eq_some_iff]
    exact ⟨fun h other hmem => h _ hmem other rfl, fun h d hmem other hd => h other (hd ▸ hmem)⟩
  rw [head?_ofDeclared, findSome?_reverse_eq_some_iff]
  simp only [TopLevel.head?_eq_some_iff, hnone]
  constructor
  · rintro ⟨before, _, after, hds, rfl, hafter⟩
    exact ⟨before, after, hds, hafter⟩
  · rintro ⟨before, after, hds, hafter⟩
    exact ⟨before, _, after, hds, rfl, hafter⟩

theorem isElement_declare (s : Schema) (d : TopLevel) (name : Name) :
    (s.declare d).isElement name = true ↔ s.isElement name = true ∨ d.name = name := by
  cases d with
  | type t => simp [declare, addType, isElement, TopLevel.name, or_right_comm]
  | element declared head => simp [declare, addElement, isElement, TopLevel.name, or_assoc]

/-- The elements are the names that were declared, as a feature type or as an element. -/
theorem isElement_ofDeclared {ds : List TopLevel} {name : Name} :
    (ofDeclared ds).isElement name = true ↔ ∃ d ∈ ds, d.name = name := by
  induction ds using List.reverseRecOn with
  | nil => simp [ofDeclared, empty, isElement]
  | append_singleton ds d ih =>
    rw [ofDeclared_concat, isElement_declare, ih]
    simp [or_and_right, exists_or]

/-! ### Chains of heads -/

/-- A name has the other for its head. -/
def HasHead (s : Schema) : Name → Name → Prop := Trail.Leads s.head?

variable {s : Schema} {element head : Name}

theorem exists_element_of_head? (h : s.head? element = some head) :
    ⟨element, some head⟩ ∈ s.elements := by
  obtain ⟨e, he, hhead⟩ := List.exists_of_findSome?_eq_some h
  split at hhead
  next hname =>
    subst hname
    exact List.mem_reverse.1 (hhead ▸ he)
  next => cases hhead

theorem isElement_of_head? (h : s.head? element = some head) : s.isElement element = true := by
  simp only [isElement, Bool.or_eq_true, List.any_eq_true]
  exact .inr ⟨_, exists_element_of_head? h, by simp⟩

theorem mem_names_of_head? (a b : Name) (h : Trail.Leads s.head? a b) : a ∈ s.elements.map (·.name) :=
  List.mem_map.2 ⟨_, exists_element_of_head? h, rfl⟩

/-- The heads of an element are those it reaches, over one other or more. -/
theorem mem_heads_iff : head ∈ (s.heads element).names ↔ TransGen s.HasHead element head := by
  have hsteps : (s.elements.map (·.name)).length < s.elements.length + 2 := by simp
  rw [heads, Trail.mem_follow_iff mem_names_of_head? hsteps, Relation.TransGen.head'_iff]
  rfl

/-- Following the heads of an element comes to an end by itself. -/
theorem follow_heads (s : Schema) (element : Name) (more : Nat) :
    Trail.follow s.head? (s.elements.length + 2 + more) [] (s.head? element) = s.heads element :=
  Trail.follow_add mem_names_of_head? (Trail.underway_start (by simp) _) more

theorem isMember_iff : s.isMember element head = true ↔ element ≠ head ∧ TransGen s.HasHead element head := by
  simp [isMember, mem_heads_iff]

/-- An element that reaches another has a head. -/
theorem exists_head?_of_reaches (h : TransGen s.HasHead element head) :
    ∃ first, s.head? element = some first := by
  obtain ⟨first, hfirst, -⟩ := Relation.TransGen.head'_iff.1 h
  exact ⟨first, hfirst⟩

theorem mem_substitutes_iff : element ∈ s.substitutes ↔ ∃ head, s.head? element = some head := by
  rw [substitutes, List.mem_eraseDups, ← Option.isSome_iff_exists, Schema.head?,
    List.findSome?_isSome_iff]
  constructor
  · intro h
    obtain ⟨e, he, rfl⟩ := List.mem_map.1 h
    obtain ⟨hmem, hhead⟩ := List.mem_filter.1 he
    exact ⟨e, List.mem_reverse.2 hmem, by simpa using hhead⟩
  · rintro ⟨e, hmem, hhead⟩
    split at hhead
    next hname =>
      exact List.mem_map.2 ⟨e, List.mem_filter.2 ⟨List.mem_reverse.1 hmem, hhead⟩, hname⟩
    next => cases hhead

/-! ### Groups -/

/-- Whether a group is made of the names with a property: there is none where no name has
it. -/
def IsGroup (group : Option (List Name)) (P : Name → Prop) : Prop :=
  match group with
  | some members => members ≠ [] ∧ ∀ name, name ∈ members ↔ P name
  | none => ∀ name, ¬P name

/-- The members found, none if there are none. -/
def nonempty? : List Name → Option (List Name)
  | [] => none
  | members => some members

theorem isGroup_nonempty? {members : List Name} {P : Name → Prop}
    (h : ∀ name, name ∈ members ↔ P name) : IsGroup (nonempty? members) P := by
  cases members with
  | nil => exact fun name hP => List.not_mem_nil ((h name).2 hP)
  | cons first rest => exact ⟨nofun, h⟩

/-- Whether a name is another one that reaches the head. -/
def Substitutes (s : Schema) (head element : Name) : Prop :=
  element ≠ head ∧ TransGen s.HasHead element head

theorem isGroup_group? (s : Schema) (head : Name) : IsGroup (s.group? head) (s.Substitutes head) := by
  have hgroup : s.group? head = nonempty? (s.substitutes.filter (s.isMember · head)) := rfl
  rw [hgroup]
  refine isGroup_nonempty? fun element => ?_
  rw [List.mem_filter, mem_substitutes_iff, isMember_iff]
  exact and_iff_right_of_imp fun h => exists_head?_of_reaches h.2

/-- What is entered when the groups are filled element by element in some order: each
element, under every head on its chain but itself. -/
def entries (s : Schema) (order : List Name) : List (Name × Name) :=
  order.flatMap fun element => ((s.heads element).names.filter (· ≠ element)).map (·, element)

/-- The group that is entered under a head. -/
def entered? (entries : List (Name × Name)) (head : Name) : Option (List Name) :=
  nonempty? ((entries.filter (·.1 = head)).map (·.2))

/-- The groups do not depend on the order in which they are filled. -/
theorem isGroup_entered? {order : List Name} (h : ∀ element, element ∈ order ↔ element ∈ s.substitutes)
    (head : Name) : IsGroup (entered? (s.entries order) head) (s.Substitutes head) := by
  refine isGroup_nonempty? fun element => ?_
  have hentry : element ∈ ((s.entries order).filter (·.1 = head)).map (·.2) ↔
      element ∈ order ∧ head ∈ (s.heads element).names ∧ head ≠ element := by
    simp only [entries, List.mem_map, List.mem_filter, List.mem_flatMap, decide_eq_true_eq, ne_eq]
    constructor
    · rintro ⟨_, ⟨⟨member, hmember, first, ⟨hfirst, hne⟩, rfl⟩, rfl⟩, rfl⟩
      exact ⟨hmember, hfirst, hne⟩
    · rintro ⟨hmember, hhead, hne⟩
      exact ⟨_, ⟨⟨element, hmember, head, ⟨hhead, hne⟩, rfl⟩, rfl⟩, rfl⟩
  rw [hentry, h, mem_substitutes_iff, mem_heads_iff]
  constructor
  · rintro ⟨-, hreach, hne⟩
    exact ⟨hne.symm, hreach⟩
  · rintro ⟨hne, hreach⟩
    exact ⟨exists_head?_of_reaches hreach, hreach, hne.symm⟩

/-! ### Elements in place of declared ones -/

/-- An element stands for the declared one, or for one that it reaches and that was declared
at the top level. -/
theorem admits_iff {declared : Name} : s.admits element declared = true ↔
    element = declared ∨ s.isElement declared = true ∧ TransGen s.HasHead element declared := by
  simp only [admits, Bool.or_eq_true, Bool.and_eq_true, decide_eq_true_eq, isMember_iff]
  constructor
  · rintro (h | ⟨⟨-, hdeclared⟩, -, hreach⟩)
    · exact .inl h
    · exact .inr ⟨hdeclared, hreach⟩
  · rintro (h | ⟨hdeclared, hreach⟩)
    · exact .inl h
    · by_cases hsame : element = declared
      · exact .inl hsame
      · obtain ⟨first, hfirst⟩ := exists_head?_of_reaches hreach
        exact .inr ⟨⟨isElement_of_head? hfirst, hdeclared⟩, hsame, hreach⟩

/-- What stands for what is told by the elements and their heads. -/
theorem admits_congr {s s' : Schema} (hdeclared : ∀ name, s'.isElement name = s.isElement name)
    (hheads : ∀ name, s'.head? name = s.head? name) (element declared : Name) :
    s'.admits element declared = s.admits element declared := by
  have hrelation : s'.HasHead = s.HasHead := by
    funext a b
    simp only [HasHead, Trail.Leads, hheads]
  rw [Bool.eq_iff_iff, admits_iff, admits_iff, hdeclared, hrelation]

/-! ### Of all declarations together -/

/-- Substitution groups are the transitive closure of the heads that count. This needs no
bound on a chain, and no order in which the groups are filled. -/
theorem groups_of_declared (ds : List TopLevel) :
    let s := ofDeclared ds
    (∀ name head, s.head? name = some head ↔
      ∃ before after, ds = before ++ .element name (some head) :: after ∧
        ∀ other, .element name (some other) ∉ after) ∧
    (∀ name, s.isElement name = true ↔ ∃ d ∈ ds, d.name = name) ∧
    (∀ element more,
      Trail.follow s.head? (s.elements.length + 2 + more) [] (s.head? element) = s.heads element) ∧
    (∀ head, IsGroup (s.group? head) (s.Substitutes head)) ∧
    (∀ element, element ∈ s.substitutes ↔ ∃ head, s.head? element = some head) ∧
    (∀ order, order.Perm s.substitutes →
      ∀ head, IsGroup (entered? (s.entries order) head) (s.Substitutes head)) ∧
    (∀ element declared, s.admits element declared = true ↔
      element = declared ∨ s.isElement declared = true ∧ TransGen s.HasHead element declared) ∧
    (∀ ds', (∀ name, (ofDeclared ds').isElement name = s.isElement name) →
      (∀ name, (ofDeclared ds').head? name = s.head? name) →
      ∀ element declared, (ofDeclared ds').admits element declared = s.admits element declared) :=
  ⟨fun _ _ => head?_ofDeclared_eq_some_iff, fun _ => isElement_ofDeclared, follow_heads _,
    isGroup_group? _, fun _ => mem_substitutes_iff,
    fun _ hperm => isGroup_entered? fun _ => hperm.mem_iff, fun _ _ => admits_iff,
    fun _ hdeclared hheads => admits_congr hdeclared hheads⟩

/-- A tail that leads into heads that go round, with everything declared twice. -/
theorem groups_of_declared_ring :
    let ring : List TopLevel := [.element (.unqualified "track") (some (.unqualified "lane")),
      .element (.unqualified "lane") (some (.unqualified "way")),
      .element (.unqualified "way") (some (.unqualified "lane"))]
    let order : List Name := [.unqualified "way", .unqualified "track", .unqualified "lane"]
    order.Perm (ofDeclared ring).substitutes ∧
      IsGroup (entered? ((ofDeclared ring).entries order) (.unqualified "lane"))
        ((ofDeclared ring).Substitutes (.unqualified "lane")) ∧
      (ofDeclared (ring ++ ring)).admits (.unqualified "track") (.unqualified "way") =
        (ofDeclared ring).admits (.unqualified "track") (.unqualified "way") := by
  intro ring order
  have hperm : order.Perm (ofDeclared ring).substitutes := by decide
  have hdeclared (name : Name) :
      (ofDeclared (ring ++ ring)).isElement name = (ofDeclared ring).isElement name := by
    rw [Bool.eq_iff_iff, isElement_ofDeclared, isElement_ofDeclared]
    simp only [List.mem_append, or_self]
  have hheads (name : Name) : (ofDeclared (ring ++ ring)).head? name = (ofDeclared ring).head? name := by
    simp only [head?_ofDeclared, List.reverse_append, List.findSome?_append, Option.or_self]
  obtain ⟨-, -, -, -, -, hgroups, -, hsame⟩ := groups_of_declared ring
  exact ⟨hperm, hgroups order hperm _, hsame (ring ++ ring) hdeclared hheads _ _⟩

end Schema

end FeatureMarkup

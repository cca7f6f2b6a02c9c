import FeatureMarkup.Xml.Reading

/-! The names of ends.

An end tag is written like the start tag it closes, and its name is looked up among the
namespaces in force there. These are the same again as at the start: what elements inside have
declared is gone when they are left (`Scope.leave_enter`). So up to the first fault every end
carries the name of the start that it closes, `endsMatch_readings`. -/
namespace FeatureMarkup

open Xml (Attribute Content Reading)

/-- Readings in which every end closes the start of an element with its name, as far as there
is no fault, when elements with these names are open before them, the innermost first. -/
def EndsMatch : List Name → List Reading → Prop
  | _, [] => True
  | _, ⟨_, .error _⟩ :: _ => True
  | opened, ⟨_, .ok (.start name _)⟩ :: rest => EndsMatch (name :: opened) rest
  | [], ⟨_, .ok (.stop _)⟩ :: _ => False
  | expected :: opened, ⟨_, .ok (.stop name)⟩ :: rest => name = expected ∧ EndsMatch opened rest
  | opened, ⟨_, .ok (.text _)⟩ :: rest => EndsMatch opened rest
  | opened, ⟨_, .ok .ignored⟩ :: rest => EndsMatch opened rest

section EndsMatch
variable {opened : List Name} {offset : Nat} {rest : List Reading} {name : Name}

@[simp] theorem endsMatch_nil : EndsMatch opened [] := by
  cases opened <;> trivial

@[simp] theorem endsMatch_error {fault : Xml.Fault} :
    EndsMatch opened (⟨offset, .error fault⟩ :: rest) := by
  cases opened <;> trivial

@[simp] theorem endsMatch_start {attributes : List Attribute} :
    EndsMatch opened (⟨offset, .ok (.start name attributes)⟩ :: rest) ↔
      EndsMatch (name :: opened) rest := by
  cases opened <;> rfl

@[simp] theorem endsMatch_stop :
    EndsMatch opened (⟨offset, .ok (.stop name)⟩ :: rest) ↔
      ∃ outer, opened = name :: outer ∧ EndsMatch outer rest := by
  cases opened with
  | nil => simp [EndsMatch]
  | cons expected outer =>
    simp only [EndsMatch, List.cons.injEq]
    constructor
    · intro h
      exact ⟨outer, ⟨h.1.symm, rfl⟩, h.2⟩
    · intro h
      obtain ⟨_, ⟨rfl, rfl⟩, hrest⟩ := h
      exact ⟨rfl, hrest⟩

@[simp] theorem endsMatch_text {text : String} :
    EndsMatch opened (⟨offset, .ok (.text text)⟩ :: rest) ↔ EndsMatch opened rest := by
  cases opened <;> rfl

@[simp] theorem endsMatch_ignored :
    EndsMatch opened (⟨offset, .ok .ignored⟩ :: rest) ↔ EndsMatch opened rest := by
  cases opened <;> rfl

/-- Behind readings without a fault the ends match those that are open then. -/
theorem EndsMatch.behind {before : List Reading} (h : EndsMatch opened (before ++ rest))
    (hbefore : ∀ r ∈ before, ∃ content, r.outcome = .ok content) :
    ∃ opened, EndsMatch opened rest := by
  induction before generalizing opened with
  | nil => exact ⟨opened, h⟩
  | cons r before ih =>
    have hlater := fun r hr => hbefore r (List.mem_cons_of_mem _ hr)
    obtain ⟨offset, outcome⟩ := r
    obtain ⟨content, rfl⟩ : ∃ content, outcome = .ok content := hbefore _ List.mem_cons_self
    rw [List.cons_append] at h
    cases content with
    | start name attributes => exact ih (endsMatch_start.1 h) hlater
    | stop name =>
      obtain ⟨outer, -, h⟩ := endsMatch_stop.1 h
      exact ih h hlater
    | text text => exact ih (endsMatch_text.1 h) hlater
    | ignored => exact ih (endsMatch_ignored.1 h) hlater

end EndsMatch

namespace Xml

/-! ### Namespaces behind an element -/

namespace Scope
variable {s s' : Scope}

/-- No declaration is made deeper than the level of nesting. -/
def Leveled (s : Scope) : Prop := ∀ b ∈ s.bindings, b.level ≤ s.level

/-- The scope with more declarations at its own level. -/
def Extends (s s' : Scope) : Prop :=
  s'.level = s.level ∧ ∃ more, s'.bindings = more ++ s.bindings ∧ ∀ b ∈ more, b.level = s.level

theorem Extends.refl (s : Scope) : s.Extends s := ⟨rfl, [], rfl, nofun⟩

theorem Extends.trans {s'' : Scope} (h : s.Extends s') (h' : s'.Extends s'') : s.Extends s'' := by
  obtain ⟨hlevel, more, hmore, hlevels⟩ := h
  obtain ⟨hlevel', more', hmore', hlevels'⟩ := h'
  refine ⟨hlevel'.trans hlevel, more' ++ more, by rw [hmore', hmore, List.append_assoc], ?_⟩
  intro b hb
  rcases List.mem_append.1 hb with hb | hb
  · exact (hlevels' b hb).trans hlevel
  · exact hlevels b hb

theorem extends_of_declare {label : Option (List UInt8)} {space : List UInt8}
    (h : s.declare label space = .ok s') : s.Extends s' := by
  have hbind (label : Option (List UInt8)) :
      s.Extends { s with bindings := ⟨label, space, s.level⟩ :: s.bindings } :=
    ⟨rfl, [_], rfl, by simp⟩
  unfold declare at h
  grind [Extends.refl]

theorem extends_declareAll (s : Scope) (assignments : List (List UInt8 × List UInt8)) :
    s.Extends (s.declareAll assignments).1 := by
  induction assignments generalizing s with
  | nil => exact .refl s
  | cons assignment rest ih =>
    obtain ⟨key, value⟩ := assignment
    rw [declareAll]
    cases declared? key with
    | none => exact ih s
    | some label =>
      cases hdeclare : s.declare label value with
      | error fault =>
        simp only [hdeclare]
        exact .refl s
      | ok s₁ =>
        simp only [hdeclare]
        exact (extends_of_declare hdeclare).trans (ih s₁)

theorem leveled_enter (h : s.Leveled) (assignments : List (List UInt8 × List UInt8)) :
    (s.enter assignments).1.Leveled := by
  obtain ⟨hlevel, more, hmore, hlevels⟩ := extends_declareAll { s with level := s.level + 1 } assignments
  intro b hb
  rw [enter, hmore] at hb
  rw [enter, hlevel]
  rcases List.mem_append.1 hb with hb | hb
  · exact Nat.le_of_eq (hlevels b hb)
  · exact Nat.le_succ_of_le (h b hb)

/-- Behind an element the same holds as before it. -/
theorem leave_enter (h : s.Leveled) (assignments : List (List UInt8 × List UInt8)) :
    (s.enter assignments).1.leave = s := by
  obtain ⟨hlevel, more, hmore, hlevels⟩ := extends_declareAll { s with level := s.level + 1 } assignments
  have hinner : ∀ b ∈ more, (decide (s.level < b.level)) = true := by
    intro b hb
    rw [hlevels b hb]
    simp
  have houter : s.bindings.dropWhile (s.level < ·.level) = s.bindings := by
    rcases hbindings : s.bindings with _ | ⟨b, rest⟩
    · rfl
    · have hb := h b (hbindings ▸ List.mem_cons_self)
      rw [List.dropWhile_cons_of_neg (by simpa using hb)]
  rw [leave, enter, hlevel, hmore]
  simp only [Nat.add_sub_cancel]
  rw [List.dropWhile_append_of_pos hinner, houter]

end Scope

/-! ### Elements that are open -/

/-- The elements that are open, by their names as written and in their namespaces, each with
the scope it is in; the given scope is that of the innermost. -/
inductive Open : Scope → List (List UInt8) → List Name → Prop where
  | outside {scope} : scope.Leveled → Open scope [] []
  | inside {scope raws names assignments raw name} : Open scope raws names →
      elementName (scope.enter assignments).1 raw = .ok name →
      Open (scope.enter assignments).1 (raw :: raws) (name :: names)

namespace Open
variable {scope : Scope} {raw : List UInt8} {raws : List (List UInt8)} {names : List Name}

theorem leveled (h : Open scope raws names) : scope.Leveled := by
  induction h with
  | outside hlevels => exact hlevels
  | inside _ _ ih => exact Scope.leveled_enter ih _

/-- The innermost element has its name in the scope that is in force. -/
theorem innermost (h : Open scope (raw :: raws) names) :
    ∃ name outer, names = name :: outer ∧ elementName scope raw = .ok name ∧
      Open scope.leave raws outer := by
  cases h with
  | inside houter hname => exact ⟨_, _, rfl, hname, by rwa [Scope.leave_enter houter.leveled]⟩

end Open

/-- The elements that are open in a nesting when the next piece is read. -/
def Nesting.Opens (n : Nesting) (names : List Name) : Prop :=
  Open n.settle.scope n.opened names

namespace Nesting
variable {n : Nesting} {names : List Name}

theorem opens_settle : n.settle.Opens names ↔ n.Opens names := by
  obtain ⟨opened, scope, closed⟩ := n
  cases closed <;> rfl

@[simp] theorem settle_opened : n.settle.opened = n.opened := by
  unfold settle
  split <;> rfl

/-- A start tag names its element in the scope that it opens. -/
theorem start_eq_ok {content : List UInt8} {told : Content} (h : (n.start content).1 = .ok told) :
    ∃ name attributes, told = .start name attributes ∧
      elementName (n.start content).2.scope (tagName content) = .ok name := by
  simp only [start] at h ⊢
  cases hrefused : (n.scope.enter (assigned (clauses content))).2 with
  | some fault => simp [hrefused] at h
  | none =>
    rw [hrefused] at h
    cases hname : elementName (n.scope.enter (assigned (clauses content))).1 (tagName content) with
    | error fault => simp [hname, bind, Except.bind] at h
    | ok name =>
      cases hattributes : Xml.attributes (n.scope.enter (assigned (clauses content))).1
          (distinct [] (clauses content)) with
      | error fault => simp [hname, hattributes, bind, Except.bind] at h
      | ok attributes =>
        simp only [hname, hattributes, bind, Except.bind, pure, Except.pure, Except.ok.injEq] at h
        exact ⟨name, attributes, h.symm, rfl⟩

theorem Opens.start {content : List UInt8} {name : Name} (h : n.Opens names)
    (hname : elementName (n.settle.start content).2.scope (tagName content) = .ok name) :
    (n.settle.start content).2.Opens (name :: names) := by
  have houter : Open n.settle.scope n.settle.opened names := by rwa [settle_opened]
  exact .inside houter hname

/-- The end of the innermost element has its name, and then the elements around it are open. -/
theorem Opens.stop {raw : List UInt8} {raws : List (List UInt8)}
    (h : Open n.scope (raw :: raws) names) : ∃ name outer, names = name :: outer ∧
      (n.stop raw raws).1 = .ok (.stop name) ∧ (n.stop raw raws).2.Opens outer := by
  obtain ⟨name, outer, rfl, hname, houter⟩ := h.innermost
  exact ⟨name, outer, rfl, by rw [Nesting.stop, hname]; rfl, houter⟩

end Nesting

theorem endsMatch_readingsFrom {n : Nesting} {names : List Name} (h : n.Opens names)
    (pieces : List Piece) : EndsMatch names (readingsFrom n pieces) := by
  induction pieces generalizing n names with
  | nil => exact endsMatch_nil
  | cons piece rest ih =>
    obtain ⟨offset, fault | markup⟩ := piece
    · exact endsMatch_error
    have hsettled := Nesting.opens_settle.2 h
    cases markup with
    | ignored => exact endsMatch_ignored.2 (ih hsettled)
    | text content =>
      simp only [readingsFrom]
      cases decodeText content with
      | error fault => exact endsMatch_error
      | ok text => exact endsMatch_text.2 (ih hsettled)
    | cdata content =>
      simp only [readingsFrom]
      cases decode content with
      | error fault => exact endsMatch_error
      | ok text => exact endsMatch_text.2 (ih hsettled)
    | start content =>
      simp only [readingsFrom]
      cases hstart : (n.settle.start content).1 with
      | error fault => exact endsMatch_error
      | ok told =>
        obtain ⟨name, attributes, rfl, hname⟩ := Nesting.start_eq_ok hstart
        exact endsMatch_start.2 (ih (h.start hname))
    | empty content =>
      simp only [readingsFrom]
      cases hstart : (n.settle.start content).1 with
      | error fault => exact endsMatch_error
      | ok told =>
        obtain ⟨name, attributes, rfl, hname⟩ := Nesting.start_eq_ok hstart
        have hinner : Open (n.settle.start content).2.scope (tagName content :: n.settle.opened)
          (name :: names) := h.start hname
        obtain ⟨_, _, hnames, hstop, hopens⟩ := Nesting.Opens.stop hinner
        rw [endsMatch_start, hnames, hstop, endsMatch_stop]
        exact ⟨_, rfl, ih hopens⟩
    | stop content =>
      simp only [readingsFrom, Nesting.endTag]
      cases hopened : n.settle.opened with
      | nil => exact endsMatch_error
      | cons raw raws =>
        by_cases hname : endName content = raw
        · have hinner : Open n.settle.scope (raw :: raws) names := by
            rwa [← hopened, Nesting.settle_opened]
          obtain ⟨_, _, rfl, hstop, hopens⟩ := Nesting.Opens.stop hinner
          simp only [hname, if_true, hstop, endsMatch_stop]
          exact ⟨_, rfl, ih hopens⟩
        · simp only [hname, if_false]
          exact endsMatch_error

/-- In every document the ends have the names of the starts that they close, as far as there
is no fault. -/
theorem endsMatch_readings (bytes : List UInt8) : EndsMatch [] (readings bytes) := by
  have hleveled : Scope.initial.Leveled := by simp [Scope.Leveled, Scope.initial]
  have houtside : Nesting.outside.Opens [] := .outside hleveled
  exact endsMatch_readingsFrom houtside _

end Xml

end FeatureMarkup

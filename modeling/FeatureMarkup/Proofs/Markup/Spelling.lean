import FeatureMarkup.Feature.Tree

/-! Which readings tell of which markup.

A run of nodes is spelled by readings when they give the nodes one after another, each
element from its start to its end, with blank text and what is ignored wherever it
pleases. So the readings of what is inside an element leave it open, and the one
behind them ends it: `Spells.endsElement` says that no earlier one does. -/
namespace FeatureMarkup

open Xml (Attribute Content Reading)

/-! ### Spelling -/

/-- Readings that tell of a run of nodes. -/
inductive Spells : List Reading → List MarkupNode → Prop where
  | nil : Spells [] []
  | ignored {offset rest nodes} : Spells rest nodes →
      Spells (⟨offset, .ok .ignored⟩ :: rest) nodes
  | blank {offset text rest nodes} : Text.allBlank text = true → Spells rest nodes →
      Spells (⟨offset, .ok (.text text)⟩ :: rest) nodes
  | text {offset text rest nodes} : Text.allBlank text = false → Spells rest nodes →
      Spells (⟨offset, .ok (.text text)⟩ :: rest) (.text text :: nodes)
  | element {offset name attributes inside children offset' name' rest nodes} :
      Spells inside children → Spells rest nodes →
      Spells (⟨offset, .ok (.start name attributes)⟩ :: inside ++
        ⟨offset', .ok (.stop name')⟩ :: rest) (.element ⟨name, attributes, children⟩ :: nodes)

namespace Spells

theorem append {a b : List Reading} {ns ms : List MarkupNode} (h : Spells a ns)
    (h' : Spells b ms) : Spells (a ++ b) (ns ++ ms) := by
  induction h with
  | nil => exact h'
  | ignored _ ih => exact ih.ignored
  | blank hb _ ih => exact .blank hb ih
  | text hb _ ih => exact .text hb ih
  | element hi _ _ ih => simpa using Spells.element hi ih

end Spells

/-! ### Depth -/

/-- By how much a reading changes the number of open elements. -/
def Xml.Reading.step (r : Reading) : Int :=
  match r.outcome with
  | .ok (.start _ _) => 1
  | .ok (.stop _) => -1
  | _ => 0

/-- By how much readings change the number of open elements. -/
def depthChange : List Reading → Int
  | [] => 0
  | r :: rest => r.step + depthChange rest

@[simp] theorem depthChange_nil : depthChange [] = 0 := rfl

@[simp] theorem depthChange_cons (r : Reading) (rest : List Reading) :
    depthChange (r :: rest) = r.step + depthChange rest := rfl

@[simp] theorem depthChange_append (a b : List Reading) :
    depthChange (a ++ b) = depthChange a + depthChange b := by
  induction a with
  | nil => exact (Int.zero_add _).symm
  | cons r rest ih => rw [List.cons_append, depthChange_cons, ih, depthChange_cons, Int.add_assoc]

/-- Readings that end the element that is open before them, the last of them and no
earlier one: only then is the number of elements opened and not ended back at zero. -/
structure EndsElement (readings : List Reading) : Prop where
  ended : 1 + depthChange readings = 0
  still_open : ∀ part, part <+: readings → part ≠ readings → 0 < 1 + depthChange part

/-- What is inside an element ends as many elements as it starts, and none but those. -/
theorem Spells.depth {readings : List Reading} {nodes : List MarkupNode}
    (h : Spells readings nodes) :
    depthChange readings = 0 ∧ ∀ part, part <+: readings → 0 ≤ depthChange part := by
  induction h with
  | nil => exact ⟨rfl, fun part hp => by simp_all⟩
  | ignored _ ih | blank _ _ ih | text _ _ ih =>
    refine ⟨by simpa [Reading.step] using ih.1, fun part hp => ?_⟩
    cases part with
    | nil => simp
    | cons r part =>
      obtain ⟨rfl, hrest⟩ := List.cons_prefix_cons.1 hp
      simpa [Reading.step] using ih.2 part hrest
  | @element offset name attributes inside children offset' name' rest nodes _ _ ihi ihr =>
    refine ⟨by simp [Reading.step, ihi.1, ihr.1], fun part hp => ?_⟩
    cases part with
    | nil => simp
    | cons r part =>
      obtain ⟨rfl, hpart⟩ := List.cons_prefix_cons.1 hp
      rcases List.prefix_or_prefix_of_prefix hpart (List.prefix_append inside _) with
        hpart | ⟨more, rfl⟩
      · have := ihi.2 part hpart
        simp [Reading.step]
        omega
      · cases more with
        | nil => simp [Reading.step, ihi.1]
        | cons r more =>
          have hmore := List.prefix_append_right_inj inside |>.1 hpart
          obtain ⟨rfl, hrest⟩ := List.cons_prefix_cons.1 hmore
          have := ihr.2 more hrest
          simp [Reading.step, ihi.1]
          omega

/-- The readings of what is inside an element, and its end. -/
theorem Spells.endsElement {inside : List Reading} {children : List MarkupNode}
    (h : Spells inside children) (offset : Nat) (name : Name) :
    EndsElement (inside ++ [⟨offset, .ok (.stop name)⟩]) := by
  obtain ⟨hzero, hopen⟩ := h.depth
  refine ⟨by simp [Reading.step, hzero], fun part hp hne => ?_⟩
  have hpart : part <+: inside := by
    rcases List.prefix_concat_iff.1 hp with rfl | hp
    · exact absurd rfl hne
    · exact hp
  have := hopen part hpart
  omega

/-! ### Size -/

mutual

/-- How many elements an element is, with those inside it. -/
def MarkupTree.elements : MarkupTree → Nat
  | ⟨_, _, children⟩ => MarkupNode.elementsOf children + 1

/-- How many elements a node is. -/
def MarkupNode.elements : MarkupNode → Nat
  | .element tree => tree.elements
  | .text _ => 0

/-- How many elements a run of nodes is. -/
def MarkupNode.elementsOf : List MarkupNode → Nat
  | [] => 0
  | node :: rest => node.elements + MarkupNode.elementsOf rest

end

/-- What is inside a child is less than what is inside the element. -/
theorem MarkupNode.elementsOf_element (tree : MarkupTree) (rest : List MarkupNode) :
    elementsOf (.element tree :: rest) = elementsOf tree.children + 1 + elementsOf rest := by
  cases tree
  rfl

/-- Whether a reading is an event: the start or the end of an element, or text. -/
def Xml.Reading.isEvent (r : Reading) : Bool :=
  match r.outcome with
  | .error _ | .ok .ignored => false
  | _ => true

/-- There are no fewer events than elements. -/
theorem Spells.elements_le {readings : List Reading} {nodes : List MarkupNode}
    (h : Spells readings nodes) : MarkupNode.elementsOf nodes ≤ readings.countP Reading.isEvent := by
  induction h with
  | nil => exact Nat.le_refl 0
  | ignored _ ih => simpa [List.countP_cons, Reading.isEvent] using ih
  | blank _ _ ih => simpa [List.countP_cons, Reading.isEvent] using Nat.le_succ_of_le ih
  | text _ _ ih =>
    simpa [List.countP_cons, Reading.isEvent, MarkupNode.elementsOf, MarkupNode.elements] using
      Nat.le_succ_of_le ih
  | element _ _ ihi ihr =>
    simp [List.countP_cons, Reading.isEvent, MarkupNode.elementsOf, MarkupNode.elements,
      MarkupTree.elements]
    omega

/-! ### One spelling -/

mutual

/-- The readings of an element with nothing but its nodes. -/
def MarkupTree.readings : MarkupTree → List Reading
  | ⟨name, attributes, children⟩ =>
    ⟨0, .ok (.start name attributes)⟩ :: MarkupNode.readingsOf children ++ [⟨0, .ok (.stop name)⟩]

/-- The readings of a node. -/
def MarkupNode.readings : MarkupNode → List Reading
  | .element tree => tree.readings
  | .text text => [⟨0, .ok (.text text)⟩]

/-- The readings of a run of nodes. -/
def MarkupNode.readingsOf : List MarkupNode → List Reading
  | [] => []
  | node :: rest => node.readings ++ MarkupNode.readingsOf rest

end

mutual

/-- Whether no text in an element is blank. -/
def MarkupTree.Kept : MarkupTree → Prop
  | ⟨_, _, children⟩ => MarkupNode.AllKept children

/-- Whether a node is no blank text and has none in it. -/
def MarkupNode.Kept : MarkupNode → Prop
  | .element tree => tree.Kept
  | .text text => Text.allBlank text = false

/-- Whether there is no blank text in a run of nodes. -/
def MarkupNode.AllKept : List MarkupNode → Prop
  | [] => True
  | node :: rest => node.Kept ∧ MarkupNode.AllKept rest

end

/-- Nodes without blank text can be spelled. -/
theorem MarkupNode.spells_readingsOf : ∀ {nodes : List MarkupNode}, MarkupNode.AllKept nodes →
    Spells (MarkupNode.readingsOf nodes) nodes
  | [], _ => .nil
  | .text _ :: _, h => .text h.1 (spells_readingsOf h.2)
  | .element ⟨name, attributes, children⟩ :: rest, h => by
    have hinside : Spells (MarkupNode.readingsOf children) children := spells_readingsOf h.1
    rw [MarkupNode.readingsOf, MarkupNode.readings, MarkupTree.readings, List.append_assoc,
      List.singleton_append]
    exact .element hinside (spells_readingsOf h.2)

end FeatureMarkup

import FeatureMarkup.Proofs.Markup.Closing
import FeatureMarkup.Proofs.Reader.Captured

/-! Capturing an element keeps everything but blank text.

An element is written as readings from its start to its end, and captured from readings again.
Blank text does not count there, nor what is ignored; what is left of readings without these is
their `substance`. Readings with the substance of written nodes spell these nodes
(`Spells.of_substance`), and whatever they spell is written so if the ends have the right names
(`Spells.substance_eq`). Both together, from the start of an element to its end, are
`captureElement_lossless`. -/
namespace FeatureMarkup

open Xml (Attribute Content Reading)

/-! ### Substance -/

/-- Whether a reading is neither ignored nor blank text. -/
def Xml.Reading.counts (r : Reading) : Bool :=
  match r.outcome with
  | .ok .ignored => false
  | .ok (.text text) => !Text.allBlank text
  | _ => true

/-- What readings tell one after another, without what is ignored and blank text. -/
def substance (readings : List Reading) : List (Except Xml.Fault Content) :=
  (readings.filter Reading.counts).map (·.outcome)

section Substance
variable {offset : Nat} {rest more : List Reading} {text : String}

theorem substance_cons {r : Reading} (h : r.counts = true) :
    substance (r :: rest) = r.outcome :: substance rest := by
  rw [substance, List.filter_cons_of_pos h]
  rfl

theorem substance_cons_of_not {r : Reading} (h : r.counts = false) :
    substance (r :: rest) = substance rest := by
  rw [substance, List.filter_cons_of_neg (by simp [h])]
  rfl

@[simp] theorem substance_append : substance (rest ++ more) = substance rest ++ substance more := by
  simp [substance]

@[simp] theorem substance_start {name : Name} {attributes : List Attribute} :
    substance (⟨offset, .ok (.start name attributes)⟩ :: rest) =
      .ok (.start name attributes) :: substance rest := rfl

@[simp] theorem substance_stop {name : Name} :
    substance (⟨offset, .ok (.stop name)⟩ :: rest) = .ok (.stop name) :: substance rest := rfl

@[simp] theorem substance_ignored : substance (⟨offset, .ok .ignored⟩ :: rest) = substance rest := rfl

theorem substance_blank (h : Text.allBlank text = true) :
    substance (⟨offset, .ok (.text text)⟩ :: rest) = substance rest :=
  substance_cons_of_not (by simp [Reading.counts, h])

theorem substance_text (h : Text.allBlank text = false) :
    substance (⟨offset, .ok (.text text)⟩ :: rest) = .ok (.text text) :: substance rest :=
  substance_cons (by simp [Reading.counts, h])

/-- The runs in an element and those behind it. -/
theorem runsOf_element {name name' : Name} {attributes : List Attribute} {offset' : Nat} :
    runsOf (⟨offset, .ok (.start name attributes)⟩ :: more ++ ⟨offset', .ok (.stop name')⟩ :: rest) =
      runsOf more ++ runsOf rest := by
  unfold runsOf
  rw [List.cons_append, List.filterMap_cons_none rfl, List.filterMap_append,
    List.filterMap_cons_none rfl]

/-- Readings without substance spell nothing. -/
theorem spells_nil_of_not_counts {r : Reading} (h : r.counts = false) : Spells [r] [] := by
  obtain ⟨offset, outcome⟩ := r
  rcases outcome with fault | content
  · cases h
  · cases content with
    | start | stop => cases h
    | text text => exact .blank (by simpa [Reading.counts] using h) .nil
    | ignored => exact .ignored .nil

theorem spells_nil_of_substance {readings : List Reading} (h : substance readings = []) :
    Spells readings [] := by
  induction readings with
  | nil => exact .nil
  | cons r rest ih =>
    cases hcounts : r.counts with
    | true => simp [substance_cons hcounts] at h
    | false =>
      rw [substance_cons_of_not hcounts] at h
      exact (spells_nil_of_not_counts hcounts).append (ih h)

/-- The first reading that counts, behind others that spell nothing. -/
theorem exists_of_substance_cons {readings : List Reading} {outcome : Except Xml.Fault Content}
    {later : List (Except Xml.Fault Content)} (h : substance readings = outcome :: later) :
    ∃ before offset rest, readings = before ++ ⟨offset, outcome⟩ :: rest ∧ Spells before [] ∧
      substance rest = later := by
  induction readings with
  | nil => cases h
  | cons r rest ih =>
    cases hcounts : r.counts with
    | true =>
      rw [substance_cons hcounts, List.cons.injEq] at h
      obtain ⟨rfl, hlater⟩ := h
      exact ⟨[], r.offset, rest, rfl, .nil, hlater⟩
    | false =>
      rw [substance_cons_of_not hcounts] at h
      obtain ⟨before, offset, rest', rfl, hbefore, hlater⟩ := ih h
      exact ⟨r :: before, offset, rest', rfl, (spells_nil_of_not_counts hcounts).append hbefore, hlater⟩

end Substance

/-! ### Written nodes -/

/-- What is written of an element: its start, its nodes in order and its end. -/
def MarkupTree.outcomes (tree : MarkupTree) : List (Except Xml.Fault Content) :=
  tree.readings.map (·.outcome)

/-- What is written of a run of nodes. -/
def MarkupNode.outcomes (nodes : List MarkupNode) : List (Except Xml.Fault Content) :=
  (MarkupNode.readingsOf nodes).map (·.outcome)

theorem MarkupTree.outcomes_eq (name : Name) (attributes : List Attribute)
    (children : List MarkupNode) : MarkupTree.outcomes ⟨name, attributes, children⟩ =
      .ok (.start name attributes) :: (MarkupNode.outcomes children ++ [.ok (.stop name)]) := by
  simp [outcomes, MarkupNode.outcomes, MarkupTree.readings]

namespace MarkupNode

theorem outcomes_text (piece : String) (nodes : List MarkupNode) :
    outcomes (.text piece :: nodes) = .ok (.text piece) :: outcomes nodes := rfl

theorem outcomes_element (name : Name) (attributes : List Attribute)
    (children nodes : List MarkupNode) :
    outcomes (.element ⟨name, attributes, children⟩ :: nodes) =
      .ok (.start name attributes) :: (outcomes children ++ .ok (.stop name) :: outcomes nodes) := by
  simp [outcomes, readingsOf, readings, MarkupTree.readings]

/-- Readings whose substance begins as nodes are written begin with a spelling of these. -/
theorem exists_spells_of_substance {later : List (Except Xml.Fault Content)} :
    ∀ {nodes : List MarkupNode} {readings : List Reading}, AllKept nodes →
      substance readings = outcomes nodes ++ later →
      ∃ told rest, readings = told ++ rest ∧ Spells told nodes ∧ substance rest = later
  | [], readings, _, h => ⟨[], readings, rfl, .nil, h⟩
  | .text piece :: nodes, readings, hkept, h => by
    rw [outcomes_text] at h
    obtain ⟨before, offset, behind, rfl, hbefore, hbehind⟩ := exists_of_substance_cons h
    obtain ⟨told, rest, rfl, htold, hrest⟩ := exists_spells_of_substance hkept.2 hbehind
    exact ⟨before ++ ⟨offset, .ok (.text piece)⟩ :: told, rest, by simp,
      hbefore.append (.text hkept.1 htold), hrest⟩
  | .element ⟨name, attributes, children⟩ :: nodes, readings, hkept, h => by
    rw [outcomes_element, List.cons_append, List.append_assoc] at h
    obtain ⟨before, offset, behind, rfl, hbefore, hbehind⟩ := exists_of_substance_cons h
    obtain ⟨inside, behind, rfl, hinside, hstop⟩ := exists_spells_of_substance hkept.1 hbehind
    obtain ⟨blank, offset', behind, rfl, hblank, hbehind⟩ := exists_of_substance_cons hstop
    obtain ⟨told, rest, rfl, htold, hrest⟩ := exists_spells_of_substance hkept.2 hbehind
    have hchildren : Spells (inside ++ blank) children := by simpa using hinside.append hblank
    exact ⟨before ++ (⟨offset, .ok (.start name attributes)⟩ :: (inside ++ blank) ++
      ⟨offset', .ok (.stop name)⟩ :: told), rest, by simp,
      hbefore.append (.element hchildren htold), hrest⟩

end MarkupNode

namespace Spells
variable {readings : List Reading} {nodes : List MarkupNode}

theorem of_substance (hkept : MarkupNode.AllKept nodes)
    (h : substance readings = MarkupNode.outcomes nodes) : Spells readings nodes := by
  rw [← List.append_nil (MarkupNode.outcomes nodes)] at h
  obtain ⟨told, rest, rfl, htold, hrest⟩ := MarkupNode.exists_spells_of_substance hkept h
  simpa using htold.append (spells_nil_of_substance hrest)

/-- No blank text is spelled. -/
theorem allKept (h : Spells readings nodes) : MarkupNode.AllKept nodes := by
  induction h with
  | nil => trivial
  | ignored _ ih | blank _ _ ih => exact ih
  | text hkept _ ih => exact ⟨hkept, ih⟩
  | element _ _ ihi ihr => exact ⟨ihi, ihr⟩

/-- What readings spell is written as their substance, if their ends have the names of the
starts. What is open before them is open behind them. -/
theorem substance_eq (h : Spells readings nodes) {opened : List Name} {rest : List Reading}
    (hends : EndsMatch opened (readings ++ rest)) :
    substance readings = MarkupNode.outcomes nodes ∧ EndsMatch opened rest := by
  induction h generalizing opened rest with
  | nil => exact ⟨rfl, hends⟩
  | ignored _ ih =>
    rw [substance_ignored]
    exact ih (endsMatch_ignored.1 hends)
  | blank hblank _ ih =>
    rw [substance_blank hblank]
    exact ih (endsMatch_text.1 hends)
  | text hkept _ ih =>
    obtain ⟨hsame, hrest⟩ := ih (endsMatch_text.1 hends)
    rw [substance_text hkept, MarkupNode.outcomes_text, hsame]
    exact ⟨rfl, hrest⟩
  | @element offset name attributes inside children offset' name' behind nodes _ _ ihi ihr =>
    have hinside : EndsMatch (name :: opened)
        (inside ++ ⟨offset', .ok (.stop name')⟩ :: (behind ++ rest)) := by
      simpa using endsMatch_start.1 hends
    obtain ⟨hchildren, hstop⟩ := ihi hinside
    obtain ⟨outer, hopened, hbehind⟩ := endsMatch_stop.1 hstop
    obtain ⟨rfl, rfl⟩ := List.cons.inj hopened
    obtain ⟨hnodes, hrest⟩ := ihr hbehind
    refine ⟨?_, hrest⟩
    rw [MarkupNode.outcomes_element, List.cons_append, substance_start, substance_append,
      substance_stop, hchildren, hnodes]

/-- The text of nodes is that of the runs which are not blank. -/
theorem joinText_eq (h : Spells readings nodes) :
    MarkupNode.joinText nodes = String.join (Text.kept (runsOf readings)) := by
  induction h with
  | nil => rfl
  | ignored _ ih => exact ih
  | blank hblank _ ih => rw [ih, runsOf_text, Text.kept_cons_of_blank hblank]
  | text hkept _ ih =>
    rw [MarkupNode.joinText, MarkupNode.allText, ih, runsOf_text, Text.kept_cons hkept,
      String.join_cons]
  | element _ _ ihi ihr =>
    rw [MarkupNode.joinText, MarkupNode.allText, MarkupTree.text, ihi, ihr, runsOf_element,
      Text.kept_append, String.join_append]

end Spells

/-! ### Capturing -/

namespace Cursor

/-- A cursor at the start of an element comes to an end behind it over these readings, the
start and the end among them. -/
inductive Passes (c : Cursor) : List Reading → Cursor → Prop where
  | intro {name attributes inside name' offset rest} : c.event = .startElement name attributes →
      c.readings = inside ++ ⟨offset, .ok (.stop name')⟩ :: rest →
      Passes c (⟨c.offset, .ok (.start name attributes)⟩ :: inside ++ [⟨offset, .ok (.stop name')⟩])
        (c.moved offset (.endElement name') rest)

variable {c c' : Cursor} {tree : MarkupTree} {segment : List Reading}

/-- An element is captured from any readings that write it. -/
theorem captureElement_of_substance (hkept : tree.Kept) (h : c.Passes segment c')
    (hsubstance : substance segment = tree.outcomes) :
    captureElement c = .ok tree c' ∧ c'.event = .endElement tree.name := by
  cases h with
  | @intro name attributes inside name' offset rest hstart hreadings =>
    obtain ⟨name₁, attributes₁, children⟩ := tree
    rw [List.cons_append, substance_start, substance_append, MarkupTree.outcomes_eq] at hsubstance
    obtain ⟨hfirst, hrest⟩ := List.cons.inj hsubstance
    obtain ⟨rfl, rfl⟩ := Content.start.inj (Except.ok.inj hfirst)
    obtain ⟨hinside, hlast⟩ := List.append_inj' hrest rfl
    obtain rfl := Content.stop.inj (Except.ok.inj (List.singleton_inj.1 hlast))
    have hspells : Spells inside children := .of_substance hkept hinside
    have hreach := reaches_stop_iff.2 ⟨offset, rest, hreadings, rfl⟩
    exact ⟨captureElement_eq_ok_iff.2 ⟨_, _, hstart, inside, children, _, hspells, rfl, hreach⟩, rfl⟩

/-- What is captured is written by the readings that it is captured from. -/
theorem substance_of_captureElement (h : captureElement c = .ok tree c') {opened : List Name}
    (hends : EndsMatch (tree.name :: opened) c.readings) :
    ∃ segment, c.Passes segment c' ∧ substance segment = tree.outcomes ∧ tree.Kept ∧
      tree.text = String.join (Text.kept (runsOf segment)) := by
  obtain ⟨name, attributes, hstart, inside, children, name', hspells, rfl, hreach⟩ :=
    captureElement_eq_ok_iff.1 h
  obtain ⟨offset, rest, hreadings, rfl⟩ := reaches_stop_iff.1 hreach
  rw [hreadings] at hends
  obtain ⟨hinside, hstop⟩ := hspells.substance_eq hends
  obtain ⟨outer, hopened, -⟩ := endsMatch_stop.1 hstop
  obtain ⟨rfl, -⟩ := List.cons.inj hopened
  refine ⟨_, .intro hstart hreadings, ?_, hspells.allKept, ?_⟩
  · rw [List.cons_append, substance_start, substance_append, hinside, MarkupTree.outcomes_eq]
    rfl
  · rw [MarkupTree.text, hspells.joinText_eq, runsOf_element]
    simp [runsOf]

/-- An element without blank text is captured from any readings that write it, with blank text
and what is ignored between them. And whatever is captured from readings in which the ends have
the names of the starts is written by them: nothing is lost but blank text, and the text of the
element is all the other text, in order. In a document the ends always have these names, as far
as there is no fault. -/
theorem captureElement_lossless :
    (∀ (tree : MarkupTree) (c c' : Cursor) (segment : List Reading), tree.Kept →
      c.Passes segment c' → substance segment = tree.outcomes →
      captureElement c = .ok tree c' ∧ c'.event = .endElement tree.name) ∧
    (∀ (tree : MarkupTree) (c c' : Cursor) (opened : List Name), captureElement c = .ok tree c' →
      EndsMatch (tree.name :: opened) c.readings →
      ∃ segment, c.Passes segment c' ∧ substance segment = tree.outcomes ∧ tree.Kept ∧
        tree.text = String.join (Text.kept (runsOf segment))) ∧
    ∀ (bytes : List UInt8) (before : List Reading) (offset : Nat) (name : Name)
      (attributes : List Attribute) (rest : List Reading),
      Xml.readings bytes = before ++ ⟨offset, .ok (.start name attributes)⟩ :: rest →
      (∀ r ∈ before, ∃ content, r.outcome = .ok content) →
      ∃ opened, EndsMatch (name :: opened) rest := by
  refine ⟨fun tree c c' segment => captureElement_of_substance,
    fun tree c c' opened h => substance_of_captureElement h, ?_⟩
  intro bytes before offset name attributes rest hreadings hbefore
  have hall := Xml.endsMatch_readings bytes
  rw [hreadings] at hall
  obtain ⟨opened, hopened⟩ := hall.behind hbefore
  exact ⟨opened, endsMatch_start.1 hopened⟩

/-- A note with an emphasis in it, between blank lines and a comment. -/
theorem captureElement_lossless_note :
    let note := Name.unqualified "note"
    let mark := Name.unqualified "em"
    let attributes : List Attribute := [⟨.unqualified "lang", "en"⟩]
    let tree : MarkupTree := ⟨note, attributes,
      [.text "keep ", .element ⟨mark, [], [.text " left "]⟩, .element ⟨mark, [], []⟩, .text "!"]⟩
    let inside : List Reading := [⟨20, .ok (.text "\n")⟩, ⟨29, .ok .ignored⟩,
      ⟨34, .ok (.text "keep ")⟩, ⟨38, .ok (.start mark [])⟩, ⟨44, .ok (.text " left ")⟩,
      ⟨49, .ok (.stop mark)⟩, ⟨50, .ok (.text " ")⟩, ⟨54, .ok (.start mark [])⟩,
      ⟨54, .ok (.stop mark)⟩, ⟨55, .ok (.text "!")⟩]
    let behind : List Reading := [⟨62, .ok (.stop note)⟩]
    let c := (Cursor.ofReadings []).moved 19 (.startElement note attributes) (inside ++ behind)
    tree.Kept ∧ captureElement c = .ok tree (c.moved 62 (.endElement note) []) ∧
      tree.text = "keep  left !" ∧ ∃ segment, c.Passes segment (c.moved 62 (.endElement note) []) ∧
        substance segment = tree.outcomes := by
  intro note mark attributes tree inside behind c
  obtain ⟨hcapture, hsubstance, -⟩ := captureElement_lossless
  have hkeep : Text.allBlank "keep " = false := by decide
  have hleft : Text.allBlank " left " = false := by decide
  have hmark : Text.allBlank "!" = false := by decide
  have hkept : tree.Kept := ⟨hkeep, ⟨hleft, trivial⟩, trivial, hmark, trivial⟩
  have hpasses : c.Passes _ (c.moved 62 (.endElement note) []) := .intro rfl rfl
  obtain ⟨hread, -⟩ := hcapture tree c _ _ hkept hpasses (by decide +kernel)
  have hends : EndsMatch [note] c.readings := by
    show EndsMatch [note] (inside ++ behind)
    simp [inside, behind]
  obtain ⟨segment, hsegment, hsame, -, htext⟩ := hsubstance tree c _ [] hread hends
  exact ⟨hkept, hread, by decide +kernel, segment, hsegment, hsame⟩

end Cursor

end FeatureMarkup

import FeatureMarkup.Proofs.Cursor.Element
import FeatureMarkup.Proofs.Text.Runs
import FeatureMarkup.Reader.Value

/-! Text that is captured, and the same text read as text.

Of an element with nothing but text both can be had, and both come to its end. What is read is
all of its runs joined and trimmed; what is captured leaves out the runs that are blank. So
they may differ in blank characters inside, and `captured_of_elementText` says when they do. -/
namespace FeatureMarkup

open Xml (Attribute Content Reading)

/-! ### Runs of text -/

/-- The text that a reading is, if it is one. -/
def Xml.Reading.text? (r : Reading) : Option String :=
  match r.outcome with
  | .ok (.text text) => some text
  | _ => none

/-- The runs of text that readings tell of. -/
def runsOf (readings : List Reading) : List String := readings.filterMap Reading.text?

theorem runsOf_text {offset : Nat} {text : String} {rest : List Reading} :
    runsOf (⟨offset, .ok (.text text)⟩ :: rest) = text :: runsOf rest := rfl

namespace SpellsText
variable {readings : List Reading} {text : String}

theorem eq_join (h : SpellsText readings text) : text = String.join (runsOf readings) := by
  induction h with
  | nil => simp [runsOf]
  | ignored _ ih => exact ih
  | text _ ih =>
    rw [ih]
    exact String.join_cons.symm

/-- Readings of nothing but text spell the runs that are not blank. -/
theorem spells_kept (h : SpellsText readings text) :
    Spells readings ((Text.kept (runsOf readings)).map .text) := by
  induction h with
  | nil => exact .nil
  | ignored _ ih => exact ih.ignored
  | @text offset piece rest _ _ ih =>
    rw [runsOf_text]
    cases hblank : Text.allBlank piece with
    | true =>
      rw [Text.kept_cons_of_blank hblank]
      exact ih.blank hblank
    | false =>
      rw [Text.kept_cons hblank]
      exact ih.text hblank

end SpellsText

theorem MarkupNode.joinText_texts (runs : List String) :
    joinText (runs.map .text) = String.join runs := by
  induction runs with
  | nil => simp [joinText]
  | cons run runs ih => simp [joinText, allText, ih]

/-! ### Capturing what can be read as text -/

section Session
variable {κ : Type} {r : FeatureReader κ} {inline : SessionM κ (Feature κ)} {d : Declaration}
  {attributes : List Attribute} {ownerId : String} {occurrence : Nat} {srs : Option String}
  {s : Session κ} {c : Cursor}

theorem readByCategory_simple {text : String} (hd : d.category = .simple)
    (h : Cursor.elementText s.cursor = .ok text c) :
    r.readByCategory inline d attributes ownerId occurrence srs s =
      .ok (.text text) { s with cursor := c } := by
  unfold FeatureReader.readByCategory
  rw [hd]
  exact bind_eq_ok.2 ⟨text, _, Session.lift_eq_ok.2 ⟨c, h, rfl⟩, rfl⟩

theorem readByCategory_complex {tree : MarkupTree} (hd : d.category = .complex)
    (h : Cursor.captureElement s.cursor = .ok tree c) :
    r.readByCategory inline d attributes ownerId occurrence srs s =
      .ok (.tree tree) { s with cursor := c } := by
  unfold FeatureReader.readByCategory
  rw [hd]
  exact bind_eq_ok.2 ⟨tree, _, Session.lift_eq_ok.2 ⟨c, h, rfl⟩, rfl⟩

end Session

/-- An element whose text can be read can be captured as well, to the same end. What is
captured are its runs that are not blank; trimmed, they are the text that is read exactly when
no blank is left out between two of them, and the other characters are always the same. A
property is read so, too, when it is declared as text or as markup. -/
theorem captured_of_elementText {c c' : Cursor} {text : String}
    (h : Cursor.elementText c = .ok text c') :
    ∃ inside stop tree, SpellsText inside (String.join (runsOf inside)) ∧
      c.Reaches inside (.stop stop) c' ∧ Cursor.captureElement c = .ok tree c' ∧
      tree.children = (Text.kept (runsOf inside)).map .text ∧
      (Text.trim tree.text = text ↔ Text.Seamless (runsOf inside)) ∧
      Text.inked tree.text.toList = Text.inked text.toList ∧
      ∀ {κ : Type} (r : FeatureReader κ) (inline : SessionM κ (Feature κ)) (d d' : Declaration)
        (attributes : List Attribute) (ownerId : String) (occurrence : Nat) (srs : Option String)
        (s : Session κ), s.cursor = c → d.category = .simple → d'.category = .complex →
        r.readByCategory inline d attributes ownerId occurrence srs s =
            .ok (.text text) { s with cursor := c' } ∧
          r.readByCategory inline d' attributes ownerId occurrence srs s =
            .ok (.tree tree) { s with cursor := c' } := by
  obtain ⟨⟨name, attributes, hstart⟩, inside, _, stop, hspells, htext, hreach⟩ :=
    Cursor.elementText_eq_ok_iff.1 h
  obtain rfl := hspells.eq_join
  have hcapture : Cursor.captureElement c =
      .ok ⟨name, attributes, (Text.kept (runsOf inside)).map .text⟩ c' :=
    Cursor.captureElement_eq_ok_iff.2
      ⟨name, attributes, hstart, inside, _, stop, hspells.spells_kept, rfl, hreach⟩
  have htree : MarkupTree.text ⟨name, attributes, (Text.kept (runsOf inside)).map .text⟩ =
      String.join (Text.kept (runsOf inside)) := MarkupNode.joinText_texts _
  refine ⟨inside, stop, _, hspells, hreach, hcapture, rfl, ?_, ?_, ?_⟩
  · rw [htree, htext]
    exact Text.trim_join_kept_iff
  · have hread : text.toList = Text.trimChars (Text.joined (runsOf inside)) := by
      rw [htext, Text.trim, String.toList_ofList]
      rfl
    rw [htree, hread, Text.inked_trimChars]
    exact Text.inked_joined_kept
  · rintro κ r inline d d' attributes' ownerId occurrence srs s rfl hd hd'
    exact ⟨readByCategory_simple hd h, readByCategory_complex hd' hcapture⟩

/-- A road's name in two runs with a comment between them. -/
theorem captured_of_elementText_road :
    let road := Name.unqualified "name"
    let inside : List Reading := [⟨7, .ok (.text " A")⟩, ⟨15, .ok .ignored⟩, ⟨16, .ok (.text "B")⟩]
    let c := (Cursor.ofReadings []).moved 6 (.startElement road [])
      (inside ++ [⟨23, .ok (.stop road)⟩])
    ∃ c' tree, Cursor.elementText c = .ok "AB" c' ∧ Cursor.captureElement c = .ok tree c' ∧
      Text.inked tree.text.toList = Text.inked "AB".toList := by
  intro road inside c
  have htext : Cursor.elementText c = .ok "AB" (c.moved 23 (.endElement road) []) := rfl
  obtain ⟨_, _, tree, -, -, hcapture, -, -, hinked, -⟩ := captured_of_elementText htext
  exact ⟨_, tree, htext, hcapture, hinked⟩

/-- A blank between two runs that is a run by itself is read, but not captured. -/
theorem captured_without_blank_road :
    let road := Name.unqualified "name"
    let c := (Cursor.ofReadings []).moved 6 (.startElement road [])
      [⟨7, .ok (.text "A")⟩, ⟨20, .ok (.text " ")⟩, ⟨21, .ok (.text "B")⟩, ⟨28, .ok (.stop road)⟩]
    ∃ c' tree, Cursor.elementText c = .ok "A B" c' ∧ Cursor.captureElement c = .ok tree c' ∧
      tree.text = "AB" ∧ Text.trim tree.text ≠ "A B" :=
  ⟨_, ⟨_, _, [.text "A", .text "B"]⟩, rfl, rfl, rfl, by decide⟩

end FeatureMarkup

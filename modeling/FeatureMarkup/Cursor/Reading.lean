import FeatureMarkup.Cursor.Basic
import FeatureMarkup.Text.Blank
import FeatureMarkup.Number.Decimal

/-! What is read by moving a cursor: tags, the text of an element, a whole element
skipped.

Each loop is allowed as many rounds as there are readings left, and one for the end
of the document. Every round but the last takes a reading, so no loop is cut short. -/
namespace FeatureMarkup

open Xml (Attribute)

/-- What stands between texts: the start or the end of an element, or the end of the
document. -/
inductive Tag where
  | start (name : Name) (attributes : List Attribute)
  | stop (name : Name)
  | finish
deriving DecidableEq, Repr

namespace Cursor

/-! ### Tags -/

/-- Moves to the next tag, over blank text only, in so many rounds at most. -/
def nextTagWithin : Nat → CursorM Tag
  | 0 => return .finish
  | rounds + 1 => do
    match ← advance with
    | .startElement name attributes => return .start name attributes
    | .endElement name => return .stop name
    | .endDocument => return .finish
    | .startDocument => nextTagWithin rounds
    | .characters text =>
      if Text.allBlank text then nextTagWithin rounds
      else failMarkup (.strayText (Text.trim text))

/-- Moves to the next tag, over blank text only. -/
def nextTag : CursorM Tag := do
  nextTagWithin ((← get).remaining + 1)

/-! ### Text -/

/-- Joins the texts up to the end of the element, in so many rounds at most. -/
def textWithin : Nat → String → CursorM String
  | 0, _ => failMarkup .endOfDocument
  | rounds + 1, text => do
    match ← advance with
    | .characters more => textWithin rounds (text ++ more)
    | .endElement _ => return Text.trim text
    | .startElement _ _ => failMarkup .childInText
    | .endDocument | .startDocument => failMarkup .endOfDocument

/-- The text of the element the cursor is at the start of, trimmed as a whole, for
an element with nothing but text. The cursor comes to its end. -/
def elementText : CursorM String := do
  match (← get).event with
  | .startElement _ _ => textWithin ((← get).remaining + 1) ""
  | _ => failMarkup .textOutsideElement

/-- The number that the text of an element writes. -/
def elementNumber : CursorM Float := do
  let text ← elementText
  match Number.parse? text with
  | some number => return number
  | none => fail (.malformedNumber text)

/-! ### Skipping -/

/-- Moves to the end of the innermost of so many open elements and out of all of
them, in so many rounds at most. -/
def skipWithin : Nat → Nat → CursorM Unit
  | _, 0 => return
  | 0, _ => failMarkup .endOfDocument
  | rounds + 1, depth + 1 => do
    match ← advance with
    | .startElement _ _ => skipWithin rounds (depth + 2)
    | .endElement _ => skipWithin rounds depth
    | .endDocument => failMarkup .endOfDocument
    | .characters _ | .startDocument => skipWithin rounds (depth + 1)

/-- Moves to the end of the element the cursor is at the start of. -/
def skipElement : CursorM Unit := do
  match (← get).event with
  | .startElement _ _ => skipWithin ((← get).remaining + 1) 1
  | _ => failMarkup .skipOutsideElement

end Cursor

/-! ### Children -/

/-- Folds over the elements that start one after another, in so many rounds at most:
`next` moves to a tag, and `body` reads an element that starts there. Ends at the
first tag that starts none, and says which. -/
def foldTags {τ σ : Type} (next : EStateM ReadError τ Tag)
    (body : Name → List Attribute → σ → EStateM ReadError τ σ) :
    Nat → σ → EStateM ReadError τ (Tag × σ)
  | 0, s => return (.finish, s)
  | rounds + 1, s => do
    match ← next with
    | .start name attributes => foldTags next body rounds (← body name attributes s)
    | tag => return (tag, s)

/-- Folds over the children of an element, `body` reading each to its end. -/
def Cursor.foldChildren {σ : Type} (body : Name → List Attribute → σ → CursorM σ) (s : σ) :
    CursorM (Tag × σ) := do
  foldTags nextTag body ((← get).remaining + 1) s

end FeatureMarkup

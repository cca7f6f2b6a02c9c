import FeatureMarkup.Error
import FeatureMarkup.Log
import FeatureMarkup.Xml.Reading

/-! A cursor that moves forward through the readings of a document.

The cursor stands on one event. `advance` takes readings up to the next event, past
those that are no event, and fails at a faulty one; it may go on from there. Behind
the last reading is the end of the document, and it stays there. A position tells
how far the cursor has read and the last element it met. -/
namespace FeatureMarkup

open Xml (Attribute Reading)

/-- What a cursor stands on. -/
inductive Event where
  | startDocument
  | startElement (name : Name) (attributes : List Attribute)
  | endElement (name : Name)
  | characters (text : String)
  | endDocument
deriving DecidableEq, Repr

namespace Event

/-- The name of the element that starts or ends here. -/
def name? : Event → Option Name
  | .startElement name _ | .endElement name => some name
  | _ => none

/-- The attributes of the element that starts here. -/
def attributes : Event → List Attribute
  | .startElement _ attributes => attributes
  | _ => []

/-- The text that stands here. -/
def text : Event → String
  | .characters text => text
  | _ => ""

/-- The event without its attributes and its text. -/
def bare : Event → Event
  | .startElement name _ => .startElement name []
  | .characters _ => .characters ""
  | event => event

end Event

/-- A cursor. -/
structure Cursor where
  /-- What has not been read yet. -/
  readings : List Reading
  /-- How many readings that are. -/
  remaining : Nat
  remaining_eq : remaining = readings.length
  /-- How many octets have been read. -/
  offset : Nat
  event : Event
  /-- The last element met, started or ended. -/
  element : Option Name
  /-- What has been reported so far. -/
  log : Array Note

/-- Reading that moves a cursor. On an error the cursor stays where it came to. -/
abbrev CursorM := EStateM ReadError Cursor

namespace Cursor

/-- The cursor before the first of the readings. -/
def ofReadings (readings : List Reading) : Cursor :=
  { readings, remaining := readings.length, remaining_eq := rfl
    offset := 0, event := .startDocument, element := none, log := #[] }

/-- The cursor at the beginning of a document. -/
def ofBytes (bytes : List UInt8) : Cursor :=
  .ofReadings (Xml.readings bytes)

/-- Where the cursor is. -/
def position (c : Cursor) : Position := ⟨c.offset, c.element⟩

/-- An attribute of the element the cursor is at the start of. -/
def attribute? (c : Cursor) (space : Option String) (localPart : String) : Option String :=
  Attribute.find? c.event.attributes space localPart

/-- The cursor after the next event among so many readings. A reading that is no event
takes the attributes and the text of the present one with it. -/
def advanceOver (c : Cursor) : (readings : List Reading) → (count : Nat) →
    count = readings.length → EStateM.Result ReadError Cursor Event
  | [], _, _ =>
    .ok .endDocument
      { c with readings := [], remaining := 0, remaining_eq := rfl, event := .endDocument, element := none }
  | ⟨offset, outcome⟩ :: rest, count, h =>
    have fewer : count - 1 = rest.length := by simp [h]
    let c := { c with readings := rest, remaining := count - 1, remaining_eq := fewer, offset }
    match outcome with
    | .error fault => .error (.located (.markup (.fault fault)) c.position) c
    | .ok .ignored => advanceOver { c with event := c.event.bare } rest (count - 1) fewer
    | .ok (.start name attributes) =>
      let event := .startElement name attributes
      .ok event { c with event, element := some name }
    | .ok (.stop name) =>
      let event := .endElement name
      .ok event { c with event, element := some name }
    | .ok (.text text) =>
      let event := .characters text
      .ok event { c with event }

/-- Moves to the next event. -/
def advance : CursorM Event := fun c =>
  match c.event with
  | .endDocument => .ok .endDocument c
  | _ => c.advanceOver c.readings c.remaining c.remaining_eq

/-- Fails where the cursor is. -/
def fail (cause : Cause) : CursorM α := do
  throw (.located cause (← get).position)

/-- Fails for the markup where the cursor is. -/
def failMarkup (problem : MarkupProblem) : CursorM α :=
  fail (.markup problem)

/-- Reports several things. -/
def notes (entries : List Note) : CursorM Unit :=
  modify fun c => { c with log := c.log ++ entries }

/-- Reports something. -/
def note (level : Level) (text : String) : CursorM Unit :=
  notes [⟨level, text⟩]

end Cursor

end FeatureMarkup

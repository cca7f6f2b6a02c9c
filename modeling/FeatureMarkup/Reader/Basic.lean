import FeatureMarkup.Geometry.Reader
import FeatureMarkup.Reference.Registry
import FeatureMarkup.Schema.Progress

/-! Readers of features: what they are made of, and the state they work on.

A reader has a schema, a reader of geometries, and readers of its user's own for some
properties of some feature types. While a document is read there is a cursor and a
registry; both stay as they are when reading fails. -/
namespace FeatureMarkup

/-- A reader for one property of one feature type, called with the cursor at the
start of the property's element and to leave it at its end. -/
structure CustomReader (κ : Type) where
  type : Name
  property : Name
  read : CursorM κ

/-- What reads features. -/
structure FeatureReader (κ : Type) where
  schema : Schema
  geometry : GeometryReader
  custom : List (CustomReader κ)
  /-- Whether the declarations that no element has come to are held to their least
  number of occurrences at the end of a feature. Those passed over always are. -/
  checkRest : Bool

/-- The cursor and the registry of a document that is being read. -/
structure Session (κ : Type) where
  cursor : Cursor
  registry : Registry κ

/-- Reading that moves the cursor and adds to the registry. -/
abbrev SessionM (κ : Type) := EStateM ReadError (Session κ)

variable {κ : Type}

/-- The text that stands for the value of a custom reader, which is not shown. -/
def customText : String := "CustomValue(..)"

namespace FeatureReader

/-- The reader of a schema, with nothing else set. -/
def ofSchema (schema : Schema) : FeatureReader κ :=
  { schema, geometry := .standard, custom := [], checkRest := false }

/-- The custom reader for a property. -/
def custom? (r : FeatureReader κ) (type property : Name) : Option (CustomReader κ) :=
  r.custom.find? fun c => c.type = type && c.property = property

/-- The reader with one custom reader more, in place of one for the same property. -/
def addCustom (r : FeatureReader κ) (c : CustomReader κ) : FeatureReader κ :=
  { r with custom := r.custom.filter (fun d => !(d.type = c.type && d.property = c.property)) ++ [c] }

/-- The reader's settings as text. -/
def display (r : FeatureReader κ) : String :=
  s!"GmlFeatureParser \x7b custom_parsers: {r.custom.length}, config: ParserConfig \x7b check_trailing_min_occurs: {r.checkRest} \x7d, .. \x7d"

end FeatureReader

namespace Session

/-- The session at a cursor, with nothing registered. -/
def ofCursor (cursor : Cursor) : Session κ := ⟨cursor, .empty⟩

/-- Moves the cursor of a session. -/
def onCursor (move : CursorM α) : SessionM κ α := fun s =>
  match move s.cursor with
  | .ok a cursor => .ok a { s with cursor }
  | .error e cursor => .error e { s with cursor }

instance : MonadLift CursorM (SessionM κ) := ⟨onCursor⟩

/-- Where the cursor is. -/
def position : SessionM κ Position := return (← get).cursor.position

/-- Reports several things. -/
def notes (entries : List Note) : SessionM κ Unit :=
  Cursor.notes entries

/-- Reports something. -/
def note (level : Level) (text : String) : SessionM κ Unit :=
  Cursor.note level text

/-- Fails where the cursor is. -/
def fail (cause : Cause) : SessionM κ α :=
  Cursor.fail cause

/-- Registers a feature. -/
def register (f : Feature κ) : SessionM κ Unit := do
  match (← get).registry.register f with
  | .ok registry =>
    modify fun s => { s with registry }
    notes (Registry.registrationNotes f)
  | .error duplicate => fail (.duplicateFeatureId duplicate.id)

/-- Makes a link for a reference. -/
def refer (ownerId : String) (property : Name) (occurrence : Nat) (targetId : String) :
    SessionM κ Nat := do
  let (number, registry) := (← get).registry.refer ownerId property occurrence targetId
  modify fun s => { s with registry }
  return number

/-- Resolves what can be resolved, and reports the references that dangle. -/
def settle : SessionM κ (List DanglingReference) := do
  let (registry, dangling) := (← get).registry.settle
  modify fun s => { s with registry }
  notes (dangling.map DanglingReference.note)
  return dangling

end Session

/-- Wraps an error in the value of a property. -/
def inProperty (property : Name) (position : Position) (read : EStateM ReadError τ α) :
    EStateM ReadError τ α := fun s =>
  match read s with
  | .ok a s => .ok a s
  | .error e s => .error (.inProperty property position e) s

end FeatureMarkup

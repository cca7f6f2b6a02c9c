import FeatureMarkup.Reader.Basic

/-! Reading the value of a property.

The declaration's category says what the value is. A custom reader comes first, where
there is one. A feature comes inline or as a reference within the document; how an
inline feature is read is handed in. Every value is read to the end of the property's
element. -/
namespace FeatureMarkup

open Xml (Attribute)

variable {κ : Type}

/-! ### Geometries -/

/-- Reads the single element inside a property with `read`. An error of `read` is
wrapped with the property. -/
def Cursor.readWithin (property : Name) (read : CursorM α) : CursorM α := do
  match ← nextTag with
  | .start _ _ =>
    let value ← inProperty property (← get).position read
    match ← nextTag with
    | .stop _ => return value
    | _ => fail (.content (.moreThanOneElement property))
  | _ => fail (.content (.noValueElement property))

/-! ### Features -/

/-- The id that a link within the document refers to. -/
def localTarget? (href : String) : Option String :=
  match href.toList with
  | '#' :: id => some (String.ofList id)
  | _ => none

/-- Moves to the end of the property over elements that have no place there. -/
def Cursor.skipToEnd (property : Name) : CursorM Unit := do
  let (tag, _) ← foldChildren (fun name _ _ => do
    note .warning s!"Ignoring trailing element '{name}' in property '{property}'"
    skipElement) ()
  match tag with
  | .stop _ => return
  | _ => failMarkup .endOfDocument

namespace FeatureReader

/-- Reads a reference to a feature. -/
def readReference (d : Declaration) (ownerId : String) (occurrence : Nat) (href : String) :
    SessionM κ (Value κ) := do
  match localTarget? href with
  | none => Session.fail (.externalReference href)
  | some targetId =>
    Cursor.skipElement
    Session.note .debug s!"Reference {d.name} -> #{targetId}"
    return .link (← Session.refer ownerId d.name occurrence targetId)

/-- Moves to the inline feature of a property and makes sure that it is of a known
type that may stand there. -/
def enterFeature (r : FeatureReader κ) (property : Name) (expected : Option Name) :
    CursorM Unit := do
  let outside := (← get).position
  match ← Cursor.nextTag with
  | .start found _ =>
    if (r.schema.featureType? found).isNone then
      Cursor.fail (.unknownFeatureType found)
    match expected with
    | none => return
    | some expected =>
      if !r.schema.derives expected found then
        Cursor.fail (.wrongFeatureType property (some expected) (some found))
  | _ => throw (.located (.wrongFeatureType property expected none) outside)

/-- Reads a feature or a reference to one. -/
def readFeatureValue (r : FeatureReader κ) (inline : SessionM κ (Feature κ)) (d : Declaration)
    (expected : Option Name) (attributes : List Attribute) (ownerId : String) (occurrence : Nat) :
    SessionM κ (Value κ) := do
  match Attribute.find? attributes (some Space.xlink) "href" with
  | some href => readReference d ownerId occurrence href
  | none =>
    r.enterFeature d.name expected
    let feature ← inline
    Cursor.skipToEnd d.name
    return .feature feature

/-! ### Values -/

/-- Reads the value of a property, by the category of its declaration. -/
def readByCategory (r : FeatureReader κ) (inline : SessionM κ (Feature κ)) (d : Declaration)
    (attributes : List Attribute) (ownerId : String) (occurrence : Nat) (srs : Option String) :
    SessionM κ (Value κ) := do
  match d.category with
  | .simple => return .text (← Cursor.elementText)
  | .code =>
    return .code ⟨← Cursor.elementText, Attribute.find? attributes none "codeSpace"⟩
  | .measure =>
    let value ← inProperty d.name (← Session.position) Cursor.elementNumber
    return .measure ⟨value, Attribute.find? attributes none "uom"⟩
  | .geometry => return .geometry (← Cursor.readWithin d.name (r.geometry.geometry srs))
  | .envelope => return .envelope (← Cursor.readWithin d.name (r.geometry.envelope srs))
  | .complex => return .tree (← Cursor.captureElement)
  | .feature expected => r.readFeatureValue inline d expected attributes ownerId occurrence

/-- Reads the value of a property of a feature type. -/
def readValue (r : FeatureReader κ) (inline : SessionM κ (Feature κ)) (type : FeatureType)
    (d : Declaration) (attributes : List Attribute) (ownerId : String) (occurrence : Nat)
    (srs : Option String) : SessionM κ (Value κ) := do
  match r.custom? type.name d.name with
  | some custom =>
    Session.note .trace s!"Custom parser for {d.name} of {type.name}"
    return .custom (← inProperty d.name (← Session.position) custom.read)
  | none => r.readByCategory inline d attributes ownerId occurrence srs

end FeatureReader

end FeatureMarkup

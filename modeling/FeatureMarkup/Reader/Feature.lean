import FeatureMarkup.Reader.Value

/-! Reading a feature, and a document of one feature.

A feature's element gives its type and its id; its children are its properties, each
held against the declarations of the type in order. Once its last property is read
the feature owns its links and is registered. A document is one feature and what is
inside it; behind its last element the links that still wait are settled. -/
namespace FeatureMarkup

open Xml (Attribute)

variable {κ : Type}

/-- The id that a feature's attributes give it: in the newer namespace, in the older
one, or as the unqualified `fid`; empty if they give none. -/
def featureId (attributes : List Attribute) : String :=
  (Attribute.find? attributes (some Space.gml32) "id" <|>
    Attribute.find? attributes (some Space.gml) "id" <|>
    Attribute.find? attributes none "fid").getD ""

/-- A violation of the order or number of properties as a cause, met at an element. -/
def Violation.cause (v : Violation) (element : Name) (type : FeatureType) : Cause :=
  match v with
  | .unexpected => .unexpectedProperty element type.name
  | .under d found => .tooFewOccurrences d.name type.name d.minOccurs found
  | .over d => .tooManyOccurrences d.name type.name d.maxOccurs

/-- The properties of a feature read so far, the latest first, and how far they have
come through the declarations. -/
structure Partway (κ : Type) where
  progress : Progress
  properties : List (Property κ)

namespace FeatureReader

/-- The type of the feature whose element the cursor is at the start of, and its id. -/
def beginFeature (r : FeatureReader κ) : CursorM (FeatureType × String) := do
  match (← get).event with
  | .startElement name attributes =>
    let id := featureId attributes
    if !isFeatureId id then
      Cursor.fail (.invalidFeatureId id)
    match r.schema.featureType? name with
    | none => Cursor.fail (.unknownFeatureType name)
    | some type =>
      if type.isAbstract then
        Cursor.fail (.abstractFeatureType name)
      Cursor.note .debug s!"Begin feature {name} '{id}' at {(← get).position}"
      return (type, id)
  | _ => Cursor.failMarkup .noFeatureElement

/-- Finds the declaration that a property's element counts for. -/
def acceptProperty (r : FeatureReader κ) (type : FeatureType) (progress : Progress)
    (element : Name) : CursorM (Declaration × Progress) := do
  let (outcome, after) := r.schema.accept type.properties progress element
  Cursor.notes (r.schema.acceptNotes type.properties progress after element)
  match outcome with
  | .ok d => return (d, after)
  | .error violation => Cursor.fail (violation.cause element type)

/-- Reads one property of a feature. -/
def readProperty (r : FeatureReader κ) (inline : SessionM κ (Feature κ)) (srs : Option String)
    (type : FeatureType) (id : String) (element : Name) (attributes : List Attribute)
    (s : Partway κ) : SessionM κ (Partway κ) := do
  let (d, progress) ← r.acceptProperty type s.progress element
  let occurrence := progress.count.toNat - 1
  Session.note .debug s!"Property {element} (declared as {d.name}, occurrence {occurrence})"
  let value ← r.readValue inline type d attributes id occurrence srs
  return ⟨progress, ⟨d, element, value⟩ :: s.properties⟩

/-- Makes the feature of the properties read and registers it. -/
def endFeature (r : FeatureReader κ) (type : FeatureType) (id : String) (s : Partway κ) :
    SessionM κ (Feature κ) := do
  match s.progress.finish type.properties r.checkRest with
  | .ok () =>
    let feature : Feature κ := ⟨id, type, s.properties.reverse⟩
    modify fun s => { s with registry := s.registry.bindLinks feature }
    Session.register feature
    Session.note .debug s!"End feature {type.name} '{id}' at {← Session.position}"
    return feature
  | .error violation => Session.fail (violation.cause type.name type)

/-- Reads the feature the cursor is at the start of, features being nested so deep at
most. -/
def featureWithin (r : FeatureReader κ) (srs : Option String) : Nat → SessionM κ (Feature κ)
  | 0 => Cursor.failMarkup .endOfDocument
  | depth + 1 => do
    let (type, id) ← r.beginFeature
    let (tag, partway) ←
      foldTags Cursor.nextTag (r.readProperty (r.featureWithin srs depth) srs type id)
        ((← get).cursor.remaining + 1) ⟨.initial, []⟩
    match tag with
    | .stop _ => r.endFeature type id partway
    | _ => Cursor.failMarkup (.endInsideFeature type.name)

/-- Reads the feature the cursor is at the start of, with a reference system for
geometries that name none. The cursor comes to its end. Every level of nesting takes
a reading, so there are no more of them than readings. -/
def readFeature (r : FeatureReader κ) (srs : Option String) : SessionM κ (Feature κ) := do
  r.featureWithin srs ((← get).cursor.remaining + 1)

end FeatureReader

/-! ### Documents -/

/-- A document that has been read: its outermost feature, the features in it that
have ids, and the references that dangle. -/
structure Document (κ : Type) where
  root : Feature κ
  registry : Registry κ
  dangling : List DanglingReference

namespace Document

/-- The feature with an id, however deep inside the document. -/
def feature? (d : Document κ) (id : String) : Option (Feature κ) :=
  d.registry.feature? id

/-- The document, if no reference in it dangles. -/
def resolved (d : Document κ) : Except ReadError (Document κ) :=
  if d.dangling.isEmpty then .ok d else .error (.dangling d.dangling)

end Document

namespace FeatureReader

/-- Reads a document from the cursor on: its outermost element is a feature. -/
def readDocument (r : FeatureReader κ) (srs : Option String) : SessionM κ (Document κ) := do
  match ← Cursor.nextTag with
  | .start _ _ =>
    let root ← r.readFeature srs
    let dangling ← Session.settle
    return { root, registry := (← get).registry, dangling }
  | _ => Cursor.failMarkup .noRoot

/-- Reads a document, and what there was to report. -/
def parseLogged (r : FeatureReader κ) (srs : Option String) (bytes : List UInt8) :
    Except ReadError (Document κ) × List Note :=
  match r.readDocument srs (.ofCursor (.ofBytes bytes)) with
  | .ok document s => (.ok document, s.cursor.log.toList)
  | .error e s => (.error e, s.cursor.log.toList)

/-- Reads a document. -/
def parse (r : FeatureReader κ) (srs : Option String) (bytes : List UInt8) :
    Except ReadError (Document κ) :=
  (r.parseLogged srs bytes).1

end FeatureReader

end FeatureMarkup

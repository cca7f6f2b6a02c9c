import FeatureMarkup.Schema.Basic
import FeatureMarkup.Xml.Fault

/-! Why a document cannot be read as features.

A problem is found at a position of the document and has a cause; a cause that lies
in the value of a property is wrapped with that property, and `rootCause` looks
through the wrappers. Causes that one who extends the reader may give in words of
their own have a constructor `described` for them. -/
namespace FeatureMarkup

/-- A place in a document: octets read, and the last element met. -/
structure Position where
  offset : Nat
  element : Option Name
deriving DecidableEq, Repr

namespace Position

/-- The beginning of a document. -/
def start : Position := ⟨0, none⟩

/-- The position in words. -/
def display (p : Position) : String :=
  match p.element with
  | some element => s!"byte {p.offset} (element '{element}')"
  | none => s!"byte {p.offset}"

instance : ToString Position := ⟨display⟩

end Position

/-- A reference whose target is no feature of the document. -/
structure DanglingReference where
  targetId : String
  /-- The feature that holds it, empty for one without an id. -/
  ownerId : String
  /-- The declaration it was found under. -/
  property : Name
  /-- How many occurrences of that declaration came before it. -/
  occurrence : Nat
deriving DecidableEq, Repr

/-! ### Causes -/

/-- What is wrong with a document as markup. -/
inductive MarkupProblem where
  | fault (fault : Xml.Fault)
  /-- Text where only elements may stand, trimmed. -/
  | strayText (text : String)
  | textOutsideElement
  | childInText
  | skipOutsideElement
  | endOfDocument
  | endInsideFeature (name : Name)
  | noFeatureElement
  | noGeometryElement
  | noElement
  | noRoot
  /-- A directory in place of a document. -/
  | isDirectory
  | described (message : String)
deriving DecidableEq, Repr

/-- What is wrong with the content of a property. -/
inductive ContentProblem where
  | noValueElement (property : Name)
  | moreThanOneElement (property : Name)
  | described (message : String)
deriving DecidableEq, Repr

/-- What is wrong with a geometry. -/
inductive GeometryProblem where
  | missingCorner
  | missingPosition
  | shortCurve
  | missingExterior
  | notARing
  | moreThanOneRing
  | ordinateCount (found : Nat)
  | badTuple (tuple : String)
  | unsupportedDimension (dimension : Nat)
  | unevenPositions (found dimension : Nat)
  | unexpectedElement (localPart : String)
  | wrongMember (container : String)
  | described (message : String)
deriving DecidableEq, Repr

/-- Why a document cannot be read, apart from where. -/
inductive Cause where
  | unknownFeatureType (name : Name)
  | abstractFeatureType (name : Name)
  | unexpectedProperty (name type : Name)
  | tooFewOccurrences (property type : Name) (min found : UInt32)
  | tooManyOccurrences (property type : Name) (max : MaxOccurs)
  | invalidFeatureId (id : String)
  | duplicateFeatureId (id : String)
  | externalReference (href : String)
  | wrongFeatureType (property : Name) (expected found : Option Name)
  | malformedNumber (text : String)
  | markup (problem : MarkupProblem)
  | content (problem : ContentProblem)
  | geometry (problem : GeometryProblem)
  | unsupportedGeometry (name : Name)
deriving DecidableEq, Repr

/-- Everything that can go wrong. -/
inductive ReadError where
  | located (cause : Cause) (position : Position)
  /-- An error in the value of a property, with where that value begins. -/
  | inProperty (property : Name) (position : Position) (source : ReadError)
  | dangling (references : List DanglingReference)
  /-- A file or directory that cannot be read. -/
  | inaccessible
  /-- An archive that is none, or that cannot be opened. -/
  | badArchive
deriving DecidableEq, Repr

/-! ### Wording -/

/-- A markup problem in words. -/
def MarkupProblem.message : MarkupProblem → String
  | .fault f => f.message
  | .strayText text => s!"unexpected text '{text}'"
  | .textOutsideElement => "element text requested outside of a start element"
  | .childInText => "expected text content, found a child element"
  | .skipOutsideElement => "skip requested outside of a start element"
  | .endOfDocument => "unexpected end of document"
  | .endInsideFeature name => s!"unexpected end of document inside feature '{name}'"
  | .noFeatureElement => "expected a feature start element"
  | .noGeometryElement => "expected a geometry start element"
  | .noElement => "expected a start element"
  | .noRoot => "document has no root element"
  | .isDirectory => "I/O error: Is a directory (os error 21)"
  | .described message => message

/-- A content problem in words. -/
def ContentProblem.message : ContentProblem → String
  | .noValueElement property => s!"property '{property}' has no value element"
  | .moreThanOneElement property => s!"property '{property}' must contain a single value element"
  | .described message => message

/-- A geometry problem in words. -/
def GeometryProblem.message : GeometryProblem → String
  | .missingCorner => "envelope requires a lower and an upper corner"
  | .missingPosition => "point without position"
  | .shortCurve => "a curve needs at least two positions"
  | .missingExterior => "polygon without exterior ring"
  | .notARing => "expected a LinearRing"
  | .moreThanOneRing => "boundary must contain exactly one LinearRing"
  | .ordinateCount found => s!"expected 2 or 3 ordinates, found {found}"
  | .badTuple tuple => s!"invalid coordinate tuple '{tuple}'"
  | .unsupportedDimension dimension => s!"unsupported dimension {dimension}"
  | .unevenPositions found dimension =>
    s!"position list of {found} values does not match dimension {dimension}"
  | .unexpectedElement localPart => s!"unexpected element '{localPart}'"
  | .wrongMember container => s!"invalid member geometry in {container}"
  | .described message => message

/-- A cause in words, with its position. -/
def Cause.message (position : Position) : Cause → String
  | .unknownFeatureType name => s!"unknown feature type '{name}' at {position}"
  | .abstractFeatureType name =>
    s!"feature type '{name}' is abstract and cannot be instantiated at {position}"
  | .unexpectedProperty name type =>
    s!"unexpected property '{name}' in feature of type '{type}' at {position}"
  | .tooFewOccurrences property type min found =>
    if min = 1 then
      s!"mandatory property '{property}' of feature type '{type}' is missing at {position}"
    else
      s!"property '{property}' of feature type '{type}' occurs {found.toNat} time(s), at least {min.toNat} required at {position}"
  | .tooManyOccurrences property type max =>
    s!"property '{property}' of feature type '{type}' occurs more than {max.display} time(s) at {position}"
  | .invalidFeatureId id =>
    s!"invalid feature id '{id}' at {position}: must not start with a digit or contain a colon"
  | .duplicateFeatureId id => s!"feature id '{id}' is not unique at {position}"
  | .externalReference href =>
    s!"external xlink reference '{href}' is not supported at {position}"
  | .wrongFeatureType property expected found =>
    let expected := (expected.map Name.display).getD "any"
    let found := (found.map Name.display).getD "no feature"
    s!"property '{property}' expects a feature of type '{expected}', found '{found}' at {position}"
  | .malformedNumber text => s!"malformed number '{text}' at {position}"
  | .markup problem => s!"XML error at {position}: {problem.message}"
  | .content problem => s!"invalid content at {position}: {problem.message}"
  | .geometry problem => s!"invalid geometry at {position}: {problem.message}"
  | .unsupportedGeometry name => s!"unsupported geometry element '{name}' at {position}"

namespace ReadError

/-- An error in words. What the system or the archive reports has none of its own. -/
def message : ReadError → String
  | .located cause position => cause.message position
  | .inProperty property position _ => s!"failed to parse property '{property}' at {position}"
  | .dangling references =>
    "unresolved local reference(s): " ++
      String.intercalate ", " (references.map fun r => "#" ++ r.targetId)
  | .inaccessible => "IO error"
  | .badArchive => "archive error"

/-- Where an error was found, if in a document. -/
def position? : ReadError → Option Position
  | .located _ position => some position
  | .inProperty _ position _ => some position
  | .dangling _ | .inaccessible | .badArchive => none

/-- The error inside all wrappers. -/
def rootCause : ReadError → ReadError
  | .inProperty _ _ source => source.rootCause
  | error => error

@[simp] theorem rootCause_inProperty (property : Name) (position : Position) (source : ReadError) :
    (inProperty property position source).rootCause = source.rootCause := rfl

end ReadError

end FeatureMarkup

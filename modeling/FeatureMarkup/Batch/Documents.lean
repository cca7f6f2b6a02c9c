import FeatureMarkup.Archive.Directory
import FeatureMarkup.Batch.FileTree
import FeatureMarkup.Reader.Feature

/-! Many documents at once: the files below a directory, and the entries of an
archive.

Each document is read on its own, with a registry of its own. A file that cannot be
read takes nothing from the others; in an archive a document that cannot be read is the
answer, the first to come in if there are several. -/
namespace FeatureMarkup

variable {κ : Type}

namespace FeatureReader

/-! ### Files -/

/-- Reads what a path leads to. A directory in place of a file opens if its names are
listed, but gives no octets. -/
def parseEntry (r : FeatureReader κ) (srs : Option String) :
    Option FileTree → Except ReadError (Document κ)
  | some (.file (some content)) => r.parse srs content
  | some (.directory ⟨true, _⟩ _) => .error (.located (.markup .isDirectory) .start)
  | some (.directory ⟨false, _⟩ _) | some (.file none) | none => .error .inaccessible

/-- Reads the files at some paths that are written out, each on its own. -/
def parseFiles (r : FeatureReader κ) (srs : Option String) (root : FileTree) (paths : List Path) :
    List (Path × Except ReadError (Document κ)) :=
  paths.map fun path => (path, r.parseEntry srs (root.locate? path))

/-- Reads every document below the directory at a path, each on its own. -/
def parseDirectory (r : FeatureReader κ) (srs : Option String) (root : FileTree) (dir : Path) :
    Except ReadError (List (Path × Except ReadError (Document κ))) := do
  return r.parseFiles srs root (← root.collectAt dir)

end FeatureReader

/-! ### Archives -/

namespace Archive

/-- The names of the documents in an archive. -/
def documentNames (a : Archive) : List String :=
  (a.map (·.name)).filter isDocumentName

/-- Whether a name is that of a directory. -/
def isDirectoryName (name : String) : Bool :=
  name.endsWith "/" || name.endsWith "\\"

/-- The content of an entry that is a document. Every entry has to be one that can be
opened. -/
def readEntry (e : ArchiveEntry) : Except ReadError (Option (String × List UInt8)) :=
  if !e.canOpen then .error .badArchive
  else if isDirectoryName e.name || !isDocumentName e.name then .ok none
  else
    match e.content with
    | some content => .ok (some (e.name, content))
    | none => .error .inaccessible

/-- The documents in an archive, with their contents. -/
def documents (a : Archive) : Except ReadError (List (String × List UInt8)) :=
  (·.filterMap id) <$> a.mapM readEntry

end Archive

/-- The first failure to come in, if answers come in from these places one after
another. -/
def firstFailure? {ε α : Type} (arrivals : List Nat) (answers : List (Except ε α)) : Option ε :=
  arrivals.findSome? fun place =>
    answers[place]?.bind fun
      | .ok _ => none
      | .error e => some e

/-- All answers in their order, or the first failure to come in. They come in from these
places first, and from the others in order. -/
def gather {ε α : Type} (arrivals : List Nat) (answers : List (Except ε α)) : Except ε (List α) :=
  match firstFailure? arrivals answers with
  | some e => .error e
  | none => answers.mapM id

namespace FeatureReader

/-- Reads all documents in an archive at the same time, so that the answers to them may
come in from any places first. -/
def parseArchiveAs (r : FeatureReader κ) (arrivals : List Nat) (srs : Option String) (a : Archive) :
    Except ReadError (List (String × Document κ)) := do
  let documents ← a.documents
  gather arrivals (documents.map fun (name, content) => (name, ·) <$> r.parse srs content)

/-- Reads every document in an archive, one after another. -/
def parseArchive (r : FeatureReader κ) (srs : Option String) (a : Archive) :
    Except ReadError (List (String × Document κ)) :=
  r.parseArchiveAs [] srs a

end FeatureReader

end FeatureMarkup

import FeatureMarkup.Error
import FeatureMarkup.Text.Utf8

/-! Directories with files, and the documents among them.

A file's name is any run of octets. Paths are compared name by name, each by its
octets. On the way along a path the name of one dot, like the empty one, stays in a
directory, and the name of two dots leaves it for the one around it. A path that is
written out from the outermost directory on leads nowhere if it is too long, or if a
directory on the way does not let its names be followed.

The documents below a directory are the files, however deep, whose names are text that
ends in one of two ways; they are listed by path, and not at all if some directory
that is come to cannot be read. What cannot be looked at is taken for no directory: it is
not gone into, and its name decides whether it is listed. -/
namespace FeatureMarkup

/-- A name in a directory. -/
abbrev FileName := List UInt8

/-- A path, from the outermost name to the innermost. -/
abbrev Path := List FileName

/-- What a directory allows: that its names are listed, and that they are followed to
what they are the names of. -/
structure Access where
  lists : Bool
  leads : Bool

/-- Everything is allowed. -/
def Access.full : Access := ⟨true, true⟩

/-- A file, or a directory. -/
inductive FileTree where
  /-- A file, with its content if it can be opened. -/
  | file (content : Option (List UInt8))
  | directory (access : Access) (entries : List (FileName × FileTree))

/-- Whether a name is that of a document, in any letter case. -/
def isDocumentName (name : String) : Bool :=
  let name := name.map Char.toLower
  name.endsWith ".gml" || name.endsWith ".xml"

/-- Whether a file's name is text and that of a document. -/
def isDocumentFile (name : FileName) : Bool :=
  match Text.Utf8.decode? name with
  | .ok name => isDocumentName name
  | .error _ => false

/-! ### Written paths -/

namespace Path

/-- A path without the stroke at its end. -/
def stem (path : Path) : Path :=
  if path.getLast? = some [] then path.dropLast else path

/-- How many octets a path takes when it is written, with a stroke before every name. -/
def writtenLength (path : Path) : Nat :=
  path.foldr (fun name rest => 1 + name.length + rest) 0

/-- The number of octets that a written path stays below. -/
def limit : Nat := 4096

end Path

namespace FileTree

/-- A directory with nothing in it. -/
def emptyDirectory : FileTree := .directory .full []

/-! ### Following a path -/

/-- The entry with a name. -/
def named? (entries : List (FileName × FileTree)) (name : FileName) : Option FileTree :=
  (entries.find? (·.1 = name)).map (·.2)

/-- Whether a name stays in a directory. -/
def staysHere (name : FileName) : Bool :=
  name = [] || name = [0x2E]

/-- Whether a name leaves a directory for the one around it. -/
def goesUp (name : FileName) : Bool :=
  name = [0x2E, 0x2E]

/-- Where a path has led to, and the directories around that from the innermost on. -/
structure Location where
  around : List FileTree
  tree : FileTree

/-- Where a name leads. The outermost directory is around itself. Nothing is asked of a
directory for the empty name. -/
def Location.follow? (l : Location) (name : FileName) : Option Location :=
  match l.tree with
  | .file _ => none
  | .directory access entries =>
    if !name.isEmpty && !access.leads then none
    else if staysHere name then some l
    else if goesUp name then
      match l.around with
      | [] => some l
      | outer :: around => some ⟨around, outer⟩
    else (named? entries name).map (⟨l.tree :: l.around, ·⟩)

/-- Where a path leads. -/
def Location.walk? (l : Location) (path : Path) : Option Location :=
  path.foldlM follow? l

/-- What is at a path that is written out, if it is not too long. -/
def locate? (root : FileTree) (path : Path) : Option FileTree :=
  if path.writtenLength < Path.limit then (Location.walk? ⟨[], root⟩ path).map (·.tree) else none

/-! ### Collecting -/

/-- Whether something is seen to be a directory, the path to it taking so many octets. It
can be looked at if the directory around it leads to it and the path is not too long. -/
def seenAsDirectory (leads : Bool) (written : Nat) : FileTree → Bool
  | .file _ => false
  | .directory _ _ => leads && written < Path.limit

mutual

/-- The paths of the documents below a directory, in order, as they go on from it, the
path to it taking so many octets. -/
def collect (written : Nat) : FileTree → Except ReadError (List Path)
  | .file _ => .error .inaccessible
  | .directory access entries => do
    if access.lists then
      return (← collectEntries written access.leads entries).mergeSort fun a b => decide (a ≤ b)
    else .error .inaccessible

/-- The paths of the documents among the entries of a directory and below them, those of
one entry after those of another. -/
def collectEntries (written : Nat) (leads : Bool) :
    List (FileName × FileTree) → Except ReadError (List Path)
  | [] => return []
  | entry :: rest => do
    return (← collectEntry written leads entry) ++ (← collectEntries written leads rest)

/-- The paths of the documents that an entry is or that are below it. -/
def collectEntry (written : Nat) (leads : Bool) : FileName × FileTree → Except ReadError (List Path)
  | (name, tree) =>
    let further := written + 1 + name.length
    if seenAsDirectory leads further tree then List.map (name :: ·) <$> collect further tree
    else return if isDocumentFile name then [[name]] else []

end

/-- The paths of the documents below the directory at a path. -/
def collectAt (root : FileTree) (dir : Path) : Except ReadError (List Path) :=
  match root.locate? dir with
  | some tree => List.map (dir.stem ++ ·) <$> tree.collect dir.stem.writtenLength
  | none => .error .inaccessible

/-! ### Laying out -/

/-- The entries with what is under one name put in. -/
def putEntry (entries : List (FileName × FileTree)) (name : FileName) (tree : FileTree) :
    List (FileName × FileTree) :=
  if entries.any (·.1 = name) then
    entries.map fun old => if old.1 = name then (name, tree) else old
  else
    entries ++ [(name, tree)]

/-- The tree with something put at a path; directories on the way are made, and a
directory that is there stays as it is where another is put. -/
def put (tree : FileTree) (path : Path) (new : FileTree) : FileTree :=
  match path with
  | [] =>
    match tree, new with
    | .directory access entries, .directory _ [] => .directory access entries
    | _, new => new
  | name :: rest =>
    let (access, entries) :=
      match tree with
      | .directory access entries => (access, entries)
      | _ => (.full, [])
    .directory access
      (putEntry entries name (((named? entries name).getD emptyDirectory).put rest new))

end FileTree

end FeatureMarkup

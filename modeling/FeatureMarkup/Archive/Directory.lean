import FeatureMarkup.Archive.BlockSort
import FeatureMarkup.Archive.EndRecord
import FeatureMarkup.Archive.EntryRecord
import FeatureMarkup.Archive.Inflate
import FeatureMarkup.Error

/-! Archives: what an archive's directory lists, and the contents it leads to.

The directory stands at the end, and the end record that leads to it is looked for
from the back. A candidate that does not lead to a directory whose records can all be
read is passed over for an earlier one. The entry records alone decide names and
order; of several entries with one name the first keeps the place and the last gives
the data. -/
namespace FeatureMarkup

/-- An entry of an archive. -/
structure ArchiveEntry where
  name : String
  /-- Whether the entry can be opened: not enciphered, stored in a known way, and where
  its record says. -/
  canOpen : Bool
  /-- The content, none where it cannot be restored. -/
  content : Option (List UInt8)

/-- The entries of an archive, in order. -/
abbrev Archive := List ArchiveEntry

namespace Archive

/-! ### Entries -/

/-- The octets that are stored for an entry, if what stands before them is in place;
all places are shifted. -/
def EntryRecord.stored? (e : EntryRecord) (bytes : ByteArray) (shift : Nat) : Option (List UInt8) := do
  let place := e.data + shift
  let mark ← numberAt? bytes place 4
  let nameLength ← numberAt? bytes (place + 26) 2
  let extraLength ← numberAt? bytes (place + 28) 2
  if mark = dataMark then
    return octetsAt bytes (place + 30 + nameLength + extraLength) e.storedSize
  else
    none

/-- How an entry's octets are to be read, if its method is known. From some methods
that are known nothing is restored. -/
def method? : Nat → Option (List UInt8 → Option (List UInt8))
  | 0 => some some
  | 8 => some (inflate? .standard)
  | 9 => some (inflate? .wide)
  | 12 => some unsort?
  | 14 | 93 | 95 => some fun _ => none
  | _ => none

/-- The entry of a record. -/
def EntryRecord.entry (e : EntryRecord) (bytes : ByteArray) (shift : Nat) : ArchiveEntry :=
  let name := e.displayName
  match e.stored? bytes shift, method? e.method with
  | some stored, some restore =>
    { name, canOpen := !e.flags.testBit 0 && !e.enciphered,
      content := (restore stored).filter fun content => (checksum content).toNat = e.check }
  | _, _ => { name, canOpen := false, content := none }

/-- The entries with one more, which takes the place of one with its name. -/
def insert (entries : Archive) (e : ArchiveEntry) : Archive :=
  if entries.any (·.name = e.name) then entries.map fun old => if old.name = e.name then e else old
  else entries ++ [e]

/-! ### The directory -/

/-- The entries that an end record leads to. Their data stands before the directory. -/
def entriesOf? (bytes : ByteArray) (e : EndRecord) : Option Archive := do
  let d ← e.directoryPlace? bytes
  let records ← entryRecords? bytes d.count d.start
  if records.all fun r => r.data + d.shift < d.start then
    return (records.map (·.entry bytes d.shift)).foldl insert []
  else
    none

/-- The entries of an archive, by the last end record that leads to any. -/
def ofBytes (bytes : List UInt8) : Except ReadError Archive :=
  let bytes := ByteArray.mk bytes.toArray
  let found := (List.range bytes.size).reverse.findSome? fun place =>
    endRecordAt? bytes place >>= entriesOf? bytes
  match found with
  | some entries => .ok entries
  | none => .error .badArchive

end Archive

end FeatureMarkup

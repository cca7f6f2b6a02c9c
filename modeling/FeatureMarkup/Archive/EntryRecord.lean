import FeatureMarkup.Archive.Checksum
import FeatureMarkup.Archive.Record
import FeatureMarkup.Text.Codepage
import FeatureMarkup.Text.Utf8

/-! Entry records: what the directory of an archive says of an entry.

A record ends in extra fields, each with its kind and its length, which may give the
sizes and the place in wider numbers, a name and a comment in UTF-8, or the method
behind a cipher. Times are looked at and not kept. A field that the octets do not
fill ends the reading without fault, and what was read until then holds; a field
that contradicts its kind makes the whole record one that cannot be read. -/
namespace FeatureMarkup.Archive

/-- What an entry's record says. -/
structure EntryRecord where
  flags : Nat
  method : Nat
  /-- Whether an extra field says that the data is enciphered. -/
  enciphered : Bool
  check : Nat
  storedSize : Nat
  size : Nat
  name : List UInt8
  displayName : String
  comment : String
  data : Nat

/-! ### Extra fields -/

/-- Why extra fields are read no further. -/
inductive ExtraStop where
  /-- The octets run out, which is no fault. -/
  | cut
  | refused

/-- An entry's record while its extra fields are read, and the octets still to come. -/
structure ExtraState where
  entry : EntryRecord
  rest : List UInt8

/-- Reading extra fields. -/
abbrev ExtraM := EStateM ExtraStop ExtraState

namespace ExtraM

/-- So many octets. -/
def octets (count : Nat) : ExtraM (List UInt8) := do
  let s ← get
  if count ≤ s.rest.length then
    set { s with rest := s.rest.drop count }
    return s.rest.take count
  else
    throw .cut

/-- A number of so many octets. -/
def number (width : Nat) : ExtraM Nat := do
  return numberOf (← octets width)

/-- Refuses the field unless a condition holds. -/
def ensure (condition : Bool) : ExtraM Unit :=
  if condition then return else throw .refused

/-- Changes what is known of the entry. -/
def modifyEntry (f : EntryRecord → EntryRecord) : ExtraM Unit :=
  modify fun s => { s with entry := f s.entry }

/-- The number in place of one that a field may widen: read where it is as large as
it can be, or where the field widens all. Answers how many octets that took. -/
def widen (all : Bool) (old : EntryRecord → Nat) (put : EntryRecord → Nat → EntryRecord) :
    ExtraM Nat := do
  if all || old (← get).entry = 0xFFFFFFFF then
    let n ← number 8
    modifyEntry (put · n)
    return 8
  else
    return 0

/-- The field that widens the sizes and the place. -/
def readWide (length : Nat) : ExtraM Unit := do
  let all := decide (24 ≤ length)
  let size ← widen all (·.size) fun e n => { e with size := n }
  let stored ← widen all (·.storedSize) fun e n => { e with storedSize := n }
  let data ← widen all (·.data) fun e n => { e with data := n }
  ensure (size + stored + data ≤ length)
  let _ ← octets (length - (size + stored + data))

/-- The text in a field that stands for other octets, which its checksum names. -/
def readText (length : Nat) (former : List UInt8) : ExtraM (List UInt8 × String) := do
  let _ ← octets 1
  let check ← number 4
  ensure (5 ≤ length)
  let content ← octets (length - 5)
  ensure ((checksum former).toNat = check)
  match Text.Utf8.decode? content with
  | .ok text => return (content, text)
  | .error _ => throw .refused

/-- The field with the name in UTF-8. -/
def readName (length : Nat) : ExtraM Unit := do
  let (content, text) ← readText length (← get).entry.name
  modifyEntry fun e => { e with name := content, displayName := text }

/-- The field with the comment in UTF-8. -/
def readComment (length : Nat) : ExtraM Unit := do
  let (_, text) ← readText length (← get).entry.comment.toUTF8.toList
  modifyEntry fun e => { e with comment := text }

/-- The field with three times to a fraction of a second. -/
def readFineTimes (length : Nat) : ExtraM Unit := do
  ensure (length = 32)
  let _ ← octets 4
  ensure ((← number 2) = 1)
  ensure ((← number 2) = 24)
  let _ ← octets 24

/-- The field with up to three times in seconds, as its flags say. There are no flags
of other times. In five octets there is room for the first time alone, whatever the
flags say. -/
def readTimes (length : Nat) : ExtraM Unit := do
  let flags ← number 1
  ensure (flags < 8)
  ensure (length = 5 || length = 1 + 4 * ((List.range 3).filter flags.testBit).length)
  let present := if length = 5 then [0] else (List.range 3).filter flags.testBit
  let _ ← octets (4 * present.length)

/-- The field that says how the data is enciphered, and by which method it was stored
before. -/
def readCipher (length : Nat) : ExtraM Unit := do
  ensure (length = 7)
  let version ← number 2
  let vendor ← number 2
  let strength ← number 1
  let method ← number 2
  ensure (vendor = 0x4541)
  ensure (version = 1 || version = 2)
  ensure (1 ≤ strength && strength ≤ 3)
  modifyEntry fun e => { e with method, enciphered := true }

/-- One field, by its kind; others are passed over. -/
def readField (kind length : Nat) : ExtraM Unit :=
  match kind with
  | 0x0001 => readWide length
  | 0x000A => readFineTimes length
  | 0x5455 => readTimes length
  | 0x6375 => readComment length
  | 0x7075 => readName length
  | 0x9901 => readCipher length
  | _ => discard (octets length)

/-- So many fields, or as many as there are. -/
def readFields : Nat → ExtraM Unit
  | 0 => return
  | count + 1 => do
    let kind ← number 2
    let length ← number 2
    readField kind length
    readFields count

end ExtraM

/-- The record with what its extra fields say, none if one of them is refused. Every
field takes an octet, so their number is bounded. -/
def EntryRecord.extended? (e : EntryRecord) (extra : List UInt8) : Option EntryRecord :=
  match ExtraM.readFields extra.length ⟨e, extra⟩ with
  | .ok _ s => some s.entry
  | .error .cut s => some s.entry
  | .error .refused _ => none

/-! ### Records -/

/-- Text of a record: in UTF-8 where it is flagged so, otherwise in code page 437. -/
def textOf (flags : Nat) (bytes : List UInt8) : String :=
  if flags.testBit 11 then Text.Utf8.decodeLossy bytes else Text.Codepage.decode bytes

/-- The method that an extra field has to replace. -/
def cipherMethod : Nat := 99

/-- The entry record at a place, and where the next one stands. -/
def entryRecordAt? (bytes : ByteArray) (place : Nat) : Option (EntryRecord × Nat) := do
  let mark ← numberAt? bytes place 4
  let flags ← numberAt? bytes (place + 8) 2
  let method ← numberAt? bytes (place + 10) 2
  let check ← numberAt? bytes (place + 16) 4
  let storedSize ← numberAt? bytes (place + 20) 4
  let size ← numberAt? bytes (place + 24) 4
  let nameLength ← numberAt? bytes (place + 28) 2
  let extraLength ← numberAt? bytes (place + 30) 2
  let commentLength ← numberAt? bytes (place + 32) 2
  let data ← numberAt? bytes (place + 42) 4
  let extra := place + 46 + nameLength
  let next := extra + extraLength + commentLength
  if mark = entryMark ∧ next ≤ bytes.size then
    let name := octetsAt bytes (place + 46) nameLength
    let comment := octetsAt bytes (extra + extraLength) commentLength
    let e : EntryRecord :=
      { flags, method, enciphered := false, check, storedSize, size, name
        displayName := textOf flags name, comment := textOf flags comment, data }
    let e ← e.extended? (octetsAt bytes extra extraLength)
    if e.method = cipherMethod ∧ !e.enciphered then none else return (e, next)
  else
    none

/-- So many entry records, one after another. -/
def entryRecords? (bytes : ByteArray) : Nat → Nat → Option (List EntryRecord)
  | 0, _ => some []
  | count + 1, place => do
    let (e, next) ← entryRecordAt? bytes place
    let later ← entryRecords? bytes count next
    return e :: later

end FeatureMarkup.Archive

import FeatureMarkup.Archive.Record

/-! End records: where the directory of an archive is.

The end record says how many entries the directory lists and where it begins. Octets
put in front of the archive shift all places alike; the first mark of an entry from
the stated place on tells by how much. Where a number of the end record is as large
as it can be, a locator just before it may lead to a wide end record, which then
stands for it and tells the shift by its own place. An archive in several parts is
refused. -/
namespace FeatureMarkup.Archive

/-- What the end record says. -/
structure EndRecord where
  place : Nat
  disk : Nat
  directoryDisk : Nat
  /-- How many entries the directory lists in this part of the archive. -/
  countHere : Nat
  /-- How many entries there are in all parts. -/
  count : Nat
  directory : Nat

/-- The end record at a place, if one with all its comment stands there. -/
def endRecordAt? (bytes : ByteArray) (place : Nat) : Option EndRecord := do
  let mark ← numberAt? bytes place 4
  let disk ← numberAt? bytes (place + 4) 2
  let directoryDisk ← numberAt? bytes (place + 6) 2
  let countHere ← numberAt? bytes (place + 8) 2
  let count ← numberAt? bytes (place + 10) 2
  let directory ← numberAt? bytes (place + 16) 4
  let comment ← numberAt? bytes (place + 20) 2
  if mark = endMark ∧ place + 22 + comment ≤ bytes.size then
    return { place, disk, directoryDisk, countHere, count, directory }
  else
    none

/-- What tells where the wide end record stands. -/
structure Locator where
  place : Nat
  disk : Nat
  endRecord : Nat
  disks : Nat

/-- The locator just before an end record, if its numbers ask for one. -/
def EndRecord.locator? (e : EndRecord) (bytes : ByteArray) : Option Locator := do
  if e.place < 20 ∨ ¬(e.count = 0xFFFF ∨ e.directory = 0xFFFFFFFF) then
    none
  else
    let place := e.place - 20
    let mark ← numberAt? bytes place 4
    let disk ← numberAt? bytes (place + 4) 4
    let endRecord ← numberAt? bytes (place + 8) 8
    let disks ← numberAt? bytes (place + 16) 4
    if mark = locatorMark then
      return { place, disk, endRecord, disks }
    else
      none

/-- What the wide end record says. -/
structure WideEndRecord where
  place : Nat
  madeBy : Nat
  needed : Nat
  disk : Nat
  directoryDisk : Nat
  countHere : Nat
  count : Nat
  directory : Nat

/-- The wide end record at a place, if it fills the octets up to its locator, agrees
with it, and leaves room for as many entries as it states. -/
def Locator.wideEndRecordAt? (l : Locator) (bytes : ByteArray) (place : Nat) :
    Option WideEndRecord := do
  let size ← numberAt? bytes (place + 4) 8
  let madeBy ← numberAt? bytes (place + 12) 2
  let needed ← numberAt? bytes (place + 14) 2
  let disk ← numberAt? bytes (place + 16) 4
  let directoryDisk ← numberAt? bytes (place + 20) 4
  let countHere ← numberAt? bytes (place + 24) 8
  let count ← numberAt? bytes (place + 32) 8
  let directory ← numberAt? bytes (place + 48) 8
  if 44 ≤ size ∧ place + 12 + size = l.place ∧ directoryDisk = l.disk ∧
      directory + 46 * count ≤ place then
    return { place, madeBy, needed, disk, directoryDisk, countHere, count, directory }
  else
    none

/-- Where the directory is: how far all places are shifted, where the first record
stands, and how many there are. -/
structure DirectoryPlace where
  shift : Nat
  start : Nat
  count : Nat

/-- Where a wide end record says that the directory is. -/
def Locator.directoryPlace? (l : Locator) (bytes : ByteArray) : Option DirectoryPlace := do
  if l.endRecord < l.place ∧ l.disks ≤ 1 then
    let w ← (marksBetween bytes wideEndMark l.endRecord l.place).findSome?
      (l.wideEndRecordAt? bytes)
    if w.countHere ≤ w.count ∧ w.needed ≤ w.madeBy ∧ w.disk = w.directoryDisk then
      let shift := w.place - l.endRecord
      return { shift, start := w.directory + shift, count := w.count }
    else
      none
  else
    none

/-- How far an end record finds all places shifted. Where there are no entries, the
directory ends where the end record begins. -/
def EndRecord.shift? (e : EndRecord) (bytes : ByteArray) : Option Nat :=
  if e.count = 0 then
    some (e.place - e.directory)
  else
    (marksBetween bytes entryMark e.directory e.place).head?.map (· - e.directory)

/-- Where an end record, or the wide one in its stead, says that the directory is. -/
def EndRecord.directoryPlace? (e : EndRecord) (bytes : ByteArray) : Option DirectoryPlace :=
  match e.locator? bytes with
  | some l => l.directoryPlace? bytes
  | none => do
    let shift ← e.shift? bytes
    if e.disk = e.directoryDisk then
      return { shift, start := e.directory + shift, count := e.countHere }
    else
      none

end FeatureMarkup.Archive

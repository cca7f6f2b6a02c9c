import FeatureMarkup.Proofs.Batch.Collection
import FeatureMarkup.Proofs.Pointwise

/-! What is read from an archive.

The documents of an archive are listed by their names alone, while reading them looks at every
entry, opens it, and passes over those with the name of a directory. No directory has the name
of a document, so both come to the same entries in the same order, `documents_agree`. Each of
them is then read by itself, and since any number of answers may come in at the same time the
statement is about every order in which they do. -/
namespace FeatureMarkup

variable {ε α β κ : Type}

/-! ### Lists of answers -/

/-- Something is done for each element of a list just if it can be done for each. -/
theorem exceptMapM_eq_ok_iff {f : α → Except ε β} {as : List α} {bs : List β} :
    as.mapM f = .ok bs ↔ List.Forall₂ (fun a b => f a = .ok b) as bs := by
  induction as generalizing bs with
  | nil => simp [pure, Except.pure, eq_comm]
  | cons a as ih =>
    rw [List.mapM_cons, List.forall₂_cons_left_iff]
    simp only [exceptBind_eq_ok, ih, pure, Except.pure, Except.ok.injEq, exists_and_left,
      eq_comm (a := bs)]

theorem exists_of_exceptMapM_eq_error {f : α → Except ε β} {as : List α} {e : ε}
    (h : as.mapM f = .error e) : ∃ a ∈ as, f a = .error e := by
  induction as with
  | nil => cases h
  | cons a as ih =>
    rw [List.mapM_cons] at h
    rcases exceptBind_eq_error.1 h with ha | ⟨b, -, h⟩
    · exact ⟨a, List.mem_cons_self, ha⟩
    · rcases exceptBind_eq_error.1 h with has | ⟨bs, -, h⟩
      · obtain ⟨a', hmem, ha'⟩ := ih has
        exact ⟨a', List.mem_cons_of_mem _ hmem, ha'⟩
      · cases h

section Gather
variable {arrivals : List Nat} {answers : List (Except ε α)} {e : ε}

theorem mem_of_firstFailure?_eq_some (h : firstFailure? arrivals answers = some e) :
    .error e ∈ answers := by
  obtain ⟨place, -, hplace⟩ := List.exists_of_findSome?_eq_some h
  obtain ⟨answer, hanswer, hfailed⟩ := Option.bind_eq_some_iff.1 hplace
  cases answer with
  | ok a => cases hfailed
  | error e' =>
    obtain rfl := Option.some.inj hfailed
    exact List.mem_of_getElem? hanswer

/-- Whatever comes in first, there is an answer just if nothing has failed. -/
theorem gather_eq_ok_iff {as : List α} : gather arrivals answers = .ok as ↔ answers = as.map .ok := by
  have hall : answers.mapM id = .ok as ↔ answers = as.map .ok := by
    rw [exceptMapM_eq_ok_iff, ← List.forall₂_eq_eq_eq, List.forall₂_map_right_iff]
    rfl
  unfold gather
  cases hfirst : firstFailure? arrivals answers with
  | none => exact hall
  | some e =>
    simp only [reduceCtorEq, false_iff]
    rintro rfl
    simpa using mem_of_firstFailure?_eq_some hfirst

theorem mem_of_gather_eq_error (h : gather arrivals answers = .error e) : .error e ∈ answers := by
  unfold gather at h
  cases hfirst : firstFailure? arrivals answers with
  | some e' =>
    obtain rfl : e' = e := by simpa [hfirst] using h
    exact mem_of_firstFailure?_eq_some hfirst
  | none =>
    rw [hfirst] at h
    obtain ⟨answer, hmem, rfl⟩ := exists_of_exceptMapM_eq_error h
    exact hmem

end Gather

/-! ### Names -/

theorem getLast?_of_endsWith {text ending : String} {c : Char} (h : text.endsWith ending = true)
    (hc : ending.toList.getLast? = some c) : text.toList.getLast? = some c := by
  rw [← String.endsWith_toSlice, String.Slice.endsWith_string_iff, String.copy_toSlice] at h
  obtain ⟨stem, hstem⟩ := h
  rw [← hstem, List.getLast?_append, hc]
  rfl

/-- A directory does not have the name of a document. -/
theorem isDirectoryName_of_isDocumentName {name : String} (h : isDocumentName name = true) :
    Archive.isDirectoryName name = false := by
  have hlast : name.toList.getLast?.map Char.toLower = some 'l' := by
    rw [← List.getLast?_map, ← String.toList_map]
    rcases Bool.or_eq_true _ _ ▸ h with h | h
    · exact getLast?_of_endsWith h rfl
    · exact getLast?_of_endsWith h rfl
  have hends {ending : String} {c : Char} (hc : ending.toList.getLast? = some c)
      (hne : c.toLower ≠ 'l') : name.endsWith ending = false := by
    by_contra hends
    rw [Bool.not_eq_false] at hends
    rw [getLast?_of_endsWith hends hc] at hlast
    exact hne (Option.some.inj hlast)
  have hslash : name.endsWith "/" = false := hends (c := '/') rfl (by decide)
  have hbackslash : name.endsWith "\\" = false := hends (c := '\\') rfl (by decide)
  simp [Archive.isDirectoryName, hslash, hbackslash]

/-! ### Entries -/

/-- A document is what an entry holds, under its name. -/
def ArchiveEntry.Holds (e : ArchiveEntry) (document : String × List UInt8) : Prop :=
  document.1 = e.name ∧ e.content = some document.2

namespace Archive
variable {a : Archive} {e : ArchiveEntry} {found : List (String × List UInt8)}

theorem readEntry_eq_ok_iff {own : Option (String × List UInt8)} :
    readEntry e = .ok own ↔ e.canOpen = true ∧
      if isDocumentName e.name then ∃ document, own = some document ∧ e.Holds document
      else own = none := by
  unfold readEntry ArchiveEntry.Holds
  cases hopen : e.canOpen with
  | false => simp
  | true =>
    cases hdocument : isDocumentName e.name with
    | false => simp [eq_comm]
    | true =>
      have hdirectory := isDirectoryName_of_isDocumentName hdocument
      cases hcontent : e.content with
      | none => simp [hdirectory]
      | some content => simp [hdirectory, eq_comm]

theorem documents_cons_eq_ok_iff :
    documents (e :: a) = .ok found ↔ ∃ own later, readEntry e = .ok own ∧
      documents a = .ok later ∧ own.toList ++ later = found := by
  simp only [documents, exceptMap_eq_ok, exceptMapM_eq_ok_iff, List.forall₂_cons_left_iff]
  constructor
  · rintro ⟨_, ⟨own, opened, hown, hopened, rfl⟩, rfl⟩
    refine ⟨own, _, hown, ⟨opened, hopened, rfl⟩, ?_⟩
    cases own <;> rfl
  · rintro ⟨own, _, hown, ⟨opened, hopened, rfl⟩, rfl⟩
    refine ⟨_, ⟨own, opened, hown, hopened, rfl⟩, ?_⟩
    cases own <;> rfl

/-- An archive is read if all of its entries can be opened, and what is read is what those with
the names of documents hold, in order. -/
theorem documents_eq_ok_iff :
    a.documents = .ok found ↔ (∀ e ∈ a, e.canOpen = true) ∧
      List.Forall₂ ArchiveEntry.Holds (a.filter fun e => isDocumentName e.name) found := by
  induction a generalizing found with
  | nil =>
    show Except.ok [] = Except.ok found ↔ _
    rw [Except.ok.injEq, eq_comm]
    simp
  | cons e a ih =>
    rw [documents_cons_eq_ok_iff, List.forall_mem_cons]
    simp only [readEntry_eq_ok_iff, ih, List.filter_cons]
    cases isDocumentName e.name with
    | false =>
      constructor
      · rintro ⟨_, later, ⟨hopen, rfl⟩, ⟨hall, hholds⟩, rfl⟩
        exact ⟨⟨hopen, hall⟩, hholds⟩
      · rintro ⟨⟨hopen, hall⟩, hholds⟩
        exact ⟨none, found, ⟨hopen, rfl⟩, ⟨hall, hholds⟩, rfl⟩
    | true =>
      constructor
      · rintro ⟨_, later, ⟨hopen, document, rfl, hown⟩, ⟨hall, hholds⟩, rfl⟩
        exact ⟨⟨hopen, hall⟩, .cons hown hholds⟩
      · rintro ⟨⟨hopen, hall⟩, hholds⟩
        obtain ⟨document, later, hown, hlater, rfl⟩ := List.forall₂_cons_left_iff.1 hholds
        exact ⟨some document, later, ⟨hopen, document, rfl, hown⟩, ⟨hall, hlater⟩, rfl⟩

/-- The documents that are read are those that are listed. -/
theorem map_fst_documents (h : a.documents = .ok found) :
    found.map (·.1) = a.documentNames := by
  obtain ⟨-, hholds⟩ := documents_eq_ok_iff.1 h
  rw [documentNames, List.filter_map, ← List.forall₂_eq_eq_eq, List.forall₂_map_left_iff,
    List.forall₂_map_right_iff]
  exact hholds.flip.imp fun document e hown => hown.1

end Archive

/-! ### Documents -/

namespace FeatureReader
variable {r : FeatureReader κ} {srs : Option String} {arrivals : List Nat} {a : Archive}
  {documents : List (String × List UInt8)}

/-- An answer is what the content of a document is read as, under its name. -/
def Parses (r : FeatureReader κ) (srs : Option String) (document : String × List UInt8)
    (answer : String × Document κ) : Prop :=
  answer.1 = document.1 ∧ r.parse srs document.2 = .ok answer.2

theorem parses_iff {name : String} {content : List UInt8} {answer : String × Document κ} :
    (name, ·) <$> r.parse srs content = .ok answer ↔ r.Parses srs (name, content) answer := by
  obtain ⟨name', document⟩ := answer
  rw [exceptMap_eq_ok, Parses]
  constructor
  · rintro ⟨_, hdocument, heq⟩
    obtain ⟨rfl, rfl⟩ := Prod.mk.inj heq
    exact ⟨rfl, hdocument⟩
  · rintro ⟨rfl, hdocument⟩
    exact ⟨document, hdocument, rfl⟩

theorem parseArchiveAs_of_documents (h : a.documents = .ok documents) :
    r.parseArchiveAs arrivals srs a =
      gather arrivals (documents.map fun (name, content) => (name, ·) <$> r.parse srs content) := by
  rw [parseArchiveAs, h]
  rfl

theorem parseArchiveAs_eq_ok_iff {answers : List (String × Document κ)}
    (h : a.documents = .ok documents) : r.parseArchiveAs arrivals srs a = .ok answers ↔
      List.Forall₂ (r.Parses srs) documents answers := by
  rw [parseArchiveAs_of_documents h, gather_eq_ok_iff, ← List.forall₂_eq_eq_eq,
    List.forall₂_map_left_iff, List.forall₂_map_right_iff]
  constructor
  · exact List.Forall₂.imp fun document answer hanswer => parses_iff.1 hanswer
  · exact List.Forall₂.imp fun document answer hanswer => parses_iff.2 hanswer

theorem exists_parseArchiveAs_eq_ok_iff (h : a.documents = .ok documents) :
    (∃ answers, r.parseArchiveAs arrivals srs a = .ok answers) ↔
      ∀ document ∈ documents, ∃ parsed, r.parse srs document.2 = .ok parsed := by
  simp only [parseArchiveAs_eq_ok_iff h]
  constructor
  · intro hanswers document hmem
    obtain ⟨answers, hanswers⟩ := hanswers
    obtain ⟨answer, -, hparses⟩ := forall₂_mem hanswers hmem
    exact ⟨answer.2, hparses.2⟩
  · intro hparses
    refine exists_forall₂ fun document hmem => ?_
    obtain ⟨parsed, hparsed⟩ := hparses document hmem
    exact ⟨(document.1, parsed), rfl, hparsed⟩

theorem exists_of_parseArchiveAs_eq_error {e : ReadError} (h : a.documents = .ok documents)
    (herror : r.parseArchiveAs arrivals srs a = .error e) :
    ∃ document ∈ documents, r.parse srs document.2 = .error e := by
  rw [parseArchiveAs_of_documents h] at herror
  obtain ⟨document, hmem, hfailed⟩ := List.mem_map.1 (mem_of_gather_eq_error herror)
  exact ⟨document, hmem, exceptMap_eq_error.1 hfailed⟩

/-- All who ask an archive for its documents come to the same. If they can be read, then just
those that are listed are, in the order in which they are listed, each with what its entry holds;
and whichever answers come in first, all of them are parsed if each by itself can be, to what
each is by itself. If not, it is because of one of those that cannot be. -/
theorem documents_agree (r : FeatureReader κ) (srs : Option String) (a : Archive) :
    (∀ documents, a.documents = .ok documents →
      documents.map (·.1) = a.documentNames ∧
      List.Forall₂ ArchiveEntry.Holds (a.filter fun e => isDocumentName e.name) documents ∧
      ∀ arrivals,
        ((∃ answers, r.parseArchiveAs arrivals srs a = .ok answers) ↔
          ∀ document ∈ documents, ∃ parsed, r.parse srs document.2 = .ok parsed) ∧
        (∀ answers, r.parseArchiveAs arrivals srs a = .ok answers ↔
          List.Forall₂ (r.Parses srs) documents answers) ∧
        (∀ e, r.parseArchiveAs arrivals srs a = .error e →
          ∃ document ∈ documents, r.parse srs document.2 = .error e)) ∧
    ∀ e, a.documents = .error e → ∀ arrivals, r.parseArchiveAs arrivals srs a = .error e := by
  constructor
  · intro documents h
    obtain ⟨-, hholds⟩ := Archive.documents_eq_ok_iff.1 h
    refine ⟨Archive.map_fst_documents h, hholds, fun arrivals => ⟨?_, ?_, ?_⟩⟩
    · exact exists_parseArchiveAs_eq_ok_iff h
    · exact fun answers => parseArchiveAs_eq_ok_iff h
    · exact fun e herror => exists_of_parseArchiveAs_eq_error h herror
  · intro e h arrivals
    rw [parseArchiveAs, h]
    rfl

/-- A road between a directory and a note, neither of them a document; then the same with an
empty document behind it, and with an entry that cannot be opened. -/
theorem documents_agree_roads :
    let reader : FeatureReader Unit := .ofSchema ⟨[⟨.unqualified "Road", [], none, false⟩], []⟩
    let road := ("maps/road.GML", Text.Utf8.octets "<Road/>")
    let roads : Archive := [⟨"maps.xml/", true, some []⟩, ⟨road.1, true, some road.2⟩,
      ⟨"notes.txt", true, none⟩]
    let empty := ("empty.xml", [])
    let broken : Archive := roads ++ [⟨empty.1, true, some empty.2⟩]
    let locked : Archive := roads ++ [⟨"key.txt", false, none⟩]
    (roads.documents = .ok [road] ∧ roads.documentNames = [road.1] ∧
      ∃ answers, reader.parseArchiveAs [] none roads = .ok answers ∧
        List.Forall₂ (reader.Parses none) [road] answers) ∧
    (broken.documents = .ok [road, empty] ∧
      ∃ e, reader.parseArchiveAs [0, 1] none broken = .error e ∧
        ∃ document ∈ [road, empty], reader.parse none document.2 = .error e) ∧
    (locked.documents = .error .badArchive ∧
      reader.parseArchiveAs [1] none locked = .error .badArchive) := by
  intro reader road roads empty broken locked
  have hroads : roads.documents = .ok [road] := by decide +kernel
  have hbroken : broken.documents = .ok [road, empty] := by decide +kernel
  have hlocked : locked.documents = .error .badArchive := by decide +kernel
  refine ⟨?_, ?_, hlocked, (documents_agree reader none locked).2 _ hlocked [1]⟩
  · obtain ⟨hnames, -, hparsing⟩ := (documents_agree reader none roads).1 _ hroads
    have hread : (reader.parseArchiveAs [] none roads).toBool = true := by decide +kernel
    cases hanswers : reader.parseArchiveAs [] none roads with
    | error e => simp [hanswers, Except.toBool] at hread
    | ok answers => exact ⟨hroads, hnames.symm, answers, rfl, ((hparsing []).2.1 answers).1 hanswers⟩
  · have hfails : (reader.parseArchiveAs [0, 1] none broken).toBool = false := by decide +kernel
    cases herror : reader.parseArchiveAs [0, 1] none broken with
    | ok answers => simp [herror, Except.toBool] at hfails
    | error e =>
      obtain ⟨-, -, hparsing⟩ := (documents_agree reader none broken).1 _ hbroken
      exact ⟨hbroken, e, rfl, (hparsing [0, 1]).2.2 e herror⟩

end FeatureReader

end FeatureMarkup

import Mathlib.Data.List.Nodup
import Mathlib.Data.List.Perm.Basic
import FeatureMarkup.Proofs.Batch.Places
import FeatureMarkup.Proofs.Text.Utf8

/-! Which documents are found below a directory, and in which order.

Collecting goes through the entries as they are listed and sorts the paths anew in every
directory. It goes into what it sees to be a directory, and takes for a file what cannot be looked
at. `collectAt_exact` says what this comes to: it fails if a directory that is seen does not list
its names, and else gives, each once and in ascending order, the paths of the documents in the
directories that are seen, and of the directories in them that are not seen and have the name of a
document. If every directory below can be read, these are all documents below and nothing else. -/
namespace FeatureMarkup

/-- A name is that of a document if it is a text that ends so, in any letter case. -/
def IsDocument (name : FileName) : Prop :=
  ∃ stem ending : String, name = Text.Utf8.octets (stem ++ ending) ∧
    (ending.map Char.toLower = ".gml" ∨ ending.map Char.toLower = ".xml")

theorem endsWith_map_iff {text ending : String} {f : Char → Char} :
    (text.map f).endsWith ending = true ↔
      ∃ stem kept : String, text = stem ++ kept ∧ kept.map f = ending := by
  have hsuffix : (text.map f).endsWith ending = true ↔ ending.toList <:+ (text.map f).toList := by
    rw [← String.endsWith_toSlice, String.Slice.endsWith_string_iff, String.copy_toSlice]
  rw [hsuffix, String.toList_map, List.suffix_map_iff]
  constructor
  · intro h
    obtain ⟨kept, ⟨stem, hstem⟩, hending⟩ := h
    refine ⟨.ofList stem, .ofList kept, ?_, ?_⟩
    · rw [← String.ofList_append, hstem, String.ofList_toList]
    · rw [← String.toList_inj, String.toList_map, String.toList_ofList, hending]
  · intro h
    obtain ⟨stem, kept, rfl, rfl⟩ := h
    exact ⟨kept.toList, ⟨stem.toList, String.toList_append.symm⟩, String.toList_map⟩

theorem isDocumentName_iff {text : String} :
    isDocumentName text = true ↔ ∃ stem ending : String, text = stem ++ ending ∧
      (ending.map Char.toLower = ".gml" ∨ ending.map Char.toLower = ".xml") := by
  unfold isDocumentName
  rw [Bool.or_eq_true, endsWith_map_iff, endsWith_map_iff]
  simp only [and_or_left, exists_or]

theorem isDocumentFile_iff {name : FileName} : isDocumentFile name = true ↔ IsDocument name := by
  unfold isDocumentFile IsDocument
  cases hdecode : Text.Utf8.decode? name with
  | ok text =>
    have hname := Text.Utf8.decode?_eq_ok_iff.1 hdecode
    simp only [isDocumentName_iff]
    constructor
    · intro h
      obtain ⟨stem, ending, rfl, hending⟩ := h
      exact ⟨stem, ending, hname, hending⟩
    · intro h
      obtain ⟨stem, ending, hname', hending⟩ := h
      have htext := hdecode.symm.trans (Text.Utf8.decode?_eq_ok_iff.2 hname')
      exact ⟨stem, ending, Except.ok.inj htext, hending⟩
  | error f =>
    simp only [Bool.false_eq_true, false_iff]
    intro h
    obtain ⟨stem, ending, hname, -⟩ := h
    rw [Text.Utf8.decode?_eq_ok_iff.2 hname] at hdecode
    cases hdecode

namespace FileTree
variable {t t' s root root' : FileTree} {access : Access}
  {entries entries' : List (FileName × FileTree)} {e : FileName × FileTree} {name : FileName}
  {path rest place : Path} {here paths : List Path} {content : Option (List UInt8)} {written : Nat}
  {leads : Bool}

/-! ### What is listed -/

/-- A document lies at a path. -/
def Holds (t : FileTree) (path : Path) : Prop :=
  ∃ content name, Below t path (.file content) ∧ path.getLast? = some name ∧ IsDocument name

/-- Every directory below a place can be read. -/
def Readable (root : FileTree) (place : Path) (t : FileTree) : Prop :=
  ∀ path access entries, Below t path (.directory access entries) →
    root.Sees (place ++ path) ∧ access.lists = true

/-- Every directory that is seen below a place lists its names. -/
def ListsSeen (root : FileTree) (place : Path) (t : FileTree) : Prop :=
  ∀ path access entries, Below t path (.directory access entries) → root.Sees (place ++ path) →
    access.lists = true

/-- What lies at a path below a place has the name of a document, in a directory that is seen, and
is a file or cannot be looked at. -/
def Listed (root : FileTree) (place : Path) (t : FileTree) (path : Path) : Prop :=
  ∃ s name, Below t path s ∧ path.getLast? = some name ∧ IsDocument name ∧
    root.Sees (place ++ path.dropLast) ∧ ((∃ content, s = .file content) ∨ ¬root.Sees (place ++ path))

theorem listsSeen_directory_iff (hsees : root.Sees place) :
    root.ListsSeen place (.directory access entries) ↔ access.lists = true ∧
      ∀ name t, (name, t) ∈ entries → root.ListsSeen (place ++ [name]) t := by
  constructor
  · intro h
    refine ⟨h [] access entries (.self _) (by rwa [List.append_nil]), fun name t hmem => ?_⟩
    intro path access' entries' hbelow hsees'
    rw [← List.append_cons] at hsees'
    exact h _ _ _ (.entry hmem hbelow) hsees'
  · intro h path access' entries' hbelow hsees'
    cases hbelow with
    | self => exact h.1
    | entry hmem hbelow =>
      rw [List.append_cons] at hsees'
      exact h.2 _ _ hmem _ _ _ hbelow hsees'

theorem not_listed_nil : ¬Listed root place t [] := by
  intro h
  obtain ⟨_, _, -, hlast, -⟩ := h
  cases hlast

/-- Only in a directory that is seen something is listed. -/
theorem Listed.seen (h : root.Listed place t path) :
    (∃ access entries, t = .directory access entries) ∧ root.Sees place := by
  obtain ⟨s, name, hbelow, hlast, -, hsees, -⟩ := h
  refine ⟨?_, hsees.of_append⟩
  cases hbelow with
  | self => cases hlast
  | entry => exact ⟨_, _, rfl⟩

theorem listed_directory_cons_iff (hsees : root.Sees place) :
    root.Listed place (.directory access entries) (name :: rest) ↔ ∃ t, (name, t) ∈ entries ∧
      ((rest = [] ∧ IsDocument name ∧
          ((∃ content, t = .file content) ∨ ¬root.Sees (place ++ [name]))) ∨
        root.Listed (place ++ [name]) t rest) := by
  unfold Listed
  simp only [below_directory_cons_iff]
  cases rest with
  | nil =>
    simp only [below_nil_iff, List.getLast?_singleton, Option.some.injEq, List.dropLast_singleton,
      List.append_nil]
    constructor
    · intro h
      obtain ⟨s, _, ⟨t, hmem, rfl⟩, rfl, hdocument, -, hcase⟩ := h
      exact ⟨s, hmem, .inl ⟨trivial, hdocument, hcase⟩⟩
    · intro h
      obtain ⟨t, hmem, ⟨-, hdocument, hcase⟩ | ⟨_, _, -, hlast, -⟩⟩ := h
      · exact ⟨t, name, ⟨t, hmem, rfl⟩, rfl, hdocument, hsees, hcase⟩
      · cases hlast
  | cons next rest =>
    simp only [List.getLast?_cons_cons, List.dropLast_cons_cons,
      List.append_cons place name (next :: rest), List.append_cons place name (next :: rest).dropLast]
    constructor
    · intro h
      obtain ⟨s, last, ⟨t, hmem, hbelow⟩, hlisted⟩ := h
      exact ⟨t, hmem, .inr ⟨s, last, hbelow, hlisted⟩⟩
    · intro h
      obtain ⟨t, hmem, ⟨hrest, -⟩ | ⟨s, last, hbelow, hlisted⟩⟩ := h
      · cases hrest
      · exact ⟨s, last, ⟨t, hmem, hbelow⟩, hlisted⟩

/-- Where every directory can be read, the documents are listed and nothing else. -/
theorem Readable.listed_iff (h : root.Readable place t) :
    root.Listed place t path ↔ t.Holds path := by
  constructor
  · intro hlisted
    obtain ⟨s, name, hbelow, hlast, hdocument, -, ⟨content, rfl⟩ | hunseen⟩ := hlisted
    · exact ⟨content, name, hbelow, hlast, hdocument⟩
    · cases s with
      | file content => exact ⟨content, name, hbelow, hlast, hdocument⟩
      | directory access entries => exact absurd (h _ _ _ hbelow).1 hunseen
  · intro hholds
    obtain ⟨content, name, hbelow, hlast, hdocument⟩ := hholds
    have hne : path ≠ [] := by
      intro hnil
      subst hnil
      cases hlast
    obtain ⟨access, entries, hdirectory⟩ := hbelow.dropLast hne
    exact ⟨_, name, hbelow, hlast, hdocument, (h _ _ _ hdirectory).1, .inl ⟨content, rfl⟩⟩

theorem Readable.listsSeen (h : root.Readable place t) : root.ListsSeen place t :=
  fun path access entries hbelow _ => (h path access entries hbelow).2

/-! ### What is collected -/

theorem collect_directory_eq_ok :
    collect written (.directory access entries) = .ok paths ↔ access.lists = true ∧
      ∃ found, collectEntries written access.leads entries = .ok found ∧
        found.mergeSort (fun a b => decide (a ≤ b)) = paths := by
  rw [collect]
  cases access.lists with
  | false => simp
  | true => simp [exceptBind_eq_ok, pure, Except.pure]

theorem collectEntry_eq_ok_of_seen
    (hseen : seenAsDirectory leads (written + 1 + name.length) t = true) :
    collectEntry written leads (name, t) = .ok here ↔
      ∃ paths, t.collect (written + 1 + name.length) = .ok paths ∧ paths.map (name :: ·) = here := by
  simp only [collectEntry, hseen, if_true, exceptMap_eq_ok]

theorem collectEntry_of_not_seen
    (hseen : seenAsDirectory leads (written + 1 + name.length) t = false) :
    collectEntry written leads (name, t) = .ok (if isDocumentFile name then [[name]] else []) := by
  simp only [collectEntry, hseen]
  rfl

theorem collectEntries_cons_eq_ok {rest : List (FileName × FileTree)} :
    collectEntries written leads (e :: rest) = .ok paths ↔ ∃ here later,
      collectEntry written leads e = .ok here ∧ collectEntries written leads rest = .ok later ∧
        here ++ later = paths := by
  simp only [collectEntries, exceptBind_eq_ok, pure, Except.pure, Except.ok.injEq, exists_and_left]

theorem exists_collectEntries_iff :
    (∃ paths, collectEntries written leads entries = .ok paths) ↔
      ∀ e ∈ entries, ∃ here, collectEntry written leads e = .ok here := by
  induction entries with
  | nil => simp [collectEntries, pure, Except.pure]
  | cons e rest ih =>
    rw [List.forall_mem_cons, ← ih]
    simp only [collectEntries_cons_eq_ok]
    constructor
    · intro h
      obtain ⟨_, here, later, hhere, hlater, -⟩ := h
      exact ⟨⟨here, hhere⟩, later, hlater⟩
    · intro h
      obtain ⟨⟨here, hhere⟩, later, hlater⟩ := h
      exact ⟨_, here, later, hhere, hlater, rfl⟩

theorem mem_collectEntries_iff (h : collectEntries written leads entries = .ok paths) :
    path ∈ paths ↔ ∃ e ∈ entries, ∃ here, collectEntry written leads e = .ok here ∧ path ∈ here := by
  induction entries generalizing paths with
  | nil =>
    obtain rfl : [] = paths := Except.ok.inj h
    simp
  | cons e rest ih =>
    obtain ⟨here, later, hhere, hlater, rfl⟩ := collectEntries_cons_eq_ok.1 h
    rw [List.mem_append, ih hlater, List.exists_mem_cons_iff]
    constructor
    · intro hpath
      rcases hpath with hmem | hmem
      · exact .inl ⟨here, hhere, hmem⟩
      · exact .inr hmem
    · intro hpath
      rcases hpath with ⟨here', hhere', hmem⟩ | hmem
      · obtain rfl := Except.ok.inj (hhere.symm.trans hhere')
        exact .inl hmem
      · exact .inr hmem

section Entry
variable (hplace : root.locate? place = some (.directory access entries))
  (hnamed : WellNamed (.directory access entries)) (hmem : (name, t) ∈ entries)
include hplace hnamed hmem

/-- An entry fails only by a directory that is seen and does not list its names. -/
theorem exists_collectEntry_iff
    (ih : root.locate? (place ++ [name]) = some t →
      ((∃ paths, t.collect (place ++ [name]).writtenLength = .ok paths) ↔
        (∃ access entries, t = .directory access entries) ∧ root.ListsSeen (place ++ [name]) t)) :
    (∃ here, collectEntry place.writtenLength access.leads (name, t) = .ok here) ↔
      root.ListsSeen (place ++ [name]) t := by
  have hnames := (wellNamed_directory_iff.1 hnamed).1
  cases h : seenAsDirectory access.leads (place.writtenLength + 1 + name.length) t with
  | true =>
    obtain ⟨hdirectory, hsees⟩ := (seenAsDirectory_iff hplace hnames hmem).1 h
    have hcollect := ih (locate?_below hplace hnamed (.entry hmem (.self t)) hsees)
    rw [and_iff_right hdirectory, Path.writtenLength_append, Path.writtenLength_single,
      ← Nat.add_assoc] at hcollect
    rw [← hcollect]
    simp only [collectEntry_eq_ok_of_seen h]
    constructor
    · intro hhere
      obtain ⟨_, paths, hpaths, -⟩ := hhere
      exact ⟨paths, hpaths⟩
    · intro hpaths
      obtain ⟨paths, hpaths⟩ := hpaths
      exact ⟨_, paths, hpaths, rfl⟩
  | false =>
    refine iff_of_true ⟨_, collectEntry_of_not_seen h⟩ fun path access' entries' hbelow hsees => ?_
    rcases (not_seenAsDirectory_iff hplace hnames hmem).1 h with ⟨content, rfl⟩ | hunseen
    · cases (below_file_iff.1 hbelow).2
    · exact absurd hsees.of_append hunseen

/-- An entry gives its own path if it is listed itself, and those that are listed below it. -/
theorem mem_collectEntry_iff (path : Path)
    (ih : ∀ paths path, root.locate? (place ++ [name]) = some t →
      t.collect (place ++ [name]).writtenLength = .ok paths →
        (path ∈ paths ↔ root.Listed (place ++ [name]) t path))
    (h : collectEntry place.writtenLength access.leads (name, t) = .ok here) :
    path ∈ here ↔ ∃ rest, path = name :: rest ∧
      ((rest = [] ∧ IsDocument name ∧
          ((∃ content, t = .file content) ∨ ¬root.Sees (place ++ [name]))) ∨
        root.Listed (place ++ [name]) t rest) := by
  have hnames := (wellNamed_directory_iff.1 hnamed).1
  have hseen := seenAsDirectory_iff hplace hnames hmem
  cases hdirectory : seenAsDirectory access.leads (place.writtenLength + 1 + name.length) t with
  | true =>
    obtain ⟨⟨_, _, rfl⟩, hsees⟩ := hseen.1 hdirectory
    obtain ⟨paths, hpaths, rfl⟩ := (collectEntry_eq_ok_of_seen hdirectory).1 h
    rw [Nat.add_assoc, ← Path.writtenLength_single, ← Path.writtenLength_append] at hpaths
    have hlisted := fun rest => ih paths rest
      (locate?_below hplace hnamed (.entry hmem (.self _)) hsees) hpaths
    rw [List.mem_map]
    constructor
    · intro hpath
      obtain ⟨rest, hrest, rfl⟩ := hpath
      exact ⟨rest, rfl, .inr ((hlisted rest).1 hrest)⟩
    · intro hpath
      obtain ⟨rest, rfl, ⟨-, -, ⟨_, hfile⟩ | hunseen⟩ | hrest⟩ := hpath
      · cases hfile
      · exact absurd hsees hunseen
      · exact ⟨rest, (hlisted rest).2 hrest, rfl⟩
  | false =>
    obtain rfl := Except.ok.inj (h.symm.trans (collectEntry_of_not_seen hdirectory))
    have hfile := (not_seenAsDirectory_iff hplace hnames hmem).1 hdirectory
    rw [List.mem_ite_nil_right, List.mem_singleton, isDocumentFile_iff]
    constructor
    · intro hpath
      obtain ⟨hdocument, rfl⟩ := hpath
      exact ⟨[], rfl, .inl ⟨rfl, hdocument, hfile⟩⟩
    · intro hpath
      obtain ⟨rest, rfl, ⟨rfl, hdocument, -⟩ | hlisted⟩ := hpath
      · exact ⟨hdocument, rfl⟩
      · cases hdirectory.symm.trans (hseen.2 hlisted.seen)

end Entry

/-- Collecting succeeds just if the directories that are seen list their names. -/
theorem exists_collect_iff (hplace : root.locate? place = some t) (hnamed : t.WellNamed) :
    (∃ paths, t.collect place.writtenLength = .ok paths) ↔
      (∃ access entries, t = .directory access entries) ∧ root.ListsSeen place t := by
  induction t using byEntries generalizing place with
  | file content => simp [collect]
  | directory access entries ih =>
    have hentries := (wellNamed_directory_iff.1 hnamed).2
    have hentry : ∀ e ∈ entries,
        ((∃ here, collectEntry place.writtenLength access.leads e = .ok here) ↔
          root.ListsSeen (place ++ [e.1]) e.2) := by
      intro e hmem
      exact exists_collectEntry_iff hplace hnamed hmem fun hplace' =>
        ih e.1 e.2 hmem hplace' (hentries e hmem)
    rw [listsSeen_directory_iff ⟨_, hplace⟩, and_iff_right ⟨access, entries, rfl⟩]
    simp only [collect_directory_eq_ok, exists_and_left]
    constructor
    · intro hpaths
      obtain ⟨hlists, _, found, hfound, -⟩ := hpaths
      refine ⟨hlists, fun name t hmem => (hentry _ hmem).1 ?_⟩
      exact exists_collectEntries_iff.1 ⟨found, hfound⟩ _ hmem
    · intro hlists
      obtain ⟨hlists, hall⟩ := hlists
      obtain ⟨found, hfound⟩ := exists_collectEntries_iff.2 fun e hmem =>
        (hentry e hmem).2 (hall e.1 e.2 hmem)
      exact ⟨hlists, _, found, hfound, rfl⟩

/-- What is collected is what is listed. -/
theorem mem_collect_iff (hplace : root.locate? place = some t) (hnamed : t.WellNamed)
    (h : t.collect place.writtenLength = .ok paths) : path ∈ paths ↔ root.Listed place t path := by
  induction t using byEntries generalizing place paths path with
  | file content => simp [collect] at h
  | directory access entries ih =>
    have hentries := (wellNamed_directory_iff.1 hnamed).2
    have hentry {name t here} (hmem : (name, t) ∈ entries)
        (hhere : collectEntry place.writtenLength access.leads (name, t) = .ok here) :=
      mem_collectEntry_iff hplace hnamed hmem path
        (fun paths path hplace' => ih name t hmem hplace' (hentries _ hmem)) hhere
    obtain ⟨-, found, hfound, rfl⟩ := collect_directory_eq_ok.1 h
    rw [List.mem_mergeSort, mem_collectEntries_iff hfound]
    constructor
    · intro hpath
      obtain ⟨⟨name, t⟩, hmem, here, hhere, hpath⟩ := hpath
      obtain ⟨rest, rfl, hlisted⟩ := (hentry hmem hhere).1 hpath
      exact (listed_directory_cons_iff ⟨_, hplace⟩).2 ⟨t, hmem, hlisted⟩
    · intro hlisted
      obtain _ | ⟨name, rest⟩ := path
      · exact absurd hlisted not_listed_nil
      · obtain ⟨t, hmem, hlisted⟩ := (listed_directory_cons_iff ⟨_, hplace⟩).1 hlisted
        obtain ⟨here, hhere⟩ := exists_collectEntries_iff.1 ⟨found, hfound⟩ _ hmem
        exact ⟨_, hmem, here, hhere, (hentry hmem hhere).2 ⟨rest, rfl, hlisted⟩⟩

/-! ### In which order -/

theorem exists_rest_of_collectEntry (h : collectEntry written leads (name, t) = .ok here)
    (hmem : path ∈ here) : ∃ rest, path = name :: rest := by
  cases hseen : seenAsDirectory leads (written + 1 + name.length) t with
  | true =>
    obtain ⟨paths, -, rfl⟩ := (collectEntry_eq_ok_of_seen hseen).1 h
    obtain ⟨rest, -, rfl⟩ := List.mem_map.1 hmem
    exact ⟨rest, rfl⟩
  | false =>
    obtain rfl := Except.ok.inj (h.symm.trans (collectEntry_of_not_seen hseen))
    obtain ⟨-, hpath⟩ := List.mem_ite_nil_right.1 hmem
    exact ⟨[], List.mem_singleton.1 hpath⟩

theorem nodup_collectEntry (h : collectEntry written leads (name, t) = .ok here)
    (ht : ∀ written paths, t.collect written = .ok paths → paths.Nodup) : here.Nodup := by
  cases hseen : seenAsDirectory leads (written + 1 + name.length) t with
  | true =>
    obtain ⟨paths, hpaths, rfl⟩ := (collectEntry_eq_ok_of_seen hseen).1 h
    exact List.Nodup.map List.cons_injective (ht _ _ hpaths)
  | false =>
    obtain rfl := Except.ok.inj (h.symm.trans (collectEntry_of_not_seen hseen))
    split <;> simp

/-- Entries with different names give different paths. -/
theorem nodup_collectEntries (hnames : (entries.map (·.1)).Nodup)
    (ht : ∀ name t, (name, t) ∈ entries → ∀ written paths, t.collect written = .ok paths → paths.Nodup)
    (h : collectEntries written leads entries = .ok paths) : paths.Nodup := by
  induction entries generalizing paths with
  | nil =>
    obtain rfl : [] = paths := Except.ok.inj h
    exact List.nodup_nil
  | cons e rest ih =>
    obtain ⟨name, t⟩ := e
    obtain ⟨here, later, hhere, hlater, rfl⟩ := collectEntries_cons_eq_ok.1 h
    obtain ⟨hfresh, hnames⟩ := List.nodup_cons.1 hnames
    refine List.nodup_append.2 ⟨nodup_collectEntry hhere (ht name t List.mem_cons_self), ?_, ?_⟩
    · exact ih hnames (fun name t hmem => ht name t (List.mem_cons_of_mem _ hmem)) hlater
    · intro path hmem path' hmem' heq
      subst heq
      obtain ⟨⟨name', t'⟩, hentry, here', hhere', hmem'⟩ := (mem_collectEntries_iff hlater).1 hmem'
      obtain ⟨_, rfl⟩ := exists_rest_of_collectEntry hhere hmem
      obtain ⟨_, heq⟩ := exists_rest_of_collectEntry hhere' hmem'
      obtain ⟨rfl, -⟩ := List.cons.inj heq
      exact hfresh (List.mem_map.2 ⟨_, hentry, rfl⟩)

theorem nodup_collect (hnamed : t.WellNamed) (h : t.collect written = .ok paths) : paths.Nodup := by
  induction t using byEntries generalizing written paths with
  | file content => simp [collect] at h
  | directory access entries ih =>
    obtain ⟨hnames, hentries⟩ := wellNamed_directory_iff.1 hnamed
    obtain ⟨-, found, hfound, rfl⟩ := collect_directory_eq_ok.1 h
    rw [(List.mergeSort_perm _ _).nodup_iff]
    exact nodup_collectEntries hnames.nodup
      (fun name t hmem _ _ hpaths => ih name t hmem (hentries _ hmem) hpaths) hfound

theorem pairwise_le_mergeSort (paths : List Path) :
    (paths.mergeSort fun a b => decide (a ≤ b)).Pairwise (· ≤ ·) := by
  have hsorted : (paths.mergeSort fun a b => decide (a ≤ b)).Pairwise
      (fun a b => decide (a ≤ b) = true) := by
    refine List.pairwise_mergeSort (fun a b c hab hbc => ?_) (fun a b => ?_) paths
    · simpa using List.le_trans (of_decide_eq_true hab) (of_decide_eq_true hbc)
    · simpa using List.le_total a b
  simpa using hsorted

/-- What is collected is in strictly ascending order. -/
theorem pairwise_collect (hnamed : t.WellNamed) (h : t.collect written = .ok paths) :
    paths.Pairwise (· < ·) := by
  have hnodup := nodup_collect hnamed h
  cases t with
  | file content => simp [collect] at h
  | directory access entries =>
    obtain ⟨-, found, -, rfl⟩ := collect_directory_eq_ok.1 h
    exact (pairwise_le_mergeSort found).imp₂ (fun a b hle hne => Std.lt_of_le_of_ne hle hne) hnodup

/-! ### Whatever the listing -/

theorem mergeSort_eq_of_perm {paths' : List Path} (h : paths.Perm paths') :
    paths.mergeSort (fun a b => decide (a ≤ b)) = paths'.mergeSort (fun a b => decide (a ≤ b)) := by
  refine List.Perm.eq_of_pairwise (fun a b _ _ hab hba => List.le_antisymm hab hba)
    (pairwise_le_mergeSort paths) (pairwise_le_mergeSort paths') ?_
  exact (List.mergeSort_perm _ _).trans (h.trans (List.mergeSort_perm _ _).symm)

theorem perm_of_mergeSort_eq {paths' : List Path}
    (h : paths.mergeSort (fun a b => decide (a ≤ b)) = paths'.mergeSort (fun a b => decide (a ≤ b))) :
    paths.Perm paths' := by
  have hsorted := List.mergeSort_perm paths fun a b => decide (a ≤ b)
  rw [h] at hsorted
  exact hsorted.symm.trans (List.mergeSort_perm _ _)

theorem Rearranged.seenAsDirectory_eq (h : Rearranged t t') :
    seenAsDirectory leads written t' = seenAsDirectory leads written t := by
  cases t with
  | file content => rw [h.eq_file rfl]
  | directory access entries =>
    obtain ⟨_, rfl, -⟩ := h.eq_directory rfl
    rfl

theorem collectEntry_rearranged (h : Rearranged t t')
    (ht : ∀ {written paths}, t.collect written = .ok paths → t'.collect written = .ok paths)
    (hhere : collectEntry written leads (name, t) = .ok here) :
    collectEntry written leads (name, t') = .ok here := by
  cases hseen : seenAsDirectory leads (written + 1 + name.length) t with
  | true =>
    obtain ⟨paths, hpaths, rfl⟩ := (collectEntry_eq_ok_of_seen hseen).1 hhere
    exact (collectEntry_eq_ok_of_seen (h.seenAsDirectory_eq.trans hseen)).2 ⟨paths, ht hpaths, rfl⟩
  | false =>
    rw [← hhere, collectEntry_of_not_seen hseen,
      collectEntry_of_not_seen (h.seenAsDirectory_eq.trans hseen)]

/-- What is collected under one listing is collected under every other. -/
theorem collect_eq_ok_of_rearranged (h : Rearranged t t') (hpaths : t.collect written = .ok paths) :
    t'.collect written = .ok paths := by
  induction h generalizing written paths with
  | refl => exact hpaths
  | swap access a b rest =>
    obtain ⟨hlists, found, hfound, rfl⟩ := collect_directory_eq_ok.1 hpaths
    obtain ⟨here, _, hhere, hrest, rfl⟩ := collectEntries_cons_eq_ok.1 hfound
    obtain ⟨next, later, hnext, hlater, rfl⟩ := collectEntries_cons_eq_ok.1 hrest
    have hfound' : collectEntries written access.leads (b :: a :: rest) =
        .ok (next ++ (here ++ later)) :=
      collectEntries_cons_eq_ok.2 ⟨next, _, hnext,
        collectEntries_cons_eq_ok.2 ⟨here, later, hhere, hlater, rfl⟩, rfl⟩
    refine collect_directory_eq_ok.2 ⟨hlists, _, hfound', mergeSort_eq_of_perm ?_⟩
    rw [← List.append_assoc, ← List.append_assoc]
    exact List.perm_append_comm.append_right later
  | @entry access name t t' rest rest' hsame _ ih ih' =>
    obtain ⟨hlists, found, hfound, rfl⟩ := collect_directory_eq_ok.1 hpaths
    obtain ⟨here, later, hhere, hlater, rfl⟩ := collectEntries_cons_eq_ok.1 hfound
    obtain ⟨-, later', hlater', hsorted⟩ :=
      collect_directory_eq_ok.1 (ih' (collect_directory_eq_ok.2 ⟨hlists, later, hlater, rfl⟩))
    have hfound' : collectEntries written access.leads ((name, t') :: rest') = .ok (here ++ later') :=
      collectEntries_cons_eq_ok.2 ⟨here, later', collectEntry_rearranged hsame ih hhere, hlater', rfl⟩
    refine collect_directory_eq_ok.2 ⟨hlists, _, hfound', mergeSort_eq_of_perm ?_⟩
    exact (perm_of_mergeSort_eq hsorted).append_left here
  | trans _ _ ih ih' => exact ih' (ih hpaths)

theorem collectEntries_eq_error {err : ReadError}
    (ht : ∀ name t, (name, t) ∈ entries → ∀ {written err}, t.collect written = .error err →
      err = .inaccessible)
    (h : collectEntries written leads entries = .error err) : err = .inaccessible := by
  induction entries with
  | nil => cases h
  | cons e rest ih =>
    rw [collectEntries, exceptBind_eq_error] at h
    rcases h with hhere | ⟨here, -, h⟩
    · rw [collectEntry] at hhere
      split at hhere
      · exact ht _ _ List.mem_cons_self (exceptMap_eq_error.1 hhere)
      · cases hhere
    · rcases exceptBind_eq_error.1 h with hlater | ⟨_, -, h⟩
      · exact ih (fun name t hmem => ht name t (List.mem_cons_of_mem _ hmem)) hlater
      · cases h

/-- There is one way to fail. -/
theorem collect_eq_error {err : ReadError} (h : t.collect written = .error err) :
    err = .inaccessible := by
  induction t using byEntries generalizing written err with
  | file content => exact (Except.error.inj h).symm
  | directory access entries ih =>
    rw [collect] at h
    split at h
    · rcases exceptBind_eq_error.1 h with hfound | ⟨_, -, h⟩
      · exact collectEntries_eq_error ih hfound
      · cases h
    · exact (Except.error.inj h).symm

/-- Another listing gives the same. -/
theorem collect_rearranged (h : Rearranged t t') : t'.collect written = t.collect written := by
  cases hfound : t.collect written with
  | ok paths => exact collect_eq_ok_of_rearranged h hfound
  | error err =>
    cases hfound' : t'.collect written with
    | ok paths => cases hfound.symm.trans (collect_eq_ok_of_rearranged h.symm hfound')
    | error err' => rw [collect_eq_error hfound, collect_eq_error hfound']

/-! ### From the place of a directory -/

theorem collectAt_of_locate? (h : root.locate? path = some t) :
    root.collectAt path = List.map (path.stem ++ ·) <$> t.collect path.stem.writtenLength := by
  rw [collectAt, h]

/-- If every directory that is seen lists its names, then what is listed is collected, in strictly
ascending order. -/
theorem exists_collectAt (hpath : root.locate? path = some t) (hnamed : t.WellNamed)
    (hdirectory : ∃ access entries, t = .directory access entries)
    (hlists : root.ListsSeen path.stem t) :
    ∃ paths, root.collectAt path = .ok paths ∧ paths.Pairwise (· < ·) ∧
      ∀ found, found ∈ paths ↔ ∃ rest, found = path.stem ++ rest ∧ root.Listed path.stem t rest := by
  obtain ⟨access, entries, rfl⟩ := hdirectory
  have hplace := locate?_stem hpath
  obtain ⟨paths, hpaths⟩ := (exists_collect_iff hplace hnamed).2 ⟨⟨access, entries, rfl⟩, hlists⟩
  refine ⟨paths.map (path.stem ++ ·), ?_, ?_, fun found => ?_⟩
  · rw [collectAt_of_locate? hpath, hpaths]
    rfl
  · exact (pairwise_collect hnamed hpaths).map _ fun a b => List.append_left_lt
  · simp only [List.mem_map, mem_collect_iff hplace hnamed hpaths, eq_comm (a := found),
      and_comm (b := _ = found)]

/-- If a directory that is seen does not list its names, nothing is collected. -/
theorem collectAt_eq_error (hpath : root.locate? path = some t) (hnamed : t.WellNamed)
    (hdirectory : ∃ access entries, t = .directory access entries)
    (hlists : ¬root.ListsSeen path.stem t) : root.collectAt path = .error .inaccessible := by
  obtain ⟨access, entries, rfl⟩ := hdirectory
  rw [collectAt_of_locate? hpath]
  cases hfound : collect path.stem.writtenLength (.directory access entries) with
  | ok paths =>
    exact absurd ((exists_collect_iff (locate?_stem hpath) hnamed).1 ⟨paths, hfound⟩).2 hlists
  | error err => rw [exceptMap_eq_error, collect_eq_error hfound]

theorem collectAt_rearranged (hpath : root.locate? path = some t)
    (hpath' : root'.locate? path = some t') (h : Rearranged t t') :
    root'.collectAt path = root.collectAt path := by
  rw [collectAt_of_locate? hpath, collectAt_of_locate? hpath', collect_rearranged h]

end FileTree

namespace FeatureReader
open FileTree
variable {κ : Type} {r : FeatureReader κ} {srs : Option String} {root root' tree tree' : FileTree}
  {place dir : Path} {paths : List Path}

/-! ### The documents that are read -/

/-- An answer is what the content of the file at a path is read as, or that the path cannot be
opened. -/
def Answers (r : FeatureReader κ) (srs : Option String) (root : FileTree) (place : Path)
    (tree : FileTree) (path : Path) (answer : Path × Except ReadError (Document κ)) : Prop :=
  ∃ rest s, path = place ++ rest ∧ Below tree rest s ∧
    ((∃ content, s = .file (some content) ∧ root.Sees path ∧ answer = (path, r.parse srs content)) ∨
      ((s = .file none ∨ ¬root.Sees path) ∧ answer = (path, .error .inaccessible)))

theorem answers_of_listed {rest : Path} (hplace : root.locate? place = some tree)
    (hnamed : tree.WellNamed) (h : root.Listed place tree rest) :
    r.Answers srs root place tree (place ++ rest)
      (place ++ rest, r.parseEntry srs (root.locate? (place ++ rest))) := by
  obtain ⟨s, name, hbelow, -, -, -, hcase⟩ := h
  refine ⟨rest, s, rfl, hbelow, ?_⟩
  by_cases hsees : root.Sees (place ++ rest)
  · rw [locate?_below hplace hnamed hbelow hsees]
    obtain ⟨content, rfl⟩ := hcase.resolve_right (not_not_intro hsees)
    cases content with
    | none => exact .inr ⟨.inl rfl, rfl⟩
    | some content => exact .inl ⟨content, rfl, hsees, rfl⟩
  · rw [not_sees_iff.1 hsees]
    exact .inr ⟨.inr hsees, rfl⟩

theorem parseEntry_rearranged {s s' : FileTree} (h : Rearranged s s') :
    r.parseEntry srs (some s') = r.parseEntry srs (some s) := by
  cases s with
  | file content => rw [h.eq_file rfl]
  | directory access entries =>
    obtain ⟨_, rfl, -⟩ := h.eq_directory rfl
    obtain ⟨_ | _, leads⟩ := access <;> rfl

theorem parseDirectory_of_collectAt (h : root.collectAt dir = .ok paths) :
    r.parseDirectory srs root dir = .ok (r.parseFiles srs root paths) := by
  rw [parseDirectory, h]
  rfl

theorem parseDirectory_of_error {err : ReadError} (h : root.collectAt dir = .error err) :
    r.parseDirectory srs root dir = .error err := by
  rw [parseDirectory, h]
  rfl

/-- What is listed is read to the same under every listing. -/
theorem parseFiles_rearranged (hplace : root.locate? place = some tree)
    (hplace' : root'.locate? place = some tree') (hsame : Rearranged tree tree')
    (hnamed : tree.WellNamed)
    (hlisted : ∀ path ∈ paths, ∃ rest, path = place ++ rest ∧ root.Listed place tree rest) :
    r.parseFiles srs root' paths = r.parseFiles srs root paths := by
  refine List.map_congr_left fun path hmem => ?_
  obtain ⟨rest, rfl, s, -, hbelow, -⟩ := hlisted path hmem
  rcases locate?_rearranged hplace hplace' hsame hnamed hbelow with ⟨h, h'⟩ | ⟨s', h, h', hs⟩
  · rw [h, h']
  · rw [h, h', parseEntry_rearranged hs]

/-- If every directory that is seen lists its names, the paths that are listed are collected, in
strictly ascending order, and each is read as its own content is, or not opened, whatever becomes
of the others. If one does not, nothing is collected. If all directories below can be read, then
all are seen and list their names, and the paths that are listed are those of the documents below.
The order in which directories list their entries changes none of this. -/
theorem collectAt_exact (r : FeatureReader κ) (srs : Option String)
    (hdir : root.locate? dir = some tree) (hdirectory : ∀ content, tree ≠ .file content)
    (hnamed : tree.WellNamed) :
    (root.ListsSeen dir.stem tree → ∃ paths, root.collectAt dir = .ok paths ∧
      paths.Pairwise (· < ·) ∧
      (∀ path, path ∈ paths ↔ ∃ rest, path = dir.stem ++ rest ∧ root.Listed dir.stem tree rest) ∧
      ∃ answers, r.parseDirectory srs root dir = .ok answers ∧
        List.Forall₂ (r.Answers srs root dir.stem tree) paths answers) ∧
    (¬root.ListsSeen dir.stem tree → root.collectAt dir = .error .inaccessible ∧
      r.parseDirectory srs root dir = .error .inaccessible) ∧
    (root.Readable dir.stem tree → root.ListsSeen dir.stem tree ∧
      ∀ rest, root.Listed dir.stem tree rest ↔ tree.Holds rest) ∧
    ∀ root' tree', Rearranged tree tree' → root'.locate? dir = some tree' →
      root'.collectAt dir = root.collectAt dir ∧
        r.parseDirectory srs root' dir = r.parseDirectory srs root dir := by
  obtain ⟨access, entries, rfl⟩ : ∃ access entries, tree = .directory access entries := by
    cases tree with
    | file content => exact absurd rfl (hdirectory content)
    | directory access entries => exact ⟨access, entries, rfl⟩
  have hplace := locate?_stem hdir
  refine ⟨fun hlists => ?_, fun hlists => ?_, fun hreadable => ?_, ?_⟩
  · obtain ⟨paths, hpaths, hsorted, hmem⟩ := exists_collectAt hdir hnamed ⟨_, _, rfl⟩ hlists
    refine ⟨paths, hpaths, hsorted, hmem, _, parseDirectory_of_collectAt hpaths, ?_⟩
    rw [parseFiles, List.forall₂_map_right_iff, List.forall₂_same]
    intro path hpath
    obtain ⟨rest, rfl, hlisted⟩ := (hmem path).1 hpath
    exact answers_of_listed hplace hnamed hlisted
  · have herror := collectAt_eq_error hdir hnamed ⟨_, _, rfl⟩ hlists
    exact ⟨herror, parseDirectory_of_error herror⟩
  · exact ⟨hreadable.listsSeen, fun rest => hreadable.listed_iff⟩
  · intro root' tree' hsame hdir'
    have hcollect := collectAt_rearranged hdir hdir' hsame
    refine ⟨hcollect, ?_⟩
    by_cases hlists : root.ListsSeen dir.stem (.directory access entries)
    · obtain ⟨paths, hpaths, -, hmem⟩ := exists_collectAt hdir hnamed ⟨_, _, rfl⟩ hlists
      obtain ⟨entries', rfl, -⟩ := hsame.eq_directory rfl
      rw [parseDirectory_of_collectAt hpaths, parseDirectory_of_collectAt (hcollect.trans hpaths),
        parseFiles_rearranged hplace (locate?_stem hdir') hsame hnamed fun path => (hmem path).1]
    · have herror := collectAt_eq_error hdir hnamed ⟨_, _, rfl⟩ hlists
      rw [parseDirectory_of_error herror, parseDirectory_of_error (hcollect.trans herror)]

/-- A document in a directory with the name of one, between a file that is none and a document
that cannot be opened. -/
theorem collectAt_exact_maps :
    let data := Text.Utf8.octets "data"
    let maps := Text.Utf8.octets "maps.xml"
    let road := Text.Utf8.octets "road.GML"
    let sealed := Text.Utf8.octets "sealed.gml"
    let tree : FileTree := .directory .full [(Text.Utf8.octets "notes.txt", .file (some [])),
      (maps, .directory .full [(road, .file (some []))]), (sealed, .file none)]
    let root : FileTree := .directory .full [(data, tree)]
    let reader : FeatureReader Unit := .ofSchema ⟨[], []⟩
    root.locate? [data] = some tree ∧ (∀ content, tree ≠ .file content) ∧ tree.WellNamed ∧
      root.ListsSeen [data] tree ∧ ∃ paths, root.collectAt [data] = .ok paths ∧
        [data, maps, road] ∈ paths ∧ [data, sealed] ∈ paths ∧
        ∃ answers, reader.parseDirectory none root [data] = .ok answers ∧
          List.Forall₂ (reader.Answers none root [data] tree) paths answers := by
  intro data maps road sealed tree root reader
  have hdir : root.locate? [data] = some tree := rfl
  have hdirectory : ∀ content, tree ≠ .file content := nofun
  have hnamed : tree.WellNamed := by
    have hmaps : WellNamed (.directory .full [(road, .file (some []))]) := by
      refine wellNamed_directory_iff.2 ⟨⟨by decide +kernel, by decide +kernel⟩, ?_⟩
      simp [wellNamed_file]
    refine wellNamed_directory_iff.2 ⟨⟨by decide +kernel, by decide +kernel⟩, ?_⟩
    simp [wellNamed_file, hmaps]
  obtain ⟨hlisted, hrefused, -⟩ := collectAt_exact reader none hdir hdirectory hnamed
  have hlists : root.ListsSeen [data] tree := by
    by_contra hlists
    have hfound : (root.collectAt [data]).toBool = true := by decide +kernel
    rw [(hrefused hlists).1] at hfound
    cases hfound
  obtain ⟨paths, hpaths, -, hmem, hanswers⟩ := hlisted hlists
  refine ⟨hdir, hdirectory, hnamed, hlists, paths, hpaths, ?_, ?_, hanswers⟩
  · have hbelow : Below tree [maps, road] (.file (some [])) :=
      .entry (List.mem_cons_of_mem _ List.mem_cons_self) (.entry List.mem_cons_self (.self _))
    exact (hmem _).2 ⟨[maps, road], rfl, _, road, hbelow, rfl,
      isDocumentFile_iff.1 (by decide +kernel), ⟨_, rfl⟩, .inl ⟨_, rfl⟩⟩
  · have hbelow : Below tree [sealed] (.file none) :=
      .entry (List.mem_cons_of_mem _ (List.mem_cons_of_mem _ List.mem_cons_self)) (.self _)
    exact (hmem _).2 ⟨[sealed], rfl, _, sealed, hbelow, rfl,
      isDocumentFile_iff.1 (by decide +kernel), ⟨_, rfl⟩, .inl ⟨_, rfl⟩⟩

/-- A directory whose names are listed but not followed: it is not gone further down, and a
directory in it is taken for a document. Then directories that allow everything, below a path that
winds: the one at a path that is too long is passed over with the document in it. -/
theorem collectAt_overlooks_tiles :
    let data := Text.Utf8.octets "data"
    let sub := Text.Utf8.octets "sub"
    let road := Text.Utf8.octets "road.gml"
    let tiles := Text.Utf8.octets "tiles.gml"
    let far := Text.Utf8.octets "far-tracks"
    let roads : FileTree := .directory .full [(road, .file (some []))]
    let unled : FileTree := .directory ⟨true, false⟩ [(sub, roads), (tiles, .directory .full [])]
    let root : FileTree := .directory .full [(data, unled)]
    let winding : Path := (List.replicate 292 [far, [0x2E, 0x2E]]).flatten
    let free : FileTree := .directory .full [(far, roads)]
    (root.locate? [data] = some unled ∧ unled.WellNamed ∧ unled.Holds [sub, road] ∧
      ¬root.Readable [data] unled ∧ root.collectAt [data] = .ok [[data, tiles]]) ∧
    (free.locate? winding = some free ∧ free.WellNamed ∧ free.Holds [far, road] ∧
      ¬free.Readable winding free ∧ free.collectAt winding = .ok []) := by
  intro data sub road tiles far roads unled root winding free
  have hroads : roads.WellNamed := by
    refine wellNamed_directory_iff.2 ⟨⟨by decide +kernel, by decide +kernel⟩, ?_⟩
    simp [wellNamed_file]
  have hempty : WellNamed (.directory .full []) := by
    refine wellNamed_directory_iff.2 ⟨⟨by decide +kernel, by decide +kernel⟩, ?_⟩
    simp
  have hroad : IsDocument road := isDocumentFile_iff.1 (by decide +kernel)
  refine ⟨⟨rfl, ?_, ?_, ?_, by decide +kernel⟩, ?_, ?_, ?_, ?_, by decide +kernel⟩
  · refine wellNamed_directory_iff.2 ⟨⟨by decide +kernel, by decide +kernel⟩, ?_⟩
    simp [hroads, hempty]
  · exact ⟨_, road, .entry List.mem_cons_self (.entry List.mem_cons_self (.self _)), rfl, hroad⟩
  · intro hreadable
    have hbelow : Below unled [sub] roads := .entry List.mem_cons_self (.self _)
    exact not_sees_iff.2 rfl (hreadable _ _ _ hbelow).1
  · exact locate?_eq_some_iff.2 ⟨by decide +kernel, _, Location.walk?_replicate rfl 292, rfl⟩
  · refine wellNamed_directory_iff.2 ⟨⟨by decide +kernel, by decide +kernel⟩, ?_⟩
    simp [hroads]
  · exact ⟨_, road, .entry List.mem_cons_self (.entry List.mem_cons_self (.self _)), rfl, hroad⟩
  · intro hreadable
    have hbelow : Below free [far] roads := .entry List.mem_cons_self (.self _)
    have hlong : free.locate? (winding ++ [far]) = none := if_neg (by decide +kernel)
    exact not_sees_iff.2 hlong (hreadable _ _ _ hbelow).1

end FeatureReader

end FeatureMarkup

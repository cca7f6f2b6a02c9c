import FeatureMarkup.Batch.Documents

/-! What lies below a directory, and what of it can be looked at.

`Below` says what lies at a path of names, whatever directories allow and in whatever order they
list their entries. Whether it can also be looked at by the written path, `Sees`, is decided one
name at a time: `locate?_entry` says what one more name does, and `locate?_below` that what is
seen below a directory is what lies there. Trees that differ in the order of their entries alone
show the same, `locate?_rearranged`. -/
namespace FeatureMarkup

namespace Path

@[simp] theorem writtenLength_nil : writtenLength [] = 0 := rfl

@[simp] theorem writtenLength_append (path rest : Path) :
    writtenLength (path ++ rest) = writtenLength path + writtenLength rest := by
  induction path with
  | nil => simp
  | cons name path ih =>
    show 1 + name.length + writtenLength (path ++ rest) = 1 + name.length + writtenLength path + _
    omega

@[simp] theorem writtenLength_single (name : FileName) : writtenLength [name] = 1 + name.length :=
  rfl

end Path

namespace FileTree

/-! ### What lies below -/

/-- What lies at a path of names below a tree. -/
inductive Below : FileTree → Path → FileTree → Prop where
  | self (t : FileTree) : Below t [] t
  | entry {access : Access} {entries : List (FileName × FileTree)} {name : FileName}
      {t s : FileTree} {path : Path} :
      (name, t) ∈ entries → Below t path s → Below (.directory access entries) (name :: path) s

/-- Names as the entries of a directory have them: no two alike, and each leads into it. -/
structure Named (names : List FileName) : Prop where
  nodup : names.Nodup
  proper : ∀ name ∈ names, staysHere name = false ∧ goesUp name = false

/-- The entries of all directories below have proper names. -/
def WellNamed (t : FileTree) : Prop :=
  ∀ path access entries, Below t path (.directory access entries) → Named (entries.map (·.1))

variable {t t' s root root' : FileTree} {access : Access}
  {entries entries' : List (FileName × FileTree)} {name : FileName} {path rest place : Path}
  {content : Option (List UInt8)}

@[simp] theorem below_nil_iff : Below t [] s ↔ s = t := by
  constructor
  · intro h
    cases h
    rfl
  · intro h
    subst h
    exact .self _

@[simp] theorem below_file_iff : Below (.file content) path s ↔ path = [] ∧ s = .file content := by
  constructor
  · intro h
    cases h with
    | self => exact ⟨rfl, rfl⟩
  · intro h
    obtain ⟨rfl, rfl⟩ := h
    exact .self _

theorem below_directory_cons_iff :
    Below (.directory access entries) (name :: path) s ↔
      ∃ t, (name, t) ∈ entries ∧ Below t path s := by
  constructor
  · intro h
    cases h with
    | entry hmem hbelow => exact ⟨_, hmem, hbelow⟩
  · intro h
    obtain ⟨t, hmem, hbelow⟩ := h
    exact .entry hmem hbelow

/-- What lies behind a name lies in a directory. -/
theorem Below.dropLast (h : Below t path s) (hne : path ≠ []) :
    ∃ access entries, Below t path.dropLast (.directory access entries) := by
  induction h with
  | self => exact absurd rfl hne
  | @entry access entries name t s path hmem hbelow ih =>
    cases path with
    | nil => exact ⟨access, entries, .self _⟩
    | cons next path =>
      obtain ⟨access', entries', hdirectory⟩ := ih (List.cons_ne_nil _ _)
      exact ⟨access', entries', .entry hmem hdirectory⟩

theorem wellNamed_file (content : Option (List UInt8)) : WellNamed (.file content) := by
  intro path access entries h
  cases (below_file_iff.1 h).2

theorem wellNamed_directory_iff :
    WellNamed (.directory access entries) ↔
      Named (entries.map (·.1)) ∧ ∀ e ∈ entries, e.2.WellNamed := by
  constructor
  · intro h
    exact ⟨h [] access entries (.self _),
      fun e hmem path _ _ hbelow => h (e.1 :: path) _ _ (.entry hmem hbelow)⟩
  · intro h path access' entries' hbelow
    cases hbelow with
    | self => exact h.1
    | entry hmem hbelow => exact h.2 _ hmem _ _ _ hbelow

/-- What holds of a directory if it holds of its entries holds of every tree. -/
theorem byEntries {P : FileTree → Prop} (file : ∀ content, P (.file content))
    (directory : ∀ access entries, (∀ name t, (name, t) ∈ entries → P t) →
      P (.directory access entries)) : ∀ t, P t
  | .file content => file content
  | .directory access entries => directory access entries fun name t hmem =>
    have : sizeOf t < 1 + sizeOf access + sizeOf entries := by
      have hlt := List.sizeOf_lt_of_mem hmem
      simp only [Prod.mk.sizeOf_spec] at hlt
      omega
    byEntries file directory t

theorem named?_eq_some (hnames : (entries.map (·.1)).Nodup) (hmem : (name, t) ∈ entries) :
    named? entries name = some t := by
  induction entries with
  | nil => cases hmem
  | cons e rest ih =>
    obtain ⟨hfresh, hnames⟩ := List.nodup_cons.1 hnames
    rcases List.mem_cons.1 hmem with rfl | hmem
    · simp [named?]
    · have hne : e.1 ≠ name := by
        intro heq
        exact hfresh (List.mem_map.2 ⟨_, hmem, heq.symm⟩)
      have hrest := ih hnames hmem
      unfold named? at hrest ⊢
      rwa [List.find?_cons_of_neg (by simpa using hne)]

/-! ### Looking -/

/-- There is something to be looked at by a path. -/
def Sees (root : FileTree) (path : Path) : Prop :=
  ∃ t, root.locate? path = some t

theorem not_sees_iff : ¬root.Sees path ↔ root.locate? path = none := by
  unfold Sees
  cases root.locate? path <;> simp

theorem locate?_eq_some_iff : root.locate? path = some t ↔ path.writtenLength < Path.limit ∧
    ∃ l, Location.walk? ⟨[], root⟩ path = some l ∧ l.tree = t := by
  rw [locate?, Option.ite_none_right_eq_some, Option.map_eq_some_iff]

theorem Location.walk?_append (l : Location) (path rest : Path) :
    l.walk? (path ++ rest) = l.walk? path >>= fun l => l.walk? rest :=
  List.foldlM_append

theorem Location.walk?_single (l : Location) (name : FileName) : l.walk? [name] = l.follow? name := by
  simp [walk?]

/-- A way that leads back does so however often it is taken. -/
theorem Location.walk?_replicate {l : Location} (h : l.walk? path = some l) (n : Nat) :
    l.walk? (List.replicate n path).flatten = some l := by
  induction n with
  | zero => rfl
  | succ n ih => rwa [List.replicate_succ, List.flatten_cons, walk?_append, h]

/-- Who sees something by a path sees all directories on the way. -/
theorem Sees.of_append (h : root.Sees (path ++ rest)) : root.Sees path := by
  obtain ⟨t, h⟩ := h
  obtain ⟨hlength, l, hwalk, -⟩ := locate?_eq_some_iff.1 h
  rw [Location.walk?_append] at hwalk
  obtain ⟨l', hwalk, -⟩ := Option.bind_eq_some_iff.1 hwalk
  rw [Path.writtenLength_append] at hlength
  exact ⟨l'.tree, locate?_eq_some_iff.2 ⟨by omega, l', hwalk, rfl⟩⟩

/-- A stroke at the end of the path of a directory makes no difference. -/
theorem locate?_stem (h : root.locate? path = some (.directory access entries)) :
    root.locate? path.stem = some (.directory access entries) := by
  unfold Path.stem
  split
  next hlast =>
    obtain ⟨outer, rfl⟩ := List.getLast?_eq_some_iff.1 hlast
    obtain ⟨hlength, l, hwalk, htree⟩ := locate?_eq_some_iff.1 h
    rw [Path.writtenLength_append] at hlength
    rw [Location.walk?_append] at hwalk
    obtain ⟨l', houter, hlast⟩ := Option.bind_eq_some_iff.1 hwalk
    obtain rfl : l' = l := by
      rw [Location.walk?_single, Location.follow?] at hlast
      split at hlast
      · cases hlast
      · simpa [staysHere] using hlast
    rw [List.dropLast_concat]
    exact locate?_eq_some_iff.2 ⟨by omega, l', houter, htree⟩
  next => exact h

/-- One more name leads to its entry, if the directory leads to its entries and the path is not
too long. -/
theorem locate?_entry (hplace : root.locate? place = some (.directory access entries))
    (hnamed : Named (entries.map (·.1))) (hmem : (name, t) ∈ entries) :
    root.locate? (place ++ [name]) =
      if access.leads = true ∧ place.writtenLength + 1 + name.length < Path.limit then some t
      else none := by
  obtain ⟨-, l, hwalk, htree⟩ := locate?_eq_some_iff.1 hplace
  obtain ⟨hstays, hup⟩ := hnamed.proper name (List.mem_map.2 ⟨_, hmem, rfl⟩)
  have hne : name.isEmpty = false := by
    cases name with
    | nil => cases hstays
    | cons => rfl
  have hfollow : (l.follow? name).map (·.tree) = if access.leads = true then some t else none := by
    unfold Location.follow?
    rw [htree]
    simp only [hne, hstays, hup, named?_eq_some hnamed.nodup hmem]
    cases access.leads <;> rfl
  have hstep : (Location.walk? ⟨[], root⟩ (place ++ [name])).map (·.tree) =
      (l.follow? name).map (·.tree) := by
    rw [Location.walk?_append, hwalk, Option.bind_eq_bind, Option.bind_some, Location.walk?_single]
  rw [locate?, hstep, hfollow, Path.writtenLength_append, Path.writtenLength_single,
    ← Nat.add_assoc]
  split <;> simp_all

/-- What is seen below a directory is what lies there. -/
theorem locate?_below (hplace : root.locate? place = some t) (hnamed : t.WellNamed)
    (h : Below t rest s) (hsees : root.Sees (place ++ rest)) :
    root.locate? (place ++ rest) = some s := by
  induction h generalizing place with
  | self t => rwa [List.append_nil]
  | @entry access entries name t s path hmem _ ih =>
    obtain ⟨hnames, hentries⟩ := wellNamed_directory_iff.1 hnamed
    rw [List.append_cons] at hsees ⊢
    obtain ⟨t', hentry⟩ := hsees.of_append
    have hstep := locate?_entry hplace hnames hmem
    rw [hentry] at hstep
    obtain ⟨-, heq⟩ := Option.ite_none_right_eq_some.1 hstep.symm
    exact ih (hentry.trans heq.symm) (hentries _ hmem) hsees

/-- What can be looked at is taken for what it is. -/
theorem seenAsDirectory_iff (hplace : root.locate? place = some (.directory access entries))
    (hnamed : Named (entries.map (·.1))) (hmem : (name, t) ∈ entries) :
    seenAsDirectory access.leads (place.writtenLength + 1 + name.length) t = true ↔
      (∃ access' entries', t = .directory access' entries') ∧ root.Sees (place ++ [name]) := by
  cases t with
  | file content => simp [seenAsDirectory]
  | directory access' entries' =>
    unfold Sees
    rw [locate?_entry hplace hnamed hmem]
    simp [seenAsDirectory]

theorem not_seenAsDirectory_iff (hplace : root.locate? place = some (.directory access entries))
    (hnamed : Named (entries.map (·.1))) (hmem : (name, t) ∈ entries) :
    seenAsDirectory access.leads (place.writtenLength + 1 + name.length) t = false ↔
      (∃ content, t = .file content) ∨ ¬root.Sees (place ++ [name]) := by
  rw [← Bool.not_eq_true, seenAsDirectory_iff hplace hnamed hmem]
  cases t <;> simp

/-! ### Whatever the listing -/

/-- The same tree, but for the order in which its directories list their entries. -/
inductive Rearranged : FileTree → FileTree → Prop where
  | refl (t : FileTree) : Rearranged t t
  | swap (access : Access) (a b : FileName × FileTree) (rest : List (FileName × FileTree)) :
      Rearranged (.directory access (a :: b :: rest)) (.directory access (b :: a :: rest))
  | entry (access : Access) (name : FileName) {t t' : FileTree}
      {rest rest' : List (FileName × FileTree)} :
      Rearranged t t' → Rearranged (.directory access rest) (.directory access rest') →
      Rearranged (.directory access ((name, t) :: rest)) (.directory access ((name, t') :: rest'))
  | trans {t₁ t₂ t₃ : FileTree} : Rearranged t₁ t₂ → Rearranged t₂ t₃ → Rearranged t₁ t₃

namespace Rearranged

/-- Entries may be listed in any order. -/
theorem of_perm (h : entries.Perm entries') :
    Rearranged (.directory access entries) (.directory access entries') := by
  induction h with
  | nil => exact .refl _
  | cons e _ ih => exact .entry access e.1 (.refl e.2) ih
  | swap a b rest => exact .swap access b a rest
  | trans _ _ ih ih' => exact .trans ih ih'

theorem symm (h : Rearranged t t') : Rearranged t' t := by
  induction h with
  | refl t => exact .refl t
  | swap access a b rest => exact .swap access b a rest
  | entry access name _ _ ih ih' => exact .entry access name ih ih'
  | trans _ _ ih ih' => exact .trans ih' ih

theorem eq_file (h : Rearranged t s) (ht : t = .file content) : s = .file content := by
  induction h with
  | refl => exact ht
  | swap => cases ht
  | entry => cases ht
  | trans _ _ ih ih' => exact ih' (ih ht)

/-- A directory still has each entry, itself rearranged. -/
theorem eq_directory (h : Rearranged t s) (ht : t = .directory access entries) :
    ∃ entries', s = .directory access entries' ∧
      (entries.map (·.1)).Perm (entries'.map (·.1)) ∧
      ∀ name t, (name, t) ∈ entries → ∃ t', (name, t') ∈ entries' ∧ Rearranged t t' := by
  induction h generalizing entries with
  | refl => exact ⟨entries, ht, .refl _, fun name t hmem => ⟨t, hmem, .refl t⟩⟩
  | swap _ a b rest =>
    cases ht
    refine ⟨_, rfl, .swap _ _ _, fun name t hmem => ⟨t, ?_, .refl t⟩⟩
    exact (List.Perm.swap b a rest).mem_iff.1 hmem
  | @entry _ name t t' rest rest' ht' _ _ ih' =>
    cases ht
    obtain ⟨entries', heq, hperm, hentries⟩ := ih' rfl
    cases heq
    refine ⟨_, rfl, hperm.cons name, fun name₁ t₁ hmem => ?_⟩
    rcases List.mem_cons.1 hmem with heq | hmem
    · cases heq
      exact ⟨t', List.mem_cons_self, ht'⟩
    · obtain ⟨t₂, hmem', hsame⟩ := hentries name₁ t₁ hmem
      exact ⟨t₂, List.mem_cons_of_mem _ hmem', hsame⟩
  | trans _ _ ih ih' =>
    obtain ⟨mid, hmid, hperm, hentries⟩ := ih ht
    obtain ⟨entries', heq, hperm', hentries'⟩ := ih' hmid
    refine ⟨entries', heq, hperm.trans hperm', fun name t hmem => ?_⟩
    obtain ⟨t₁, hmem₁, hsame₁⟩ := hentries name t hmem
    obtain ⟨t₂, hmem₂, hsame₂⟩ := hentries' name t₁ hmem₁
    exact ⟨t₂, hmem₂, .trans hsame₁ hsame₂⟩

theorem named (h : Rearranged (.directory access entries) (.directory access entries'))
    (hnamed : Named (entries.map (·.1))) : Named (entries'.map (·.1)) := by
  obtain ⟨_, heq, hperm, -⟩ := h.eq_directory rfl
  cases heq
  exact ⟨hperm.nodup_iff.1 hnamed.nodup, fun name hmem => hnamed.proper name (hperm.mem_iff.2 hmem)⟩

end Rearranged

/-- A path below a directory shows the same, or nothing, under every listing. -/
theorem locate?_rearranged (hplace : root.locate? place = some t)
    (hplace' : root'.locate? place = some t') (hsame : Rearranged t t') (hnamed : t.WellNamed)
    (h : Below t rest s) :
    (root.locate? (place ++ rest) = none ∧ root'.locate? (place ++ rest) = none) ∨
      ∃ s', root.locate? (place ++ rest) = some s ∧ root'.locate? (place ++ rest) = some s' ∧
        Rearranged s s' := by
  induction h generalizing place t' with
  | self t =>
    simp only [List.append_nil]
    exact .inr ⟨t', hplace, hplace', hsame⟩
  | @entry access entries name t s path hmem _ ih =>
    obtain ⟨hnames, hentries⟩ := wellNamed_directory_iff.1 hnamed
    obtain ⟨entries', rfl, -, hrearranged⟩ := hsame.eq_directory rfl
    obtain ⟨t₁, hmem', hsame'⟩ := hrearranged name t hmem
    have hstep := locate?_entry hplace hnames hmem
    have hstep' := locate?_entry hplace' (hsame.named hnames) hmem'
    rw [List.append_cons]
    split at hstep
    next hseen => exact ih hstep (hstep'.trans (if_pos hseen)) hsame' (hentries _ hmem)
    next hunseen =>
      left
      rw [if_neg hunseen] at hstep'
      simp only [← not_sees_iff] at hstep hstep' ⊢
      exact ⟨fun hsees => hstep hsees.of_append, fun hsees => hstep' hsees.of_append⟩

end FileTree

end FeatureMarkup

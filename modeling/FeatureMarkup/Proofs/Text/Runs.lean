import Mathlib.Data.List.DropRight
import FeatureMarkup.Text.Blank

/-! Text that comes in runs, and what is left of it without those that are blank.

To join runs and trim what they join to is one thing, to leave out the blank runs first is
another. Nothing but blank characters is lost, `inked_joined_kept`; and what is left comes to
the same once it is trimmed exactly when no blank was lost between two runs that are kept,
`trim_join_kept_iff`. -/
namespace FeatureMarkup.Text

/-! ### Trimming -/

section Trimming
variable {cs ds inner : List Char}

theorem trimChars_eq (cs : List Char) : trimChars cs = (cs.dropWhile isBlank).rdropWhile isBlank := rfl

theorem dropWhile_append_of_kept (h : cs.all isBlank = false) (ds : List Char) :
    (cs ++ ds).dropWhile isBlank = cs.dropWhile isBlank ++ ds := by
  rw [List.dropWhile_append, if_neg]
  simpa [List.dropWhile_eq_nil_iff] using h

theorem rdropWhile_append_of_kept (h : ds.all isBlank = false) (cs : List Char) :
    (cs ++ ds).rdropWhile isBlank = cs ++ ds.rdropWhile isBlank := by
  have hreverse : ds.reverse.all isBlank = false := by rwa [List.all_reverse]
  simp only [List.rdropWhile, List.reverse_append, dropWhile_append_of_kept hreverse,
    List.reverse_reverse]

theorem rdropWhile_append_of_blank (h : ds.all isBlank = true) (cs : List Char) :
    (cs ++ ds).rdropWhile isBlank = cs.rdropWhile isBlank := by
  have hreverse : ∀ c ∈ ds.reverse, isBlank c = true := by simpa using h
  simp only [List.rdropWhile, List.reverse_append, List.dropWhile_append_of_pos hreverse]

theorem trimChars_append_of_blank (h : cs.all isBlank = true) (ds : List Char) :
    trimChars (cs ++ ds) = trimChars ds := by
  rw [trimChars_eq, trimChars_eq, List.dropWhile_append_of_pos (List.all_eq_true.1 h)]

/-- Only the outer ends are trimmed. -/
theorem trimChars_append_append (hc : cs.all isBlank = false) (hd : ds.all isBlank = false) :
    trimChars (cs ++ inner ++ ds) = cs.dropWhile isBlank ++ inner ++ ds.rdropWhile isBlank := by
  rw [trimChars_eq, List.append_assoc, dropWhile_append_of_kept hc, ← List.append_assoc,
    rdropWhile_append_of_kept hd]

/-- What stands behind text counts only as far as it is left by trimming. -/
theorem rdropWhile_append_congr {es : List Char}
    (h : ds.rdropWhile isBlank = es.rdropWhile isBlank) (cs : List Char) :
    (cs ++ ds).rdropWhile isBlank = (cs ++ es).rdropWhile isBlank := by
  have hblank (fs : List Char) : fs.rdropWhile isBlank = [] ↔ fs.all isBlank = true := by
    rw [List.rdropWhile_eq_nil_iff, List.all_eq_true]
  cases hd : ds.all isBlank with
  | true =>
    have he : es.all isBlank = true := (hblank es).1 (h ▸ (hblank ds).2 hd)
    rw [rdropWhile_append_of_blank hd, rdropWhile_append_of_blank he]
  | false =>
    have he : es.all isBlank = false := by
      rw [Bool.eq_false_iff]
      intro he
      rw [(hblank ds).1 (h.trans ((hblank es).2 he))] at hd
      cases hd
    rw [rdropWhile_append_of_kept hd, rdropWhile_append_of_kept he, h]

theorem sublist_dropWhile (h : cs.Sublist ds) : (cs.dropWhile isBlank).Sublist (ds.dropWhile isBlank) := by
  induction h with
  | slnil => exact .slnil
  | @cons cs ds c h ih =>
    rw [List.dropWhile_cons]
    split
    · exact ih
    · exact (List.dropWhile_sublist _).trans (h.cons c)
  | @cons_cons cs ds c h ih =>
    rw [List.dropWhile_cons, List.dropWhile_cons]
    split
    · exact ih
    · exact h.cons_cons c

theorem sublist_rdropWhile (h : cs.Sublist ds) :
    (cs.rdropWhile isBlank).Sublist (ds.rdropWhile isBlank) :=
  (sublist_dropWhile h.reverse).reverse

/-- The characters that are not blank. -/
def inked (cs : List Char) : List Char := cs.filter (!isBlank ·)

theorem inked_dropWhile (cs : List Char) : inked (cs.dropWhile isBlank) = inked cs := by
  induction cs with
  | nil => rfl
  | cons c cs ih =>
    rw [List.dropWhile_cons]
    split
    next h => simpa [inked, h] using ih
    next => rfl

theorem inked_trimChars (cs : List Char) : inked (trimChars cs) = inked cs := by
  have hreverse (ds : List Char) : inked ds.reverse = (inked ds).reverse := List.filter_reverse
  rw [trimChars, hreverse, inked_dropWhile, hreverse, List.reverse_reverse, inked_dropWhile]

end Trimming

/-! ### Runs -/

/-- The runs that are not blank. -/
def kept (runs : List String) : List String := runs.filter (!allBlank ·)

/-- The characters that runs join to. -/
def joined (runs : List String) : List Char := (String.join runs).toList

/-- Between two runs that are kept nothing is left out but empty runs. -/
def Seamless (runs : List String) : Prop :=
  ∀ before run after, runs = before ++ run :: after → allBlank run = true →
    kept before ≠ [] → kept after ≠ [] → run = ""

section Runs
variable {run : String} {runs more : List String}

@[simp] theorem joined_nil : joined [] = [] := by simp [joined]

@[simp] theorem joined_cons : joined (run :: runs) = run.toList ++ joined runs := by simp [joined]

theorem joined_append : joined (runs ++ more) = joined runs ++ joined more := by simp [joined]

theorem kept_append : kept (runs ++ more) = kept runs ++ kept more := List.filter_append _ _

theorem kept_cons_of_blank (h : allBlank run = true) : kept (run :: runs) = kept runs := by
  simp [kept, h]

theorem kept_cons (h : allBlank run = false) : kept (run :: runs) = run :: kept runs := by
  simp [kept, h]

theorem kept_kept : kept (kept runs) = kept runs := by simp [kept]

theorem kept_eq_nil_iff : kept runs = [] ↔ (joined runs).all isBlank = true := by
  induction runs with
  | nil => simp [kept]
  | cons run runs ih =>
    cases h : allBlank run with
    | true => simpa [kept_cons_of_blank h, ih, List.all_append] using fun _ => List.all_eq_true.1 h
    | false =>
      rw [kept_cons h, joined_cons, List.all_append, show run.toList.all isBlank = false from h]
      simp

theorem all_joined_of_kept (h : kept runs ≠ []) : (joined runs).all isBlank = false := by
  rw [Bool.eq_false_iff]
  exact fun hall => h (kept_eq_nil_iff.2 hall)

theorem joined_kept_sublist : (joined (kept runs)).Sublist (joined runs) := by
  induction runs with
  | nil => exact .slnil
  | cons run runs ih =>
    cases h : allBlank run with
    | true =>
      rw [kept_cons_of_blank h, joined_cons]
      exact ih.trans (List.sublist_append_right _ _)
    | false =>
      rw [kept_cons h, joined_cons, joined_cons]
      exact (List.Sublist.refl _).append ih

theorem inked_joined_kept : inked (joined (kept runs)) = inked (joined runs) := by
  induction runs with
  | nil => rfl
  | cons run runs ih =>
    have happend (cs ds : List Char) : inked (cs ++ ds) = inked cs ++ inked ds :=
      List.filter_append _ _
    cases h : allBlank run with
    | true =>
      have hnone : inked run.toList = [] := by
        simpa [inked, allBlank] using h
      rw [kept_cons_of_blank h, joined_cons, happend, hnone, ih, List.nil_append]
    | false => rw [kept_cons h, joined_cons, joined_cons, happend, happend, ih]

/-- Behind a run that is kept, only what another kept run follows matters. -/
theorem rdropWhile_joined_kept
    (h : ∀ before run after, runs = before ++ run :: after → allBlank run = true →
      kept after ≠ [] → run = "") :
    (joined (kept runs)).rdropWhile isBlank = (joined runs).rdropWhile isBlank := by
  induction runs with
  | nil => rfl
  | cons run runs ih =>
    have hrest := ih fun before r after hr => h (run :: before) r after (congrArg (run :: ·) hr)
    cases hblank : allBlank run with
    | false =>
      rw [kept_cons hblank, joined_cons, joined_cons]
      exact rdropWhile_append_congr hrest _
    | true =>
      rw [kept_cons_of_blank hblank, joined_cons]
      by_cases hnone : kept runs = []
      · have hall : (joined runs).all isBlank = true := kept_eq_nil_iff.1 hnone
        rw [rdropWhile_append_of_blank hall, hnone]
        exact (List.rdropWhile_eq_nil_iff.2 (List.all_eq_true.1 hblank)).symm
      · rw [h [] run runs rfl hblank hnone]
        exact hrest

theorem trimChars_joined_kept (h : Seamless runs) :
    trimChars (joined (kept runs)) = trimChars (joined runs) := by
  induction runs with
  | nil => rfl
  | cons run runs ih =>
    cases hblank : allBlank run with
    | true =>
      have hrest : Seamless runs := by
        intro before r after hr hb hbefore hafter
        refine h (run :: before) r after (congrArg (run :: ·) hr) hb ?_ hafter
        rwa [kept_cons_of_blank hblank]
      rw [kept_cons_of_blank hblank, joined_cons, trimChars_append_of_blank hblank, ih hrest]
    | false =>
      have hbehind : (joined (kept runs)).rdropWhile isBlank = (joined runs).rdropWhile isBlank := by
        refine rdropWhile_joined_kept fun before r after hr hb hafter => ?_
        refine h (run :: before) r after (congrArg (run :: ·) hr) hb ?_ hafter
        rw [kept_cons hblank]
        nofun
      rw [kept_cons hblank, joined_cons, joined_cons, trimChars_eq, trimChars_eq,
        dropWhile_append_of_kept hblank, dropWhile_append_of_kept hblank]
      exact rdropWhile_append_congr hbehind _

/-- A blank run between two that are kept makes the difference. -/
theorem seamless_of_trimChars_eq
    (h : trimChars (joined (kept runs)) = trimChars (joined runs)) : Seamless runs := by
  intro before run after hruns hblank hbefore hafter
  have hkept : trimChars (joined (kept runs)) = (joined (kept before)).dropWhile isBlank ++ [] ++
      (joined (kept after)).rdropWhile isBlank := by
    have hb : (joined (kept before)).all isBlank = false := all_joined_of_kept (by rwa [kept_kept])
    have ha : (joined (kept after)).all isBlank = false := all_joined_of_kept (by rwa [kept_kept])
    rw [← trimChars_append_append hb ha, hruns, kept_append, kept_cons_of_blank hblank,
      joined_append, List.append_nil]
  have hall : trimChars (joined runs) = (joined before).dropWhile isBlank ++ run.toList ++
      (joined after).rdropWhile isBlank := by
    rw [← trimChars_append_append (all_joined_of_kept hbefore) (all_joined_of_kept hafter), hruns,
      joined_append, joined_cons, List.append_assoc]
  have hless (runs : List String) : (joined (kept runs)).Sublist (joined runs) := joined_kept_sublist
  have hfront := (sublist_dropWhile (hless before)).length_le
  have hback := (sublist_rdropWhile (hless after)).length_le
  have hlengths := congrArg List.length (hkept.symm.trans (h.trans hall))
  simp only [List.length_append, List.length_nil] at hlengths
  have hnone : run.toList = [] := List.eq_nil_of_length_eq_zero (by omega)
  exact String.toList_eq_nil_iff.1 hnone

/-- What is kept is all of it, once trimmed, exactly when it is kept without a seam. -/
theorem trim_join_kept_iff :
    trim (String.join (kept runs)) = trim (String.join runs) ↔ Seamless runs := by
  have htrim : trim (String.join (kept runs)) = trim (String.join runs) ↔
      trimChars (joined (kept runs)) = trimChars (joined runs) := String.ofList_inj
  rw [htrim]
  exact ⟨seamless_of_trimChars_eq, trimChars_joined_kept⟩

end Runs

end FeatureMarkup.Text

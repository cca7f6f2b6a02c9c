import FeatureMarkup.Proofs.Cursor.OneElement

/-! Documents that are cut off.

A loop over tags ends at the end of the document as it does at the end of an element, so a
reader of one element may succeed on a document that is cut off inside that element. It reads
then what it would read if the ends that are missing stood there: that is `Closes`, and it
carries over from the readers of the children to the reader of the element around them. -/
namespace FeatureMarkup

open Xml (Attribute Reading)

variable {α β σ : Type}

/-- Readings that end elements, and no others. -/
def AllStops (readings : List Reading) : Prop :=
  ∀ r ∈ readings, ∃ offset name, r = ⟨offset, .ok (.stop name)⟩

theorem AllStops.append {as bs : List Reading} (ha : AllStops as) (hb : AllStops bs) :
    AllStops (as ++ bs) := fun r hr => (List.mem_append.1 hr).elim (ha r) (hb r)

theorem allStops_singleton (offset : Nat) (name : Name) :
    AllStops [⟨offset, .ok (.stop name)⟩] :=
  fun _ hr => ⟨offset, name, List.mem_singleton.1 hr⟩

/-- What a reading does up to the end of a document that is cut off, it does too when ends of
elements are put there; it comes then to the last of them. -/
def Closes (m : CursorM α) : Prop :=
  ∀ ⦃c a c'⦄, ¬c.AtEnd → m c = .ok a c' → c'.AtEnd →
    c'.readings = [] ∧ ∃ closing, closing ≠ [] ∧ AllStops closing ∧
      ∀ rest, ∃ d name, m (c.facing (c.readings ++ closing ++ rest)) = .ok a d ∧
        d.readings = rest ∧ d.event = .endElement name

namespace Cursor

/-- The end of the document is met behind nothing but blank text. -/
theorem nextTagWithin_eq_finish {rounds : Nat} {c c' : Cursor}
    (hc : c.readings.length < rounds) (hnot : ¬c.AtEnd)
    (h : nextTagWithin rounds c = .ok .finish c') :
    c'.AtEnd ∧ c'.readings = [] ∧ Spells c.readings [] := by
  obtain _ | rounds := rounds
  · cases hc
  induction c using along generalizing rounds with
  | nothing c hr =>
    have hnil := hr.resolve_right hnot
    obtain ⟨c₁, hadvance, hend, hleft⟩ := advance_nil hnot hnil
    rw [nextTagWithin] at h
    obtain ⟨event, c₂, hstep, hrest⟩ := bind_eq_ok.1 h
    cases hadvance.symm.trans hstep
    obtain ⟨-, rfl⟩ := pure_eq_ok.1 hrest
    exact ⟨hend, hleft, hnil ▸ .nil⟩
  | fault c offset fault rest _ hr => exact absurd h (advance_bind_fault hnot hr)
  | ignored c offset rest _ hr ih =>
    rw [nextTagWithin, advance_bind_ignored hnot hr] at h
    rw [hr, List.length_cons] at hc
    obtain ⟨hend, hleft, hs⟩ := ih (not_atEnd_ignoring _ _ _ hnot) rounds (Nat.lt_of_succ_lt hc) h
    exact ⟨hend, hleft, hr ▸ Spells.ignored hs⟩
  | event c offset content e rest _ hr he ih =>
    rw [nextTagWithin, advance_bind_event hnot hr he] at h
    rw [hr, List.length_cons] at hc
    cases content with
    | ignored => cases he
    | start name attributes | stop name =>
      cases he
      cases (pure_eq_ok.1 h).1
    | text t =>
      cases he
      cases hblank : Text.allBlank t with
      | false => simp [hblank] at h
      | true =>
        simp only [hblank, if_true] at h
        obtain _ | rounds := rounds
        · omega
        obtain ⟨hend, hleft, hs⟩ :=
          ih (not_atEnd_moved c _ (.characters t) _ (by simp)) rounds (Nat.lt_of_succ_lt_succ hc) h
        exact ⟨hend, hleft, hr ▸ Spells.blank hblank hs⟩

theorem nextTag_eq_finish {c c' : Cursor} (hnot : ¬c.AtEnd) (h : nextTag c = .ok .finish c') :
    c'.AtEnd ∧ c'.readings = [] ∧ Spells c.readings [] :=
  nextTagWithin_eq_finish c.length_lt_rounds hnot h

/-- The end of the document stays where it is. -/
theorem nextTag_atEnd {c : Cursor} (h : c.AtEnd) : nextTag c = .ok .finish c := by
  show nextTagWithin (c.remaining + 1) c = _
  rw [nextTagWithin]
  exact bind_eq_ok.2 ⟨_, c, advance_atEnd h, rfl⟩

/-- An end that stands behind nothing but blank text is where the cursor comes to. -/
theorem nextTag_of_stop {c : Cursor} {before rest : List Reading} {offset : Nat} {name : Name}
    (hnot : ¬c.AtEnd) (hb : Spells before [])
    (hr : c.readings = before ++ ⟨offset, .ok (.stop name)⟩ :: rest) :
    nextTag c = .ok (.stop name) (c.moved offset (.endElement name) rest) :=
  nextTag_eq_stop_iff.2 ⟨hnot, before, hb, reaches_stop_iff.2 ⟨offset, rest, hr, rfl⟩⟩

/-- A loop ends at an end that stands behind nothing but blank text. -/
theorem foldTags_of_stop {body : Name → List Attribute → σ → CursorM σ} {c : Cursor}
    {before rest : List Reading} {offset rounds : Nat} {name : Name} (a : σ) (hnot : ¬c.AtEnd)
    (hb : Spells before []) (hr : c.readings = before ++ ⟨offset, .ok (.stop name)⟩ :: rest)
    (hrounds : c.readings.length < rounds) :
    foldTags nextTag body rounds a c = .ok (.stop name, a) (c.moved offset (.endElement name) rest) := by
  obtain _ | rounds := rounds
  · cases hrounds
  exact bind_eq_ok.2 ⟨_, _, nextTag_of_stop hnot hb hr, rfl⟩

theorem not_atEnd_of_stop {c : Cursor} {name : Name} (h : c.event = .endElement name) : ¬c.AtEnd := by
  intro hend
  rw [hend] at h
  cases h

theorem not_atEnd_facing {c : Cursor} (h : ¬c.AtEnd) (rs : List Reading) : ¬(c.facing rs).AtEnd := h

end Cursor

namespace Closes

open Cursor

/-- A reading that never comes to the end of the document is never cut off. -/
theorem of_ends {m : CursorM α} (h : ∀ c a c', m c = .ok a c' → ¬c'.AtEnd) : Closes m :=
  fun _ _ _ _ hok hend => absurd hend (h _ _ _ hok)

theorem fail (cause : Cause) : Closes (Cursor.fail cause : CursorM α) :=
  of_ends fun _ _ _ h => absurd h fail_ne_ok

theorem still_bind {m : CursorM α} {f : α → CursorM β} (hm : Still m) (hf : ∀ a, Closes (f a)) :
    Closes (m >>= f) := by
  intro c b c' hnot h hend
  obtain ⟨a, c₁, h₁, h₂⟩ := bind_eq_ok.1 h
  obtain ⟨htakes, hevent⟩ := hm h₁
  have hnot₁ : ¬c₁.AtEnd := fun hend₁ => hnot (hevent.symm.trans hend₁)
  obtain ⟨hleft, closing, hne, hall, hclosed⟩ := hf a hnot₁ h₂ hend
  refine ⟨hleft, closing, hne, hall, fun rest => ?_⟩
  obtain ⟨d, name, hd, hrest, hstop⟩ := hclosed rest
  have hsame : c.readings = c₁.readings := htakes.left
  rw [hsame]
  exact ⟨d, name, bind_eq_ok.2 ⟨a, _, htakes.again _, hd⟩, hrest, hstop⟩

theorem bind_steady {m : CursorM α} {f : α → CursorM β} (hm : Closes m) (hf : ∀ a, Steady (f a)) :
    Closes (m >>= f) := by
  intro c b c' hnot h hend
  obtain ⟨a, c₁, h₁, h₂⟩ := bind_eq_ok.1 h
  obtain ⟨entries, hsame⟩ := hf a h₂
  obtain rfl : c₁.logging entries = c' := by simpa using (hsame c₁).symm.trans h₂
  obtain ⟨hleft, closing, hne, hall, hclosed⟩ := hm hnot h₁ hend
  refine ⟨hleft, closing, hne, hall, fun rest => ?_⟩
  obtain ⟨d, name, hd, hrest, hstop⟩ := hclosed rest
  exact ⟨d.logging entries, name, bind_eq_ok.2 ⟨a, d, hd, hsame d⟩, hrest, hstop⟩

theorem map {m : CursorM α} {f : α → β} (hm : Closes m) : Closes (f <$> m) := by
  rw [map_eq_pure_bind]
  exact hm.bind_steady fun a => .pure _

theorem guard {p : Prop} [Decidable p] {cause : Cause} {m : CursorM α} (hm : Closes m) :
    Closes (if p then Cursor.fail cause >>= fun _ : Unit => m else m) := by
  split
  · exact still_bind (.fail cause) fun _ => hm
  · exact hm

end Closes

/-! ### Loops -/

section Loop
variable {body : Name → List Attribute → σ → CursorM σ}

open Cursor

/-- From the cursor a loop yields the value at the last of some ends, if these are put behind
what is left. -/
def LoopCloses (body : Name → List Attribute → σ → CursorM σ) (a : σ) (c : Cursor) (b : σ) : Prop :=
  ∃ closing, closing ≠ [] ∧ AllStops closing ∧ ∀ rest rounds,
    (c.readings ++ closing ++ rest).length < rounds → ∃ d name,
      foldTags nextTag body rounds a (c.facing (c.readings ++ closing ++ rest)) =
        .ok (.stop name, b) d ∧ d.readings = rest ∧ d.event = .endElement name

namespace LoopCloses
variable {a a₁ b : σ} {c c₁ c₂ : Cursor} {taken taken₁ : List Reading} {name : Name}
  {attributes : List Attribute}

/-- Where nothing but blank text is left, an end is all that is missing. -/
theorem of_blank (a : σ) (hnot : ¬c.AtEnd) (hb : Spells c.readings []) : LoopCloses body a c a := by
  refine ⟨[⟨0, .ok (.stop (.unqualified ""))⟩], nofun, allStops_singleton _ _, fun rest rounds hlt => ?_⟩
  have hthere : (c.facing (c.readings ++ [⟨0, .ok (.stop (.unqualified ""))⟩] ++ rest)).readings =
      c.readings ++ ⟨0, .ok (.stop (.unqualified ""))⟩ :: rest := by simp
  exact ⟨_, _, foldTags_of_stop a (not_atEnd_facing hnot _) hb hthere hlt, rfl, rfl⟩

/-- Where the body is cut off the loop needs one end more than the body. -/
theorem of_body (htag : Takes nextTag c taken (.start name attributes) c₁)
    (hfewer : c₁.readings.length < c.readings.length) {closing : List Reading} (hall : AllStops closing)
    (hbody : ∀ rest, ∃ d name', body name attributes a (c₁.facing (c₁.readings ++ closing ++ rest)) =
      .ok a₁ d ∧ d.readings = rest ∧ d.event = .endElement name') : LoopCloses body a c a₁ := by
  have hleft : c.readings = taken ++ c₁.readings := htag.left
  refine ⟨closing ++ [⟨0, .ok (.stop (.unqualified ""))⟩], by simp,
    hall.append (allStops_singleton _ _), fun rest rounds hlt => ?_⟩
  obtain _ | rounds := rounds
  · cases hlt
  obtain ⟨d, name', hd, hrest, hevent⟩ := hbody (⟨0, .ok (.stop (.unqualified ""))⟩ :: rest)
  have hshort : d.readings.length < rounds := by
    simp only [hrest, List.length_append, List.length_cons] at hlt ⊢
    omega
  have hloop : foldTags nextTag body rounds a₁ d = _ :=
    foldTags_of_stop a₁ (not_atEnd_of_stop hevent) .nil hrest hshort
  rw [hleft, show taken ++ c₁.readings ++ (closing ++ [⟨0, .ok (.stop (.unqualified ""))⟩]) ++ rest =
    taken ++ (c₁.readings ++ closing ++ ⟨0, .ok (.stop (.unqualified ""))⟩ :: rest) by simp]
  exact ⟨_, _, bind_eq_ok.2 ⟨_, _, htag.again _, bind_eq_ok.2 ⟨a₁, d, hd, hloop⟩⟩, rfl, rfl⟩

/-- A round more in front. -/
theorem cons (htag : Takes nextTag c taken (.start name attributes) c₁)
    (hfewer : c₁.readings.length < c.readings.length)
    (hround : Takes (body name attributes a) c₁ taken₁ a₁ c₂) (hlater : LoopCloses body a₁ c₂ b) :
    LoopCloses body a c b := by
  have hleft : c.readings = taken ++ c₁.readings := htag.left
  have hleft₁ : c₁.readings = taken₁ ++ c₂.readings := hround.left
  obtain ⟨closing, hne, hall, hclosed⟩ := hlater
  refine ⟨closing, hne, hall, fun rest rounds hlt => ?_⟩
  obtain _ | rounds := rounds
  · cases hlt
  have hshort : (c₂.readings ++ closing ++ rest).length < rounds := by
    rw [hleft₁] at hfewer
    simp only [List.length_append] at hlt hfewer ⊢
    omega
  obtain ⟨d, name', hloop, hrest⟩ := hclosed rest rounds hshort
  refine ⟨d, name', ?_, hrest⟩
  rw [hleft, hleft₁, show taken ++ (taken₁ ++ c₂.readings) ++ closing ++ rest =
    taken ++ (taken₁ ++ (c₂.readings ++ closing ++ rest)) by simp]
  exact bind_eq_ok.2 ⟨_, _, htag.again _, bind_eq_ok.2 ⟨a₁, _, hround.again _, hloop⟩⟩

end LoopCloses

namespace Closes

/-- A loop that ends at the end of the document ends at the last of the ends put there, one
for itself and as many as the body takes that was cut off last. -/
theorem foldTags (hreads : ∀ name attributes a, ReadsElement (body name attributes a))
    (hbody : ∀ name attributes a, Closes (body name attributes a)) {rounds : Nat} {a : σ}
    {r : Tag × σ} {c c' : Cursor} (hrounds : c.readings.length < rounds) (hnot : ¬c.AtEnd)
    (h : FeatureMarkup.foldTags nextTag body rounds a c = .ok r c') (hend : c'.AtEnd) :
    c'.readings = [] ∧ LoopCloses body a c r.2 := by
  induction rounds generalizing a c with
  | zero => cases hrounds
  | succ rounds ih =>
    obtain ⟨tag, c₁, hnext, hrest⟩ := bind_eq_ok.1 h
    cases tag with
    | finish =>
      obtain ⟨rfl, rfl⟩ := pure_eq_ok.1 hrest
      obtain ⟨-, hleft, hb⟩ := nextTag_eq_finish hnot hnext
      exact ⟨hleft, .of_blank a hnot hb⟩
    | stop name =>
      obtain ⟨-, rfl⟩ := pure_eq_ok.1 hrest
      obtain ⟨-, before, -, hreach⟩ := nextTag_eq_stop_iff.1 hnext
      exact absurd hend hreach.not_atEnd
    | start name attributes =>
      obtain ⟨a₁, c₂, hbody₁, hloop⟩ := bind_eq_ok.1 hrest
      obtain ⟨-, before, hb, hreach⟩ := nextTag_eq_start_iff.1 hnext
      obtain ⟨_, _, -, htag⟩ := Takes.nextTag hnot hb hreach
      have hshort := hreach.length_lt
      by_cases hend₂ : c₂.AtEnd
      · obtain ⟨hnil, closing, -, hall, hclosed⟩ := hbody name attributes a hreach.not_atEnd hbody₁ hend₂
        -- The loop has come to its end with the body.
        obtain _ | rounds := rounds
        · omega
        obtain ⟨_, _, hfinish, hdone⟩ := bind_eq_ok.1 hloop
        cases (nextTag_atEnd hend₂).symm.trans hfinish
        obtain ⟨rfl, rfl⟩ := pure_eq_ok.1 hdone
        exact ⟨hnil, .of_body htag hreach.length_lt hall hclosed⟩
      · obtain ⟨taken₁, hround, -⟩ :=
          ((hreads name attributes a).toEnd name attributes hreach.event hbody₁).resolve_left hend₂
        have hleft₁ : c₁.readings = taken₁ ++ c₂.readings := hround.left
        have hshort₂ : c₂.readings.length < rounds := by
          rw [hleft₁, List.length_append] at hshort
          omega
        obtain ⟨hnil, hlater⟩ := ih hshort₂ hend₂ hloop
        exact ⟨hnil, .cons htag hreach.length_lt hround hlater⟩

/-- A loop over children that does not look at the tag it ends at. -/
theorem foldChildren (hreads : ∀ name attributes a, ReadsElement (body name attributes a))
    (hbody : ∀ name attributes a, Closes (body name attributes a)) (a : σ)
    {f : Tag × σ → CursorM β} (hsame : ∀ tag tag' b, f (tag, b) = f (tag', b))
    (hsteady : ∀ r, Steady (f r)) : Closes (Cursor.foldChildren body a >>= f) := by
  intro c b c' hnot h hend
  obtain ⟨⟨tag, b₁⟩, c₁, hloop, hrest⟩ := bind_eq_ok.1 h
  obtain ⟨entries, hdone⟩ := hsteady _ hrest
  obtain rfl : c₁.logging entries = c' := by simpa using (hdone c₁).symm.trans hrest
  obtain ⟨hleft, closing, hne, hall, hclosed⟩ := foldTags hreads hbody c.length_lt_rounds hnot hloop hend
  refine ⟨hleft, closing, hne, hall, fun rest => ?_⟩
  obtain ⟨d, name, hd, hd_left, hd_event⟩ := hclosed rest _ (Nat.lt_succ_self _)
  refine ⟨d.logging entries, name, bind_eq_ok.2 ⟨_, d, hd, ?_⟩, hd_left, hd_event⟩
  rw [hsame _ tag]
  exact hdone d

end Closes

end Loop

/-! ### Readers of one element -/

/-- A reading of one element that comes to the end of that element, or to the end of a
document that is cut off inside it, where it has read what it would read if the ends that are
missing stood there. -/
structure ElementReader (m : CursorM α) : Prop extends ReadsElement m where
  closes : Closes m

namespace ElementReader

/-- A reading that never comes to the end of the document. -/
theorem of_ends {m : CursorM α} (hm : ReadsElement m) (h : ∀ c a c', m c = .ok a c' → ¬c'.AtEnd) :
    ElementReader m := ⟨hm, .of_ends h⟩

theorem elementText : ElementReader Cursor.elementText := by
  refine of_ends Cursor.readsElement_elementText fun c text c' h => ?_
  obtain ⟨-, _, _, _, -, -, hreach⟩ := Cursor.elementText_eq_ok_iff.1 h
  exact hreach.not_atEnd

theorem fail (cause : Cause) : ElementReader (Cursor.fail cause : CursorM α) :=
  ⟨.fail cause, .fail cause⟩

theorem bind_steady {m : CursorM α} {f : α → CursorM β} (hm : ElementReader m)
    (hf : ∀ a, Steady (f a)) : ElementReader (m >>= f) :=
  ⟨hm.toReadsElement.bind_still fun a => (hf a).still, hm.closes.bind_steady hf⟩

theorem still_bind {m : CursorM α} {f : α → CursorM β} (hm : Still m)
    (hf : ∀ a, ElementReader (f a)) : ElementReader (m >>= f) :=
  ⟨.still_bind hm fun a => (hf a).toReadsElement, .still_bind hm fun a => (hf a).closes⟩

theorem map {m : CursorM α} {f : α → β} (hm : ElementReader m) : ElementReader (f <$> m) :=
  ⟨hm.toReadsElement.map, hm.closes.map⟩

/-- A condition is looked at before an element is read. -/
theorem guard {p : Prop} [Decidable p] {cause : Cause} {m : CursorM α} (hm : ElementReader m) :
    ElementReader (if p then Cursor.fail cause >>= fun _ : Unit => m else m) :=
  ⟨hm.toReadsElement.guard, hm.closes.guard⟩

/-- A loop over children that does not look at the tag it ends at. -/
theorem foldChildren {body : Name → List Attribute → σ → CursorM σ}
    (hbody : ∀ name attributes a, ElementReader (body name attributes a)) (a : σ)
    {f : Tag × σ → CursorM β} (hsame : ∀ tag tag' b, f (tag, b) = f (tag', b))
    (hsteady : ∀ r, Steady (f r)) : ElementReader (Cursor.foldChildren body a >>= f) where
  toReadsElement := (ReadsElement.foldChildren (fun name attributes a =>
    (hbody name attributes a).toReadsElement) a).bind_still fun r => (hsteady r).still
  closes := .foldChildren (fun name attributes a => (hbody name attributes a).toReadsElement)
    (fun name attributes a => (hbody name attributes a).closes) a hsame hsteady

end ElementReader

end FeatureMarkup

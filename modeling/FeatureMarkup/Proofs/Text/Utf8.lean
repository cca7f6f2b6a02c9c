import FeatureMarkup.Proofs.Success
import FeatureMarkup.Text.Utf8

/-! What the reader of UTF-8 accepts.

Octets are read as a text exactly if they are the octets of that text
(`decode?_eq_ok_iff`). The reader takes a character at a time (`Spelled`): its first octet says
how many are to come and the range of the next, and with the rest of them gives the number of
the character back. That the ranges leave one spelling for every character, and none for a
number that is no character, is `spelled_iff`. -/
namespace FeatureMarkup.Text.Utf8

/-- The octets of a text. -/
def octets (text : String) : List UInt8 :=
  text.toUTF8.data.toList

theorem octets_eq (text : String) : octets text = text.toList.flatMap String.utf8EncodeChar := by
  rw [octets, String.toUTF8_eq_toByteArray, ← String.utf8Encode_toList, List.utf8Encode,
    List.data_toByteArray]

/-- What is found when there is no fault. -/
def scalars (chars : List Char) : List Item :=
  chars.map .scalar

/-- Octets that complete a character begun. -/
inductive Completes : Begun → List UInt8 → Char → Prop where
  | last {p : Begun} {b : UInt8} {c : Char} : p.low ≤ b.toNat → b.toNat ≤ p.high →
      p.push b.toNat = .inl (.scalar c) → Completes p [b] c
  | more {p p' : Begun} {b : UInt8} {tail : List UInt8} {c : Char} : p.low ≤ b.toNat →
      b.toNat ≤ p.high → p.push b.toNat = .inr p' → Completes p' tail c → Completes p (b :: tail) c

/-- Octets that are a character, at a place of the input. -/
inductive Spelled (index : Nat) : List UInt8 → Char → Prop where
  | single {b : UInt8} {c : Char} : lead index b.toNat = .inl (.scalar c) → Spelled index [b] c
  | begun {b : UInt8} {p : Begun} {tail : List UInt8} {c : Char} :
      lead index b.toNat = .inr p → Completes p tail c → Spelled index (b :: tail) c

variable {index : Nat} {b : UInt8} {p : Begun} {bytes rest spelling : List UInt8} {c : Char}
  {chars : List Char}

/-! ### One character among the octets -/

theorem Completes.items (h : Completes p spelling c) (index : Nat) (rest : List UInt8) :
    ∃ next, items index (some p) (spelling ++ rest) = .scalar c :: items next none rest := by
  induction h generalizing index with
  | last hlow hhigh hpush =>
    refine ⟨index + 1, ?_⟩
    rw [List.singleton_append, Utf8.items, if_pos ⟨hlow, hhigh⟩, hpush]
  | more hlow hhigh hpush _ ih =>
    obtain ⟨next, hnext⟩ := ih (index + 1)
    refine ⟨next, ?_⟩
    rw [List.cons_append, Utf8.items, if_pos ⟨hlow, hhigh⟩, hpush]
    exact hnext

theorem Spelled.items (h : Spelled index spelling c) (rest : List UInt8) :
    ∃ next, items index none (spelling ++ rest) = .scalar c :: items next none rest := by
  cases h with
  | single hlead =>
    refine ⟨index + 1, ?_⟩
    rw [List.singleton_append, Utf8.items, hlead]
  | begun hlead hcompletes =>
    obtain ⟨next, hnext⟩ := hcompletes.items (index + 1) rest
    refine ⟨next, ?_⟩
    rw [List.cons_append, Utf8.items, hlead]
    exact hnext

/-- Where nothing is at fault, a character begun is completed. -/
theorem exists_completes (h : items index (some p) bytes = scalars chars) :
    ∃ c more spelling rest next, chars = c :: more ∧ bytes = spelling ++ rest ∧
      Completes p spelling c ∧ items next none rest = scalars more := by
  induction bytes generalizing index p with
  | nil => cases chars <;> simp [items, scalars] at h
  | cons b bytes ih =>
    unfold items at h
    split at h
    next hrange =>
      obtain ⟨hlow, hhigh⟩ := hrange
      split at h
      next item hpush =>
        cases chars with
        | nil => cases h
        | cons c more =>
          obtain ⟨rfl, hrest⟩ := List.cons.inj h
          exact ⟨c, more, [b], bytes, index + 1, rfl, rfl, .last hlow hhigh hpush, hrest⟩
      next p' hpush =>
        obtain ⟨c, more, spelling, rest, next, hchars, rfl, hcompletes, hrest⟩ := ih h
        exact ⟨c, more, b :: spelling, rest, next, hchars, rfl,
          .more hlow hhigh hpush hcompletes, hrest⟩
    · cases chars <;> simp [scalars] at h

theorem exists_spelled (h : items index none (b :: bytes) = scalars chars) :
    ∃ c more spelling rest next, chars = c :: more ∧ b :: bytes = spelling ++ rest ∧
      Spelled index spelling c ∧ items next none rest = scalars more := by
  unfold items at h
  split at h
  next item hlead =>
    cases chars with
    | nil => cases h
    | cons c more =>
      obtain ⟨rfl, hrest⟩ := List.cons.inj h
      exact ⟨c, more, [b], bytes, index + 1, rfl, rfl, .single hlead, hrest⟩
  next p hlead =>
    obtain ⟨c, more, spelling, rest, next, hchars, rfl, hcompletes, hrest⟩ := exists_completes h
    exact ⟨c, more, b :: spelling, rest, next, hchars, rfl, .begun hlead hcompletes, hrest⟩

/-! ### The spelling of a character -/

theorem completes_one_iff {start taken bits low high : Nat} :
    Completes ⟨start, taken, bits, 1, low, high⟩ spelling c ↔
      ∃ b : UInt8, spelling = [b] ∧ low ≤ b.toNat ∧ b.toNat ≤ high ∧
        c = Char.ofNat (bits * 64 + (b.toNat - 0x80)) := by
  constructor
  · intro h
    cases h with
    | last hlow hhigh hpush =>
      simp only [Begun.push, Sum.inl.injEq, Item.scalar.injEq] at hpush
      exact ⟨_, rfl, hlow, hhigh, hpush.symm⟩
    | more _ _ hpush => simp [Begun.push] at hpush
  · intro h
    obtain ⟨b, rfl, hlow, hhigh, hc⟩ := h
    rw [hc]
    exact .last hlow hhigh (by simp only [Begun.push])

theorem completes_succ_iff {start taken bits missing low high : Nat} :
    Completes ⟨start, taken, bits, missing + 2, low, high⟩ spelling c ↔
      ∃ (b : UInt8) (tail : List UInt8), spelling = b :: tail ∧ low ≤ b.toNat ∧ b.toNat ≤ high ∧
        Completes ⟨start, taken + 1, bits * 64 + (b.toNat - 0x80), missing + 1, 0x80, 0xBF⟩ tail c := by
  constructor
  · intro h
    cases h with
    | last _ _ hpush => simp [Begun.push] at hpush
    | more hlow hhigh hpush htail =>
      simp only [Begun.push, Sum.inr.injEq] at hpush
      subst hpush
      exact ⟨_, _, rfl, hlow, hhigh, htail⟩
  · intro h
    obtain ⟨b, tail, rfl, hlow, hhigh, htail⟩ := h
    exact .more hlow hhigh (by simp only [Begun.push]) htail

/-- The octets of a character of each size, from its number. -/
theorem utf8EncodeChar_ofNat {n : Nat} (hvalid : n.isValidChar) :
    String.utf8EncodeChar (Char.ofNat n) =
      if n ≤ 0x7F then [UInt8.ofNat n]
      else if n ≤ 0x7FF then [UInt8.ofNat (n / 64 + 0xC0), UInt8.ofNat (n % 64 + 0x80)]
      else if n ≤ 0xFFFF then
        [UInt8.ofNat (n / 4096 + 0xE0), UInt8.ofNat (n / 64 % 64 + 0x80), UInt8.ofNat (n % 64 + 0x80)]
      else
        [UInt8.ofNat (n / 262144 + 0xF0), UInt8.ofNat (n / 4096 % 64 + 0x80),
          UInt8.ofNat (n / 64 % 64 + 0x80), UInt8.ofNat (n % 64 + 0x80)] := by
  have hn : (Char.ofNat n).val.toNat = n := by
    rw [Char.ofNat, dif_pos hvalid]
    rfl
  have hlt : n < 0x110000 := by
    rcases hvalid with h | ⟨-, h⟩
    · omega
    · exact h
  unfold String.utf8EncodeChar
  simp only [hn]
  split
  · rfl
  split
  · rw [Nat.mod_eq_of_lt (a := n / 64) (by omega)]
  split
  · rw [Nat.mod_eq_of_lt (a := n / 4096) (by omega)]
  · rw [Nat.mod_eq_of_lt (a := n / 262144) (by omega)]

theorem lead_eq_scalar (h : lead index b.toNat = .inl (.scalar c)) :
    b.toNat < 0x80 ∧ c = Char.ofNat b.toNat := by
  unfold lead at h
  split at h
  next hlt => exact ⟨hlt, by simpa using h.symm⟩
  · repeat' first | split at h | simp at h

/-- The three ways to begin a character. -/
theorem lead_eq_begun_iff {n : Nat} : lead index n = .inr p ↔
    (0xC2 ≤ n ∧ n < 0xE0 ∧ p = ⟨index, 1, n - 0xC0, 1, 0x80, 0xBF⟩) ∨
    (0xE0 ≤ n ∧ n < 0xF0 ∧ p = ⟨index, 1, n - 0xE0, 2, if n = 0xE0 then 0xA0 else 0x80,
      if n = 0xED then 0x9F else 0xBF⟩) ∨
    (0xF0 ≤ n ∧ n < 0xF5 ∧ p = ⟨index, 1, n - 0xF0, 3, if n = 0xF0 then 0x90 else 0x80,
      if n = 0xF4 then 0x8F else 0xBF⟩) := by
  constructor
  · intro h
    unfold lead at h
    split at h
    · simp at h
    split at h
    · simp at h
    split at h
    · exact .inl ⟨by omega, by omega, (Sum.inr.inj h).symm⟩
    split at h
    · exact .inr (.inl ⟨by omega, by omega, (Sum.inr.inj h).symm⟩)
    split at h
    · exact .inr (.inr ⟨by omega, by omega, (Sum.inr.inj h).symm⟩)
    · simp at h
  · intro h
    unfold lead
    rw [if_neg (by omega), if_neg (by omega)]
    rcases h with ⟨hlow, hhigh, rfl⟩ | ⟨hlow, hhigh, rfl⟩ | ⟨hlow, hhigh, rfl⟩
    · rw [if_pos hhigh]
    · rw [if_neg (by omega), if_pos hhigh]
    · rw [if_neg (by omega), if_neg (by omega), if_pos hhigh]

theorem ofNat_eq_self {n : Nat} (h : n = b.toNat) : UInt8.ofNat n = b := by
  rw [h, UInt8.ofNat_toNat]

/-- The number put together from an octet and those behind it. -/
theorem Completes.eq_utf8EncodeChar (hlead : lead index b.toNat = .inr p)
    (h : Completes p rest c) : b :: rest = String.utf8EncodeChar c := by
  rcases lead_eq_begun_iff.1 hlead with ⟨hlow, hhigh, rfl⟩ | ⟨hlow, hhigh, rfl⟩ | ⟨hlow, hhigh, rfl⟩
  · obtain ⟨b₂, rfl, hlow₂, hhigh₂, hc⟩ := completes_one_iff.1 h
    rw [hc, utf8EncodeChar_ofNat (.inl (by omega)), if_neg (by omega), if_pos (by omega),
      ofNat_eq_self (b := b) (by omega), ofNat_eq_self (b := b₂) (by omega)]
  · obtain ⟨b₂, tail, rfl, hlow₂, hhigh₂, htail⟩ := completes_succ_iff.1 h
    obtain ⟨b₃, rfl, hlow₃, hhigh₃, hc⟩ := completes_one_iff.1 htail
    have hleast : 0x80 ≤ b₂.toNat ∧ (b.toNat = 0xE0 → 0xA0 ≤ b₂.toNat) := by
      split at hlow₂ <;> omega
    have hmost : b₂.toNat ≤ 0xBF ∧ (b.toNat = 0xED → b₂.toNat ≤ 0x9F) := by
      split at hhigh₂ <;> omega
    clear hlow₂ hhigh₂
    rw [hc, utf8EncodeChar_ofNat (by unfold Nat.isValidChar; omega), if_neg (by omega),
      if_neg (by omega), if_pos (by omega), ofNat_eq_self (b := b) (by omega),
      ofNat_eq_self (b := b₂) (by omega), ofNat_eq_self (b := b₃) (by omega)]
  · obtain ⟨b₂, tail, rfl, hlow₂, hhigh₂, htail⟩ := completes_succ_iff.1 h
    obtain ⟨b₃, tail, rfl, hlow₃, hhigh₃, htail⟩ := completes_succ_iff.1 htail
    obtain ⟨b₄, rfl, hlow₄, hhigh₄, hc⟩ := completes_one_iff.1 htail
    have hleast : 0x80 ≤ b₂.toNat ∧ (b.toNat = 0xF0 → 0x90 ≤ b₂.toNat) := by
      split at hlow₂ <;> omega
    have hmost : b₂.toNat ≤ 0xBF ∧ (b.toNat = 0xF4 → b₂.toNat ≤ 0x8F) := by
      split at hhigh₂ <;> omega
    clear hlow₂ hhigh₂
    rw [hc, utf8EncodeChar_ofNat (by unfold Nat.isValidChar; omega), if_neg (by omega),
      if_neg (by omega), if_neg (by omega), ofNat_eq_self (b := b) (by omega),
      ofNat_eq_self (b := b₂) (by omega), ofNat_eq_self (b := b₃) (by omega),
      ofNat_eq_self (b := b₄) (by omega)]

theorem toNat_ofNat_of_lt {n : Nat} (h : n < 256) : (UInt8.ofNat n).toNat = n :=
  UInt8.toNat_ofNat_of_lt' h

theorem spelled_ofNat {n : Nat} (hvalid : n.isValidChar) :
    Spelled index (String.utf8EncodeChar (Char.ofNat n)) (Char.ofNat n) := by
  rw [utf8EncodeChar_ofNat hvalid]
  unfold Nat.isValidChar at hvalid
  split
  next hle =>
    apply Spelled.single
    rw [toNat_ofNat_of_lt (by omega), lead, if_pos (by omega)]
  split
  next hle =>
    have hfirst := toNat_ofNat_of_lt (n := n / 64 + 0xC0) (by omega)
    have hsecond := toNat_ofNat_of_lt (n := n % 64 + 0x80) (by omega)
    refine .begun (lead_eq_begun_iff.2 (.inl ⟨by omega, by omega, rfl⟩)) ?_
    exact completes_one_iff.2 ⟨_, rfl, by omega, by omega, congrArg _ (by omega)⟩
  split
  next hle =>
    have hfirst := toNat_ofNat_of_lt (n := n / 4096 + 0xE0) (by omega)
    have hsecond := toNat_ofNat_of_lt (n := n / 64 % 64 + 0x80) (by omega)
    have hthird := toNat_ofNat_of_lt (n := n % 64 + 0x80) (by omega)
    refine .begun (lead_eq_begun_iff.2 (.inr (.inl ⟨by omega, by omega, rfl⟩))) ?_
    refine completes_succ_iff.2 ⟨_, _, rfl, by split <;> omega, by split <;> omega, ?_⟩
    exact completes_one_iff.2 ⟨_, rfl, by omega, by omega, congrArg _ (by omega)⟩
  · have hfirst := toNat_ofNat_of_lt (n := n / 262144 + 0xF0) (by omega)
    have hsecond := toNat_ofNat_of_lt (n := n / 4096 % 64 + 0x80) (by omega)
    have hthird := toNat_ofNat_of_lt (n := n / 64 % 64 + 0x80) (by omega)
    have hfourth := toNat_ofNat_of_lt (n := n % 64 + 0x80) (by omega)
    refine .begun (lead_eq_begun_iff.2 (.inr (.inr ⟨by omega, by omega, rfl⟩))) ?_
    refine completes_succ_iff.2 ⟨_, _, rfl, by split <;> omega, by split <;> omega, ?_⟩
    refine completes_succ_iff.2 ⟨_, _, rfl, by omega, by omega, ?_⟩
    exact completes_one_iff.2 ⟨_, rfl, by omega, by omega, congrArg _ (by omega)⟩

theorem spelled_iff : Spelled index spelling c ↔ spelling = String.utf8EncodeChar c := by
  constructor
  · intro h
    cases h with
    | single hlead =>
      obtain ⟨hlt, rfl⟩ := lead_eq_scalar hlead
      rw [utf8EncodeChar_ofNat (.inl (by omega)), if_pos (by omega), UInt8.ofNat_toNat]
    | begun hlead hcompletes => exact hcompletes.eq_utf8EncodeChar hlead
  · intro h
    rw [h, ← Char.ofNat_toNat c]
    exact spelled_ofNat c.valid

/-! ### All octets -/

theorem exists_items_utf8EncodeChar (index : Nat) (c : Char) (rest : List UInt8) :
    ∃ next, items index none (String.utf8EncodeChar c ++ rest) = .scalar c :: items next none rest :=
  (spelled_iff.2 rfl).items rest

theorem items_flatMap (index : Nat) (chars : List Char) :
    items index none (chars.flatMap String.utf8EncodeChar) = scalars chars := by
  induction chars generalizing index with
  | nil => rfl
  | cons c chars ih =>
    obtain ⟨next, hnext⟩ := exists_items_utf8EncodeChar index c (chars.flatMap String.utf8EncodeChar)
    rw [List.flatMap_cons, hnext, ih]
    rfl

theorem eq_flatMap_of_items (h : items index none bytes = scalars chars) :
    bytes = chars.flatMap String.utf8EncodeChar := by
  induction chars generalizing index bytes with
  | nil =>
    cases bytes with
    | nil => rfl
    | cons b bytes =>
      obtain ⟨c, more, spelling, rest, next, hchars, -, -, -⟩ := exists_spelled h
      cases hchars
  | cons c chars ih =>
    cases bytes with
    | nil => cases h
    | cons b bytes =>
      obtain ⟨_, _, spelling, rest, next, hchars, hbytes, hspelled, hrest⟩ := exists_spelled h
      obtain ⟨rfl, rfl⟩ := List.cons.inj hchars
      rw [hbytes, List.flatMap_cons, spelled_iff.1 hspelled, ih hrest]

/-- One fault is enough to refuse all. -/
theorem mapM_items_iff {char : Item → Except Fault Char} (hscalar : ∀ c, char (.scalar c) = .ok c)
    (hfault : ∀ f, char (.fault f) = .error f) {found : List Item} :
    found.mapM char = .ok chars ↔ found = scalars chars := by
  induction found generalizing chars with
  | nil => cases chars <;> simp [scalars, pure, Except.pure]
  | cons item found ih =>
    simp only [List.mapM_cons, exceptBind_eq_ok, ih]
    cases item with
    | fault f => cases chars <;> simp [hfault, scalars]
    | scalar c =>
      cases chars with
      | nil => simp [scalars, pure, Except.pure]
      | cons c' more =>
        simp only [hscalar, Except.ok.injEq, exists_eq_left', scalars, List.map_cons,
          List.cons.injEq, Item.scalar.injEq, pure, Except.pure]
        constructor
        · intro h
          obtain ⟨_, hfound, rfl, rfl⟩ := h
          exact ⟨rfl, hfound⟩
        · intro h
          exact ⟨more, h.2, h.1, rfl⟩

/-- Octets are read as the text that they spell. -/
theorem decode?_eq_ok_iff {bytes : List UInt8} {text : String} :
    decode? bytes = .ok text ↔ bytes = octets text := by
  have hscalars : decode? bytes = .ok text ↔ items 0 none bytes = scalars text.toList := by
    rw [decode?, exceptMap_eq_ok]
    constructor
    · intro h
      obtain ⟨chars, hitems, rfl⟩ := h
      rw [(mapM_items_iff (fun _ => rfl) fun _ => rfl).1 hitems, String.toList_ofList]
    · intro h
      exact ⟨text.toList, (mapM_items_iff (fun _ => rfl) fun _ => rfl).2 h, String.ofList_toList⟩
  rw [hscalars, octets_eq]
  constructor
  · exact eq_flatMap_of_items
  · intro h
    rw [h, items_flatMap]

end FeatureMarkup.Text.Utf8

/-! Blank characters, and cutting text at them.

A character is blank when it has the Unicode property White_Space. Trimming takes
blank characters off both ends, `words` cuts text into its runs of other
characters, and `fields` cuts at every place a separator stands. -/
namespace FeatureMarkup.Text

/-- First and last code points of the ranges that have the property White_Space. -/
def blankRanges : List (Nat × Nat) :=
  [(0x09, 0x0D), (0x20, 0x20), (0x85, 0x85), (0xA0, 0xA0), (0x1680, 0x1680), (0x2000, 0x200A),
    (0x2028, 0x2029), (0x202F, 0x202F), (0x205F, 0x205F), (0x3000, 0x3000)]

/-- Whether a character has the property White_Space. -/
def isBlank (c : Char) : Bool :=
  blankRanges.any fun (first, last) => first ≤ c.toNat && c.toNat ≤ last

/-- Whether text holds nothing but blank characters. -/
def allBlank (s : String) : Bool :=
  s.toList.all isBlank

/-- The characters without the blank ones at either end. -/
def trimChars (cs : List Char) : List Char :=
  ((cs.dropWhile isBlank).reverse.dropWhile isBlank).reverse

/-- Text without the blank characters at either end. -/
def trim (s : String) : String :=
  String.ofList (trimChars s.toList)

/-- The pieces between the elements that satisfy `cut`, empty ones included. -/
def pieces (cut : α → Bool) : List α → List (List α)
  | [] => [[]]
  | a :: rest =>
    match pieces cut rest with
    | [] => [[a]]
    | piece :: later => if cut a then [] :: piece :: later else (a :: piece) :: later

/-- The maximal runs of characters that are not blank. -/
def words (s : String) : List String :=
  ((pieces isBlank s.toList).filter (· ≠ [])).map String.ofList

/-- The pieces between the places where `separator` stands, the first `skip`
characters being the rest of a separator already met. -/
def piecesBetween (separator : List Char) : Nat → List Char → List (List Char)
  | _, [] => [[]]
  | skip + 1, _ :: rest => piecesBetween separator skip rest
  | 0, c :: rest =>
    if separator.isPrefixOf (c :: rest) then
      [] :: piecesBetween separator (separator.length - 1) rest
    else
      match piecesBetween separator 0 rest with
      | [] => [[c]]
      | piece :: later => (c :: piece) :: later

/-- Text cut at a separator, from the left. An empty separator stands before
every character and at the end. -/
def fields (separator s : String) : List String :=
  if separator.isEmpty then
    "" :: (s.toList.map String.singleton ++ [""])
  else
    (piecesBetween separator.toList 0 s.toList).map String.ofList

theorem allBlank_append (s t : String) : allBlank (s ++ t) = (allBlank s && allBlank t) := by
  simp [allBlank]

theorem isBlank_of_isWhitespace {c : Char} (h : c.isWhitespace = true) : isBlank c = true := by
  simp only [Char.isWhitespace, Bool.or_eq_true, decide_eq_true_eq] at h
  rcases h with ((rfl | rfl) | rfl) | rfl <;> rfl

end FeatureMarkup.Text

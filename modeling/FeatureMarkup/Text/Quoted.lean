import FeatureMarkup.Text.Extender
import FeatureMarkup.Text.Unprinted

/-! Text in double quotes, for the log.

Quotes and backslashes take a backslash, and so do the characters that have a letter
for it; characters that do not show by themselves are written by their number. -/
namespace FeatureMarkup.Text.Quoted

/-- Whether a character is written by its number. -/
def isHidden (c : Char) : Bool :=
  isUnprinted c || isExtender c

/-- One character inside quotes. -/
def encodeChar (c : Char) : String :=
  match c with
  | '"' => "\\\""
  | '\\' => "\\\\"
  | '\n' => "\\n"
  | '\r' => "\\r"
  | '\t' => "\\t"
  | '\x00' => "\\0"
  | c =>
    if isHidden c then "\\u\x7b" ++ String.ofList (Nat.toDigits 16 c.toNat) ++ "\x7d"
    else c.toString

/-- Text in quotes. -/
def encode (s : String) : String :=
  "\"" ++ String.join (s.toList.map encodeChar) ++ "\""

/-- Text in quotes that may be absent. -/
def encodeOption : Option String → String
  | some s => "Some(" ++ encode s ++ ")"
  | none => "None"

end FeatureMarkup.Text.Quoted

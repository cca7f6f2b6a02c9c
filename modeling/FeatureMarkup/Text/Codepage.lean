/-! Code page 437, the character set of names without a declared encoding.

The lower half is ASCII; the upper half is a table of 128 characters. -/
namespace FeatureMarkup.Text.Codepage

/-- The characters of the octets from 0x80 on. -/
def upperHalf : List Char :=
  ("ÇüéâäàåçêëèïîìÄÅÉæÆôöòûùÿÖÜ¢£¥₧ƒáíóúñÑªº¿⌐¬½¼¡«»░▒▓│┤╡╢╖╕╣║╗╝╜╛┐└┴┬├─┼╞╟╚╔╩╦╠═╬╧╨╤╥╙╘╒╓╫╪┘┌█▄▌▐▀" ++
    "αßΓπΣσµτΦΘΩδ∞φε∩≡±≥≤⌠⌡÷≈°∙·√ⁿ²■\u00A0").toList

/-- The character of one octet. -/
def char (b : UInt8) : Char :=
  if b < 0x80 then Char.ofNat b.toNat else upperHalf.getD (b.toNat - 0x80) ' '

/-- The text of a run of octets. -/
def decode (bytes : List UInt8) : String :=
  String.ofList (bytes.map char)

end FeatureMarkup.Text.Codepage

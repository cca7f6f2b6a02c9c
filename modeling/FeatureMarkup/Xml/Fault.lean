import FeatureMarkup.Text.Utf8

/-! What can be wrong with markup.

A fault says what was found and where, counted in octets of the piece of input it
was found in; `Fault.message` puts it into words. -/
namespace FeatureMarkup.Xml

/-- Pieces of markup that have an end of their own. -/
inductive Construct where
  | instruction
  | comment
  | doctype
  | cdata
  | tag
deriving DecidableEq, Repr

/-- Faults of an attribute; positions count from the start of the tag's content. -/
inductive AttributeFault where
  | missingEquals (position : Nat)
  | missingValue (position : Nat)
  | unquotedValue (position : Nat)
  | openValue (position : Nat) (quote : Char)
  | repeated (position previous : Nat)
deriving DecidableEq, Repr

/-- Faults of a character reference. -/
inductive ReferenceFault where
  | signed
  | badDigit
  | empty
  | tooLarge
  | noCharacter (code : Nat)
  | zero
deriving DecidableEq, Repr

/-- Faults of a namespace declaration, with the octets of its value or its label. -/
inductive DeclarationFault where
  /-- The label `xml` bound to another namespace. -/
  | boundXml (value : List UInt8)
  /-- The label `xmlns` bound at all. -/
  | boundXmlns (value : List UInt8)
  /-- Another label bound to the namespace of `xml`. -/
  | stolenXml (label : List UInt8)
  /-- Another label bound to the namespace of `xmlns`. -/
  | stolenXmlns (label : List UInt8)
deriving DecidableEq, Repr

/-- Everything that can be wrong with markup. -/
inductive Fault where
  | strayMarkup
  | unclosed (construct : Construct)
  | namelessDoctype
  | unmatchedEnd (found : String)
  | mismatchedEnd (expected found : String)
  | attribute (fault : AttributeFault)
  | unknownEntity (start stop : Nat) (name : String)
  | openReference (start stop : Nat)
  | characterReference (fault : ReferenceFault)
  | encoding (fault : Text.Utf8.Fault)
  | declaration (fault : DeclarationFault)
deriving DecidableEq, Repr

/-! ### Wording -/

/-- What was not closed, and by what. -/
def Construct.message : Construct → String
  | .instruction => "processing instruction or xml declaration not closed: `?>` not found before end of input"
  | .comment => "comment not closed: `-->` not found before end of input"
  | .doctype => "DOCTYPE not closed: `>` not found before end of input"
  | .cdata => "CDATA not closed: `]]>` not found before end of input"
  | .tag => "tag not closed: `>` not found before end of input"

/-- An attribute's fault in words. -/
def AttributeFault.message : AttributeFault → String
  | .missingEquals p => s!"position {p}: attribute key must be directly followed by `=` or space"
  | .missingValue p => s!"position {p}: `=` must be followed by an attribute value"
  | .unquotedValue p => s!"position {p}: attribute value must be enclosed in `\"` or `'`"
  | .openValue p quote =>
    s!"position {p}: missing closing quote `" ++ quote.toString ++ "` in attribute value"
  | .repeated p previous =>
    s!"position {p}: duplicated attribute, previous declaration at position {previous}"

/-- A character reference's fault in words. -/
def ReferenceFault.message : ReferenceFault → String
  | .signed => "unexpected number sign"
  | .badDigit => "invalid digit found in string"
  | .empty => "cannot parse integer from empty string"
  | .tooLarge => "number too large to fit in target type"
  | .noCharacter code => s!"`{code}` is not a valid codepoint"
  | .zero => "0x0 character is not permitted in XML"

/-- One octet of a value shown in a message: printable ASCII as it is, a quote
escaped, all else in hexadecimal. -/
def showOctet (b : UInt8) : String :=
  if b = 34 then "\\\""
  else if 32 ≤ b ∧ b ≤ 126 then (Char.ofNat b.toNat).toString
  else "0x" ++ String.ofList ((Nat.toDigits 16 b.toNat).map Char.toUpper)

/-- The octets of a value in double quotes. -/
def showOctets (bytes : List UInt8) : String :=
  "\"" ++ String.join (bytes.map showOctet) ++ "\""

/-- A namespace declaration's fault in words. -/
def DeclarationFault.message : DeclarationFault → String
  | .boundXml value => "the namespace prefix 'xml' cannot be bound to '" ++ showOctets value ++ "'"
  | .boundXmlns value => "the namespace prefix 'xmlns' cannot be bound to '" ++ showOctets value ++ "'"
  | .stolenXml label =>
    "the namespace prefix '" ++ showOctets label ++
      "' cannot be bound to 'http://www.w3.org/XML/1998/namespace'"
  | .stolenXmlns label =>
    "the namespace prefix '" ++ showOctets label ++
      "' cannot be bound to 'http://www.w3.org/2000/xmlns/'"

/-- A fault in words. -/
def Fault.message : Fault → String
  | .strayMarkup => "syntax error: unknown or missed symbol in markup"
  | .unclosed construct => "syntax error: " ++ construct.message
  | .namelessDoctype =>
    "ill-formed document: `<!DOCTYPE>` declaration does not contain a name of a document type"
  | .unmatchedEnd found =>
    "ill-formed document: close tag `</" ++ found ++ ">` does not match any open tag"
  | .mismatchedEnd expected found =>
    "ill-formed document: expected `</" ++ expected ++ ">`, but `</" ++ found ++ ">` was found"
  | .attribute fault => "error while parsing attribute: " ++ fault.message
  | .unknownEntity start stop name =>
    s!"at {start}..{stop}: unrecognized entity `" ++ name ++ "`"
  | .openReference start stop =>
    s!"Error while escaping character at range {start}..{stop}: Cannot find ';' after '&'"
  | .characterReference fault => "invalid character reference: " ++ fault.message
  | .encoding fault => "cannot decode input using UTF-8: " ++ fault.message
  | .declaration fault => fault.message

/-- Whether nothing can be read after a fault: the end of the markup it stands in
is not known. -/
def Fault.isFinal : Fault → Bool
  | .strayMarkup | .unclosed _ => true
  | _ => false

end FeatureMarkup.Xml

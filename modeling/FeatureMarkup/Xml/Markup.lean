import FeatureMarkup.Xml.Fault

/-! The pieces of markup in a run of octets, without regard to nesting.

One pass over the octets keeps the kind of markup it is in and the content read so
far. A run of text ends before the next `<`; a tag ends at the first `>` outside
quotes; instructions, comments and character data sections end at their own closing
marks, and a document type at the `>` that balances every `<` inside it. Each piece
comes with the number of octets read up to its end. A fault that leaves the end of
its markup unknown is the last thing listed. -/
namespace FeatureMarkup.Xml

/-- A piece of markup with its content in octets. -/
inductive Markup where
  | text (content : List UInt8)
  | cdata (content : List UInt8)
  /-- A start tag, without the angle brackets. -/
  | start (content : List UInt8)
  /-- A tag that is start and end at once, without the angle brackets and the slash. -/
  | empty (content : List UInt8)
  /-- An end tag, without the angle brackets and the slash. -/
  | stop (content : List UInt8)
  /-- Markup without content for the document. -/
  | ignored

/-- A piece of markup, or what is wrong in its place, and where it ends. -/
structure Piece where
  offset : Nat
  markup : Except Fault Markup

/-- White space inside markup. -/
def isSpace (b : UInt8) : Bool :=
  b = 32 || b = 9 || b = 10 || b = 13

/-- An octet of an ASCII character. -/
abbrev octet (c : Char) : UInt8 := c.toUInt8

/-- The octets of ASCII text. -/
def octets (s : String) : List UInt8 := s.toList.map octet

/-- The kind of markup being read. -/
inductive Mode where
  | text
  | tag (quote : Option UInt8)
  | instruction
  | comment
  | cdata
  | doctype (depth : Nat)

/-- What the end of the input leaves open. -/
def Mode.construct? : Mode → Option Construct
  | .text => none
  | .tag _ => some .tag
  | .instruction => some .instruction
  | .comment => some .comment
  | .cdata => some .cdata
  | .doctype _ => some .doctype

/-- Whether a `>` ends the markup whose content so far is given back to front. -/
def Mode.ends : Mode → List UInt8 → Bool
  | .text, _ => false
  | .tag quote, _ => quote.isNone
  | .instruction, content => (octets "?").isPrefixOf content
  | .comment, content => (octets "--").isPrefixOf content && 5 ≤ content.length
  | .cdata, content => (octets "]]").isPrefixOf content
  | .doctype depth, _ => depth = 0

/-- The mode after one more octet of content. -/
def Mode.next : Mode → UInt8 → Mode
  | .tag none, b => .tag (if b = octet '"' ∨ b = octet '\'' then some b else none)
  | .tag (some quote), b => .tag (if b = quote then none else some quote)
  | .doctype depth, b =>
    .doctype (if b = octet '<' then depth + 1 else if b = octet '>' then depth - 1 else depth)
  | mode, _ => mode

/-- A tag by its content: an end tag if it begins with a slash (47), and start and end
at once if it ends in one. -/
def tagOf (content : List UInt8) : Markup :=
  match content, content.getLast? with
  | 47 :: rest, _ => .stop rest
  | content, some 47 => .empty content.dropLast
  | content, _ => .start content

/-- A document type by its content. -/
def doctypeOf (content : List UInt8) : Except Fault Markup :=
  let keyword := octets "!DOCTYPE"
  let upper (b : UInt8) : UInt8 := if octet 'a' ≤ b ∧ b ≤ octet 'z' then b - 32 else b
  if (content.take keyword.length).map upper = keyword then
    if (content.drop keyword.length).all isSpace then .error .namelessDoctype else .ok .ignored
  else
    .error (.unclosed .doctype)

/-- The markup whose end was found, by its content. -/
def Mode.close (mode : Mode) (content : List UInt8) : Except Fault Markup :=
  match mode with
  | .text => .ok (.text content)
  | .tag _ => .ok (tagOf content)
  | .instruction => if content.length ≤ 1 then .error (.unclosed .instruction) else .ok .ignored
  | .comment =>
    if (octets "!--").isPrefixOf content then .ok .ignored else .error (.unclosed .comment)
  | .cdata =>
    if (octets "![CDATA[").isPrefixOf content then
      .ok (.cdata ((content.drop 8).dropLast.dropLast))
    else
      .error (.unclosed .cdata)
  | .doctype _ => doctypeOf content

/-- The markup that `<!` begins, by the octet after it. -/
def declarationMode? (b : UInt8) : Option Mode :=
  if b = octet '[' then some .cdata
  else if b = octet '-' then some .comment
  else if b = octet 'D' ∨ b = octet 'd' then some (.doctype 0)
  else none

/-- A run of text, none if it is empty. -/
def textPiece (offset : Nat) (content : List UInt8) : List Piece :=
  if content.isEmpty then [] else [⟨offset, .ok (.text content.reverse)⟩]

/-- The pieces of the remaining octets, with `content` read of the present one, back
to front, and `offset` octets read in all. Behind a `<`, an exclamation mark (33) and
a question mark (63) begin other markup than a tag. -/
def piecesFrom (mode : Mode) (content : List UInt8) (offset : Nat) : List UInt8 → List Piece
  | [] =>
    match mode.construct? with
    | none => textPiece offset content
    | some construct => [⟨offset, .error (.unclosed construct)⟩]
  | b :: rest =>
    match mode with
    | .text =>
      if b = octet '<' then
        textPiece offset content ++
          match rest with
          | 33 :: [] => [⟨offset + 1, .error .strayMarkup⟩]
          | 33 :: kind :: rest =>
            match declarationMode? kind with
            | some mode => piecesFrom mode [kind, octet '!'] (offset + 3) rest
            | none => [⟨offset + 1, .error .strayMarkup⟩]
          | 63 :: rest => piecesFrom .instruction [octet '?'] (offset + 2) rest
          | rest => piecesFrom (.tag none) [] (offset + 1) rest
      else
        piecesFrom .text (b :: content) (offset + 1) rest
    | mode =>
      if b = octet '>' ∧ mode.ends content then
        match mode.close content.reverse with
        | .error fault =>
          ⟨offset + 1, .error fault⟩ ::
            if fault.isFinal then [] else piecesFrom .text [] (offset + 1) rest
        | .ok markup => ⟨offset + 1, .ok markup⟩ :: piecesFrom .text [] (offset + 1) rest
      else
        piecesFrom (mode.next b) (b :: content) (offset + 1) rest

/-- The input without a byte order mark at its very start. -/
def withoutMark : List UInt8 → List UInt8
  | 0xEF :: 0xBB :: 0xBF :: rest => rest
  | bytes => bytes

/-- The pieces of markup in an input. -/
def markup (bytes : List UInt8) : List Piece :=
  piecesFrom .text [] 0 (withoutMark bytes)

end FeatureMarkup.Xml

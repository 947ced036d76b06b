import Ambient.Text.Blank
import Ambient.Text.Hex
import Ambient.Token.Basic
/-!
# Reading tokens from text

`Scanner.next` skips the gap before the next token (white space, line breaks and comments) and
reads one token. Words are maximal runs; any non-ASCII character that is not blank belongs to a
word. A blank character that is not white space of the language (such as U+3000) stops the scanner:
it answers an empty identifier there, again and again.
-/

namespace Ambient

/-! ## Character classes -/

/-- The line breaks of the language. -/
def isLineBreak (c : Char) : Bool := c == '\n' || c == '\r' || c == '\u2028' || c == '\u2029'

/-- White space of the language, line breaks apart. -/
def isSpace (c : Char) : Bool :=
  c == ' ' || c == '\t' || c == '\x0b' || c == '\x0c' || c == '\u00a0' || c == '\ufeff'

/-- The ASCII characters of words. -/
def isPlainWordChar (c : Char) : Bool := c.isAlphanum || c == '$' || c == '_'

/-- The characters of words: the plain ones and everything beyond ASCII that is not blank. -/
def isWordChar (c : Char) : Bool := isPlainWordChar c || (128 ≤ c.toNat && !isBlank c)

/-- Characters that can only start a word: digits are left to numbers. -/
def startsWord (c : Char) : Bool := c.isAlpha || c == '$' || c == '_' || 128 ≤ c.toNat

/-! ## The gap before a token -/

/-- The text before a token. `newline` tells whether a line break was passed: one outside comments,
one inside a closed block comment, or a line comment. -/
inductive Gap where
  /-- The gap ends at `offset`, where `rest` starts. -/
  | passed (newline : Bool) (offset : Nat) (rest : List Char)
  /-- A block comment starts at `offset` and is never closed. -/
  | unclosed (newline : Bool) (offset : Nat) (comment : List Char)
deriving Repr

mutual

/-- Passes white space, line breaks and comments. -/
def gap (newline : Bool) (offset : Nat) : List Char → Gap
  | '/' :: '*' :: rest =>
    gapBlock newline offset ('/' :: '*' :: rest) newline (offset + 2) rest
  | '/' :: '/' :: rest => gapLine (offset + 2) rest
  | c :: rest =>
    if isLineBreak c then gap true (offset + c.utf8Size) rest
    else if isSpace c then gap newline (offset + c.utf8Size) rest
    else .passed newline offset (c :: rest)
  | [] => .passed newline offset []

/-- Passes the rest of a line comment, which ends with a line feed or with the text. -/
def gapLine (offset : Nat) : List Char → Gap
  | c :: rest =>
    if c == '\n' then gap true (offset + c.utf8Size) rest else gapLine (offset + c.utf8Size) rest
  | [] => .passed true offset []

/-- Passes the rest of a block comment that opened at `start` with the text `comment`. A line break
inside counts only once the comment is closed. -/
def gapBlock (before : Bool) (start : Nat) (comment : List Char) (newline : Bool) (offset : Nat) :
    List Char → Gap
  | '*' :: '/' :: rest => gap newline (offset + 2) rest
  | c :: rest =>
    gapBlock before start comment (newline || c == '\n' || c == '\r') (offset + c.utf8Size) rest
  | [] => .unclosed before start comment

end

/-! ## Reading one token -/

/-- A token's text and the text after it. -/
structure Lexeme where
  kind : Kind
  text : List Char
  rest : List Char
  fault : Option Fault
deriving Repr

namespace Lexeme

/-- Text that is no token. -/
def broken (fault : Fault) (text rest : List Char) : Lexeme := ⟨.invalid, text, rest, some fault⟩

/-- A word. It is a keyword if its leading plain part spells one, and then ends there. -/
def word (cs : List Char) : Lexeme :=
  match Kind.ofWord? (cs.takeWhile isPlainWordChar) with
  | some kind => ⟨kind, cs.takeWhile isPlainWordChar, cs.dropWhile isPlainWordChar, none⟩
  | none => ⟨.identifier, cs.takeWhile isWordChar, cs.dropWhile isWordChar, none⟩

/-- A number of the given text if it is well formed. -/
def ofNumber (wellFormed : Bool) (text rest : List Char) : Lexeme :=
  if wellFormed then ⟨.literalNumber, text, rest, none⟩ else broken .malformedNumber text rest

/-- The fraction of a decimal, with its point. -/
def fraction : List Char → List Char × List Char
  | '.' :: cs => ('.' :: cs.takeWhile Char.isDigit, cs.dropWhile Char.isDigit)
  | cs => ([], cs)

/-- The sign of an exponent. -/
def sign : List Char → List Char × List Char
  | c :: cs => if c == '+' || c == '-' then ([c], cs) else ([], c :: cs)
  | [] => ([], [])

/-- The exponent of a decimal, with its mark, and whether it is absent or has a digit. -/
def exponent : List Char → Bool × List Char × List Char
  | c :: cs =>
    if c == 'e' || c == 'E' then
      let (mark, digits) := sign cs
      (digits.head?.any Char.isDigit, c :: mark ++ digits.takeWhile Char.isDigit,
        digits.dropWhile Char.isDigit)
    else (true, [], c :: cs)
  | [] => (true, [], [])

/-- A decimal number: digits, a fraction and an exponent, each optional. -/
def decimal (cs : List Char) : Lexeme :=
  let (part, afterPart) := fraction (cs.dropWhile Char.isDigit)
  let (wellFormed, power, rest) := exponent afterPart
  ofNumber wellFormed (cs.takeWhile Char.isDigit ++ part ++ power) rest

/-- A number: hexadecimal after `0x` or `0X`, decimal otherwise. -/
def number : List Char → Lexeme
  | '0' :: mark :: cs =>
    if mark == 'x' || mark == 'X' then
      ofNumber (cs.head?.any isHexDigit) ('0' :: mark :: cs.takeWhile isHexDigit)
        (cs.dropWhile isHexDigit)
    else decimal ('0' :: mark :: cs)
  | cs => decimal cs

/-- How the text of a string ends. -/
inductive StringEnd where
  | closed
  | lineBreak
  | endOfText
deriving DecidableEq, Repr

/-- The text of a string after its opening quote: how it ends, what belongs to it, and what
follows. A string that meets the end of the text keeps its text up to the last escape only. -/
def stringTail (quote : Char) : List Char → StringEnd × List Char × List Char
  | [] => (.endOfText, [], [])
  | '\\' :: [] => (.endOfText, ['\\'], [])
  | '\\' :: c :: cs =>
    let (ending, text, rest) := stringTail quote cs
    (ending, '\\' :: c :: text, rest)
  | c :: cs =>
    if c == '\n' then (.lineBreak, [], c :: cs)
    else if c == quote then (.closed, [c], cs)
    else
      match stringTail quote cs with
      | (.endOfText, [], _) => (.endOfText, [], c :: cs)
      | (ending, text, rest) => (ending, c :: text, rest)

/-- A string, of which `quote` is the opening quote. -/
def string (quote : Char) (cs : List Char) : Lexeme :=
  match stringTail quote cs with
  | (.closed, text, rest) => ⟨.literalString, quote :: text, rest, none⟩
  | (.lineBreak, text, rest) => broken .lineBreakInString (quote :: text) rest
  | (.endOfText, text, rest) => broken .unterminatedString (quote :: text) rest

/-- The tokens made of signs. Where one starts another, the longer comes first. -/
def signs : List (List Char × Kind) :=
  [(['.', '.', '.'], .dotDotDot), (['=', '>'], .equalsChevronRight), (['&'], .ampersand),
   (['*'], .asterisk), (['|'], .bar), (['\x7d'], .braceClose), (['\x7b'], .braceOpen),
   ([']'], .bracketClose), (['['], .bracketOpen), (['<'], .chevronLeft), (['>'], .chevronRight),
   ([':'], .colon), ([','], .comma), (['.'], .dot), (['='], .equals), (['-'], .hyphen),
   ([')'], .parenthesisClose), (['('], .parenthesisOpen), (['?'], .question), ([';'], .semicolon)]

/-- The token at the start of the text. -/
def read : List Char → Lexeme
  | [] => ⟨.endOfFile, [], [], none⟩
  | c :: cs =>
    if startsWord c then word (c :: cs)
    else if c.isDigit || (c == '.' && cs.head?.any Char.isDigit) then number (c :: cs)
    else if c == '"' || c == '\x27' then string c cs
    else
      match signs.find? (·.1.isPrefixOf (c :: cs)) with
      | some (text, kind) => ⟨kind, text, (c :: cs).drop text.length, none⟩
      | none => broken .strayCharacter [c] cs

end Lexeme

/-! ## The scanner -/

/-- A place in the source text: its byte offset and the text from there on. -/
structure Scanner where
  offset : Nat
  rest : List Char
deriving Repr, Inhabited

namespace Scanner

/-- The start of a source text. -/
def ofSource (source : String) : Scanner := ⟨0, source.toList⟩

/-- A lexeme read at `offset`, as a token and the place after it. -/
def place (newline : Bool) (offset : Nat) (l : Lexeme) : Token × Scanner :=
  let stop := offset + width l.text
  (⟨l.kind, l.text, ⟨offset, stop⟩, newline, l.fault⟩, ⟨stop, l.rest⟩)

/-- The next token and the place after it. At the end of the text that is `endOfFile`, any number
of times. -/
def next (s : Scanner) : Token × Scanner :=
  match gap false s.offset s.rest with
  | .passed newline offset rest => place newline offset (Lexeme.read rest)
  | .unclosed newline offset comment =>
    place newline offset (Lexeme.broken .unterminatedComment comment [])

/-- Reads tokens up to the end of the text or to a token that takes up no text, at most `count`
of them. -/
def tokens : Nat → Scanner → List Token
  | 0, _ => []
  | count + 1, s =>
    let (t, s) := s.next
    if t.kind == .endOfFile || t.isStuck then [t] else t :: tokens count s

end Scanner

/-- All tokens of a source text, up to and including the end or the first token that takes up no
text. Every other token takes up at least one byte, so there are at most as many as bytes. -/
def tokenize (source : String) : List Token :=
  Scanner.tokens (source.utf8ByteSize + 1) (Scanner.ofSource source)

end Ambient

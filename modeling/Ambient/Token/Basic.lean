import Ambient.Text.Span
import Ambient.Token.Kind
/-!
# Tokens

A token is a classified piece of source text with its place in the text. Text that is no token is
kept as an `invalid` token that says what is wrong with it.
-/

namespace Ambient

/-- Why a piece of text is no token. -/
inductive Fault where
  /-- A block comment that is never closed. -/
  | unterminatedComment
  /-- A string that meets an unescaped line feed before its closing quote. -/
  | lineBreakInString
  /-- A string that meets the end of the text before its closing quote. -/
  | unterminatedString
  /-- A number with no digit after its hexadecimal mark or its exponent mark. -/
  | malformedNumber
  /-- A character that starts no token. -/
  | strayCharacter
deriving DecidableEq, Repr

/-- A token: its kind, its source text, where it stands, whether a line break lies between it and
the token before, and, for an `invalid` token only, what is wrong. -/
structure Token where
  kind : Kind
  text : List Char
  span : Span
  newlineBefore : Bool
  fault : Option Fault
deriving DecidableEq, Repr, Inhabited

/-- The source text of the token. -/
def Token.word (t : Token) : String := String.ofList t.text

/-- A token that takes up no text though it is not the end. -/
def Token.isStuck (t : Token) : Bool := t.kind != .endOfFile && t.span.start == t.span.stop

end Ambient

import Ambient.Token.Basic
/-!
# Syntax errors

What can be wrong with declaration text, the stable code of each cause and the wording of its
message.
-/

namespace Ambient

/-- What is wrong with the text. -/
inductive Cause where
  /-- Some form was wanted, described by `what`. -/
  | expectedSyntax (what : String)
  /-- An escape in a string that denotes nothing. -/
  | invalidCharacterEscape
  | lineTerminatorInString
  /-- A number without the digits it needs, or too large. -/
  | malformedLiteralNumber
  | nestingTooDeep
  /-- A token of this kind was wanted. -/
  | requiredTokenNotFound (wanted : Kind)
  | unexpectedEnd
  | unterminatedComment
deriving DecidableEq, Repr

/-- A syntax error: its cause, the text it is about, and the kind of token found there, if any. -/
structure SyntaxError where
  cause : Cause
  span : Span
  actual : Option Kind
deriving DecidableEq, Repr

namespace Cause

/-- The stable code of a cause. -/
def code : Cause → String
  | expectedSyntax _ => "PS0002"
  | invalidCharacterEscape => "PS0003"
  | lineTerminatorInString => "PS0004"
  | malformedLiteralNumber => "PS0005"
  | requiredTokenNotFound _ => "PS0006"
  | unexpectedEnd => "PS0007"
  | unterminatedComment => "PS0008"
  | nestingTooDeep => "PS0009"

/-- A message about something wanted, with what was found instead if that is known. -/
def wanted (what : String) : Option Kind → String
  | some found => "expected " ++ what ++ ", found " ++ found.name
  | none => "expected " ++ what

/-- The message of a cause where a token of kind `actual` was found. -/
def message (actual : Option Kind) : Cause → String
  | expectedSyntax what => wanted what actual
  | invalidCharacterEscape => "invalid character escape"
  | lineTerminatorInString => "line terminator not allowed in string literal"
  | malformedLiteralNumber => "malformed number literal"
  | nestingTooDeep => "types or blocks nested too deeply"
  | requiredTokenNotFound kind => wanted ("token " ++ kind.name) actual
  | unexpectedEnd => "unexpected end of input"
  | unterminatedComment => "unterminated block comment"

/-- The cause to report at an unexpected token: what is wrong with the token itself if it has a
fault that says so, and `otherwise` if not. -/
def atFault (otherwise : Cause) : Option Fault → Cause
  | some .unterminatedComment => unterminatedComment
  | some .lineBreakInString => lineTerminatorInString
  | some .unterminatedString => unexpectedEnd
  | some .malformedNumber => malformedLiteralNumber
  | some .strayCharacter | none => otherwise

end Cause

namespace SyntaxError

/-- The message without code and place. -/
def message (e : SyntaxError) : String := e.cause.message e.actual

/-- Code and message. -/
def display (e : SyntaxError) : String := e.cause.code ++ ": " ++ e.message

/-- Code, message and place. -/
def displayWithSpan (e : SyntaxError) : String :=
  e.display ++ " around loc [" ++ toString e.span.start ++ ":" ++ toString e.span.stop ++ "]"

end SyntaxError

namespace Token

/-- An error about this token. -/
def error (t : Token) (cause : Cause) : SyntaxError := ⟨cause, t.span, some t.kind⟩

/-- The error for a token that should not be here: its own fault comes first. -/
def unexpected (t : Token) (cause : Cause) : SyntaxError := t.error (cause.atFault t.fault)

end Token

end Ambient

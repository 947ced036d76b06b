import Ambient.Grammar.Parser
import Ambient.Text.Escape
/-!
# Literals

String and number literals as values.
-/

namespace Ambient.Parser

/-- The text of a string literal between its quotes. -/
def unquote (text : List Char) : List Char := (text.drop 1).dropLast

/-- The value of a string literal and where it stands. -/
def stringWithSpan : Parser (Span × String) := do
  let t ← require .literalString
  match Escape.decode? (unquote t.text) with
  | some value => return (t.span, String.ofList value)
  | none => failWith (t.error .invalidCharacterEscape)

/-- The value of a string literal. -/
def string : Parser String := do return (← stringWithSpan).2

/-- The text behind a sign, if there is one. -/
def unsigned : List Char → List Char
  | '+' :: cs => cs
  | '-' :: cs => cs
  | cs => cs

/-- Whether the text is nothing or the exponent of a decimal number: a mark, perhaps a sign, and at
least one digit. -/
def isPower : List Char → Bool
  | [] => true
  | mark :: cs =>
    (mark == 'e' || mark == 'E') && !(unsigned cs).isEmpty && (unsigned cs).all Char.isDigit

/-- The digits behind a point, if there is one, and what follows. -/
def pointed : List Char → List Char × List Char
  | '.' :: cs => (cs.takeWhile Char.isDigit, cs.dropWhile Char.isDigit)
  | cs => ([], cs)

/-- Whether the text is a decimal number without a sign: digits, at least one in all, with or
without a point, and perhaps an exponent. -/
def isDecimal (text : List Char) : Bool :=
  let (part, power) := pointed (text.dropWhile Char.isDigit)
  !(text.takeWhile Char.isDigit ++ part).isEmpty && isPower power

/-- Whether the text of a number token is a number: hexadecimal ones must be below `2 ^ 64`. -/
def numberFits : List Char → Bool
  | '0' :: mark :: cs =>
    if mark == 'x' || mark == 'X' then (hexNumeral? cs).any (· < 0x1_0000_0000_0000_0000)
    else isDecimal ('0' :: mark :: cs)
  | cs => isDecimal cs

/-- The source text of a number literal. -/
def number : Parser String := do
  let t ← require .literalNumber
  if numberFits t.text then return t.word else failWith (t.error .malformedLiteralNumber)

/-- The source text of a number literal after a minus sign, which has not been consumed. -/
def negativeNumber : Parser String := do
  let _ ← consume
  return "-" ++ (← number)

end Ambient.Parser

/-!
# JSON text

JSON values and their compact text: no blanks, fields in the order given, characters beyond ASCII
as they are. Quotes, backslashes and control characters are escaped, the latter by their short form
if they have one and by `\u00xx` otherwise.
-/

namespace Ambient

/-- A JSON value. Numbers are natural numbers, and the fields of an object are in order. -/
inductive Json where
  | null
  | bool (value : Bool)
  | number (value : Nat)
  | string (value : String)
  | array (items : List Json)
  | object (fields : List (String × Json))

namespace Json

/-- A string, or null. -/
def ofString? : Option String → Json
  | some value => .string value
  | none => .null

/-- The lowercase hexadecimal digit of a number below 16. -/
def hexDigit (n : Nat) : Char := ("0123456789abcdef".toList[n]?).getD '0'

/-- The control characters with a short escape, by the letter it uses. -/
def shortEscapes : List (Char × Char) :=
  [('"', '"'), ('\\', '\\'), ('\x08', 'b'), ('\x0c', 'f'), ('\n', 'n'), ('\r', 'r'), ('\t', 't')]

/-- One character inside a JSON string. -/
def escape (c : Char) : List Char :=
  match shortEscapes.lookup c with
  | some letter => ['\\', letter]
  | none =>
    if c.toNat < 0x20 then
      ['\\', 'u', '0', '0', hexDigit (c.toNat / 16), hexDigit (c.toNat % 16)]
    else [c]

/-- A string in quotes. -/
def quote (s : String) : List Char := '"' :: s.toList.flatMap escape ++ ['"']

mutual

/-- The compact text of a value. -/
def chars : Json → List Char
  | .null => "null".toList
  | .bool true => "true".toList
  | .bool false => "false".toList
  | .number n => Nat.toDigits 10 n
  | .string s => quote s
  | .array items => '[' :: itemChars items ++ [']']
  | .object fields => '\x7b' :: fieldChars fields ++ ['\x7d']

/-- Items with commas between them. -/
def itemChars : List Json → List Char
  | [] => []
  | [item] => item.chars
  | item :: items => item.chars ++ ',' :: itemChars items

/-- Fields with commas between them. -/
def fieldChars : List (String × Json) → List Char
  | [] => []
  | [(name, value)] => quote name ++ ':' :: value.chars
  | (name, value) :: fields => quote name ++ ':' :: value.chars ++ ',' :: fieldChars fields

end

/-- The compact text of a value. -/
def text (j : Json) : String := String.ofList j.chars

end Json

end Ambient

/-!
# Names in bindings

How names of declarations are written as OCaml identifiers, and how texts are written as string
literals. A name keeps its ASCII letters, digits, underscores and primes; every other character
becomes an underscore. Then the first character is put into the case that the place asks for, and a
reserved word gets an underscore behind it.
-/

namespace Ambient.Name

/-- The reserved words. -/
def reserved : List String :=
  ["and", "as", "assert", "asr", "begin", "class", "constraint", "do", "done", "downto", "else",
   "end", "exception", "external", "false", "for", "fun", "function", "functor", "if", "in",
   "include", "inherit", "initializer", "land", "lazy", "let", "lor", "lsl", "lsr", "lxor", "match",
   "method", "mod", "module", "mutable", "new", "nonrec", "object", "of", "open", "or", "private",
   "rec", "sig", "struct", "then", "to", "true", "try", "type", "val", "virtual", "when", "while",
   "with"]

/-- Whether a word is reserved. -/
def isReserved (cs : List Char) : Bool := reserved.any (·.toList == cs)

/-- Characters that identifiers keep. -/
def isIdentChar (c : Char) : Bool := c.isAlphanum || c == '_' || c == '\x27'

/-- A name with an underscore for every character that identifiers cannot have. -/
def sanitize (cs : List Char) : List Char := cs.map fun c => if isIdentChar c then c else '_'

/-- A sanitized name made to start with a lowercase letter or an underscore. -/
def lowerFirst : List Char → List Char
  | [] => ['_']
  | c :: cs =>
    if c.isUpper then c.toLower :: cs
    else if c.isDigit || c == '\x27' then '_' :: c :: cs
    else c :: cs

/-- A sanitized name made to start with an uppercase letter. -/
def upperFirst : List Char → List Char
  | [] => ['M']
  | c :: cs =>
    if c.isLower then c.toUpper :: cs
    else if c.isUpper then c :: cs
    else 'M' :: c :: cs

/-- An underscore behind a reserved word. -/
def avoidReserved (cs : List Char) : List Char := if isReserved cs then cs ++ ['_'] else cs

/-- The identifier of a value, an object label, a type or a type variable. -/
def lowerChars (cs : List Char) : List Char := avoidReserved (lowerFirst (sanitize cs))

/-- The identifier of a module. -/
def moduleChars (cs : List Char) : List Char := upperFirst (sanitize cs)

/-- One character of a string literal. -/
def escape (c : Char) : List Char :=
  if c == '"' then ['\\', '"']
  else if c == '\\' then ['\\', '\\']
  else if c == '\n' then ['\\', 'n']
  else if c == '\r' then ['\\', 'r']
  else if c == '\t' then ['\\', 't']
  else [c]

/-- A text as a string literal. -/
def quoted (cs : List Char) : List Char := '"' :: cs.flatMap escape ++ ['"']

end Ambient.Name

namespace Ambient

/-- The identifier that a name is written as where a lowercase one is needed. -/
def lowerIdent (name : String) : String := String.ofList (Name.lowerChars name.toList)

/-- The identifier that a name is written as where a module is needed. -/
def moduleIdent (name : String) : String := String.ofList (Name.moduleChars name.toList)

end Ambient

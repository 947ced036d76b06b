/-!
# Token kinds

The kinds of token in declaration text, how fixed kinds are spelled, and which words may also be
used as names. Diagnostics show a kind by `Kind.name`.
-/

namespace Ambient

/-- What sort of token a piece of source text is. `endOfFile` stands after the last token and
`invalid` marks text that is no token. The kinds of the text between tokens (`whitespace`,
`lineTerminator` and the three comment kinds) are never produced by reading a token, but a caller
may still ask for one. -/
inductive Kind where
  | endOfFile
  | invalid
  | commentMultilineEnd
  | lineTerminator
  | whitespace
  | ampersand
  | asterisk
  | bar
  | braceClose
  | braceOpen
  | bracketClose
  | bracketOpen
  | chevronLeft
  | chevronRight
  | colon
  | comma
  | commentMultiline
  | commentSingle
  | dot
  | dotDotDot
  | equals
  | equalsChevronRight
  | hyphen
  | identifier
  | kwAbstract
  | kwAs
  | kwClass
  | kwConst
  | kwDeclare
  | kwDefault
  | kwEnum
  | kwExport
  | kwExtends
  | kwFrom
  | kwFunction
  | kwGlobal
  | kwImplements
  | kwImport
  | kwInterface
  | kwKeyof
  | kwLet
  | kwModule
  | kwNamespace
  | kwNew
  | kwReadonly
  | kwThis
  | kwType
  | kwTypeof
  | kwVar
  | literalFalse
  | literalNumber
  | literalString
  | literalTrue
  | parenthesisClose
  | parenthesisOpen
  | question
  | semicolon
deriving DecidableEq, Repr, Inhabited

namespace Kind

/-- Every kind with the name that diagnostics show for it. -/
def names : List (Kind × String) :=
  [(endOfFile, "EOF"), (invalid, "Invalid"), (commentMultilineEnd, "CommentMultilineEnd"),
   (lineTerminator, "LineTerminator"), (whitespace, "Whitespace"), (ampersand, "Ampersand"),
   (asterisk, "Asterisk"), (bar, "Bar"), (braceClose, "BraceClose"), (braceOpen, "BraceOpen"),
   (bracketClose, "BracketClose"), (bracketOpen, "BracketOpen"), (chevronLeft, "ChevronLeft"),
   (chevronRight, "ChevronRight"), (colon, "Colon"), (comma, "Comma"),
   (commentMultiline, "CommentMultiline"), (commentSingle, "CommentSingle"), (dot, "Dot"),
   (dotDotDot, "DotDotDot"), (equals, "Equals"), (equalsChevronRight, "EqualsChevronRight"),
   (hyphen, "Hyphen"), (identifier, "Identifier"), (kwAbstract, "KeywordAbstract"),
   (kwAs, "KeywordAs"), (kwClass, "KeywordClass"), (kwConst, "KeywordConst"),
   (kwDeclare, "KeywordDeclare"), (kwDefault, "KeywordDefault"), (kwEnum, "KeywordEnum"),
   (kwExport, "KeywordExport"), (kwExtends, "KeywordExtends"), (kwFrom, "KeywordFrom"),
   (kwFunction, "KeywordFunction"), (kwGlobal, "KeywordGlobal"),
   (kwImplements, "KeywordImplements"), (kwImport, "KeywordImport"),
   (kwInterface, "KeywordInterface"), (kwKeyof, "KeywordKeyof"), (kwLet, "KeywordLet"),
   (kwModule, "KeywordModule"), (kwNamespace, "KeywordNamespace"), (kwNew, "KeywordNew"),
   (kwReadonly, "KeywordReadonly"), (kwThis, "KeywordThis"), (kwType, "KeywordType"),
   (kwTypeof, "KeywordTypeof"), (kwVar, "KeywordVar"), (literalFalse, "LiteralFalse"),
   (literalNumber, "LiteralNumber"), (literalString, "LiteralString"),
   (literalTrue, "LiteralTrue"), (parenthesisClose, "ParenthesisClose"),
   (parenthesisOpen, "ParenthesisOpen"), (question, "Question"), (semicolon, "Semicolon")]

/-- The name that diagnostics show. -/
def name (k : Kind) : String := (names.lookup k).getD ""

/-- The kind with this name. -/
def ofName? (name : String) : Option Kind := (names.find? (·.2 == name)).map (·.1)

/-- The words with a kind of their own. -/
def keywords : List (Kind × String) :=
  [(kwAbstract, "abstract"), (kwAs, "as"), (kwClass, "class"), (kwConst, "const"),
   (kwDeclare, "declare"), (kwDefault, "default"), (kwEnum, "enum"), (kwExport, "export"),
   (kwExtends, "extends"), (kwFrom, "from"), (kwFunction, "function"), (kwGlobal, "global"),
   (kwImplements, "implements"), (kwImport, "import"), (kwInterface, "interface"),
   (kwKeyof, "keyof"), (kwLet, "let"), (kwModule, "module"), (kwNamespace, "namespace"),
   (kwNew, "new"), (kwReadonly, "readonly"), (kwThis, "this"), (kwType, "type"),
   (kwTypeof, "typeof"), (kwVar, "var"), (literalFalse, "false"), (literalTrue, "true")]

/-- The kind of a word that has one of its own. -/
def ofWord? (word : List Char) : Option Kind := (keywords.find? (·.2.toList == word)).map (·.1)

/-- Whether the kind is that of a word of its own; `true` and `false` are among them. -/
def isKeyword (k : Kind) : Bool := keywords.any (·.1 == k)

/-- Whether the word may also name a declaration, a parameter or a type. -/
def isUnreserved : Kind → Bool
  | kwAbstract | kwAs | kwDeclare | kwFrom | kwGlobal | kwImplements | kwInterface | kwKeyof | kwLet
  | kwModule | kwNamespace | kwReadonly | kwType => true
  | _ => false

/-- Whether a token of this kind can name a declaration, a parameter or a type. -/
def isName (k : Kind) : Bool := k == identifier || k.isUnreserved

/-- Whether a token of this kind can name an entry of an import list or a step of a dotted path,
where every word is allowed. -/
def isAnyWord (k : Kind) : Bool := k == identifier || k.isKeyword

/-- Whether a token of this kind can be the key of a member. -/
def isMemberKey (k : Kind) : Bool :=
  k == identifier || k == literalString || k == literalNumber || k.isKeyword

end Kind

end Ambient

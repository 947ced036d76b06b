import Ambient.Declaration.Type
import Ambient.Grammar.Literal
/-!
# The grammar of types

From loosest to tightest: function and constructor types, unions, intersections, the operators
`keyof` and `readonly`, the suffixes `[]` and `[K]`, and primary types. Where a type encloses
another one the inner one is read by a parser of the next `Level`, so the depth of nesting is the
number of levels.
-/

namespace Ambient

/-- The parsers for what lies one level of nesting further in: a type, and the operand of `keyof` or
`readonly`. -/
structure Level where
  typeExpr : Parser TypeExpr
  operand : Parser TypeExpr

namespace Parser

variable {α : Type}

/-- Fails at the next token, because no further nesting is allowed. -/
def tooDeep : Parser α := do failWith ((← peek).error .nestingTooDeep)

/-! ## Names and lists -/

/-- A name that may be a dotted path. Any word may follow a dot. -/
def entityName : Parser EntityName := do
  let first ← name
  repeatFrom (.identifier first) fun left => do
    if (← peekKind) == .dot then
      let _ ← consume
      let t ← requireWhere Kind.isAnyWord "identifier"
      return .yield (.qualified left t.word)
    else return .done left

/-- A reference to a named type, perhaps with type arguments. -/
def typeReference (inner : Level) : Parser TypeExpr := spanned do
  let name ← entityName
  let arguments ← after .chevronLeft (commaList .chevronRight inner.typeExpr)
  return fun span => .reference span name arguments

/-- One type parameter. -/
def typeParameter (inner : Level) : Parser TypeParameter := spanned do
  let name ← name
  let constraint ← after .kwExtends inner.typeExpr
  let fallback ← after .equals inner.typeExpr
  return fun span => { span, name, constraint, fallback }

/-- Type parameters in angle brackets, if there are any brackets. -/
def typeParameters (inner : Level) : Parser (Option (List TypeParameter)) :=
  after .chevronLeft (commaList .chevronRight (typeParameter inner))

/-- Whether a token of this kind can name a parameter. -/
def isParameterName (kind : Kind) : Bool := kind.isName || kind == .kwThis

/-- One parameter of a function. -/
def parameter (inner : Level) : Parser Parameter := spanned do
  let rest ← accept .dotDotDot
  let t ← requireWhere isParameterName "parameter name"
  let optional ← accept .question
  let type ← after .colon inner.typeExpr
  return fun span => { span, name := t.word, optional, rest, type }

/-- The parameters of a function, with their parentheses. -/
def parameters (inner : Level) : Parser (List Parameter) := do
  let _ ← require .parenthesisOpen
  commaList .parenthesisClose (parameter inner)

/-! ## Members -/

/-- The words that may stand before a class member without being its key. -/
def modifierWords : List String :=
  ["static", "public", "private", "protected", "override", "accessor", "get", "set"]

/-- Whether a token can be a modifier of a class member. -/
def isModifier (t : Token) : Bool :=
  match t.kind with
  | .kwAbstract | .kwDeclare => true
  | .identifier => modifierWords.contains t.word
  | _ => false

/-- Passes the modifiers of a class member: words that are followed by a key or by another
modifier. -/
def skipModifiers : Parser Unit :=
  repeatFrom () fun _ => do
    let (a, b) ← peek2
    if isModifier a && (b.kind.isMemberKey || b.kind == .bracketOpen) then
      let _ ← consume
      return .yield ()
    else return .done ()

/-- The key of a member. A computed key keeps its brackets. -/
def memberKey : Parser String := do
  let t ← peek
  match t.kind with
  | .literalString => string
  | .literalNumber => number
  | .bracketOpen => do
    let _ ← consume
    let name ← entityName
    let _ ← require .bracketClose
    return "[" ++ name.dotted ++ "]"
  | kind =>
    if kind.isMemberKey then
      let _ ← consume
      return t.word
    else failWith (t.unexpected (.expectedSyntax "member name"))

/-- The type after a colon, if there is a colon. -/
def typeAfterColon (inner : Level) : Parser (Option TypeExpr) := after .colon inner.typeExpr

/-- `[k: K]: T`, for which only the bracket has been seen. -/
def indexSignature (inner : Level) (readonly : Bool) : Parser (Span → Member) := do
  let _ ← require .bracketOpen
  let parameterName ← name
  let _ ← require .colon
  let parameterType ← inner.typeExpr
  let _ ← require .bracketClose
  let _ ← require .colon
  let type ← inner.typeExpr
  return fun span => .index span readonly parameterName parameterType type

/-! ## Types from tightest to loosest, members among them -/

/-- Whether `kind` opens a signature. -/
def opensSignature (kind : Kind) : Bool := kind == .parenthesisOpen || kind == .chevronLeft

/-- Whether `readonly` is a key itself, judged by the kind of the token after it. -/
def readonlyIsKey (next : Kind) : Bool :=
  next == .colon || next == .question || opensSignature next || next == .semicolon || next == .comma

/-- Members in braces. The members of a class may have modifiers, and its properties initial
values, which `initial` reads. -/
def memberList (inner : Level) (initial : Option (Parser TypeExpr)) : Parser (List Member) := do
  let _ ← require .braceOpen
  let members ← repeatFrom [] fun members => do
    repeatFrom () fun _ => do
      if ← accept .semicolon then return .yield () else return .done ()
    if ← accept .braceClose then return .done members
    let m ← spanned member
    if ← accept .semicolon then return .yield (m :: members)
    if ← accept .comma then return .yield (m :: members)
    let t ← peek
    if t.kind != .braceClose && !t.newlineBefore then
      failWith (t.unexpected (.requiredTokenNotFound .semicolon))
    return .yield (m :: members)
  return members.reverse
where
  /-- One member, without the separator after it. -/
  member : Parser (Span → Member) := do
    if initial.isSome then skipModifiers
    let (a, b, c) ← peek3
    if opensSignature a.kind then
      let typeParameters ← typeParameters inner
      let parameters ← parameters inner
      let result ← typeAfterColon inner
      return fun span => .call span typeParameters parameters result
    else if a.kind == .kwNew && opensSignature b.kind then
      let _ ← consume
      let typeParameters ← typeParameters inner
      let parameters ← parameters inner
      let result ← typeAfterColon inner
      return fun span => .construct span typeParameters parameters result
    else if a.kind == .kwReadonly && !readonlyIsKey b.kind then
      let _ ← consume
      keyed true (← peek3)
    else keyed false (a, b, c)
  /-- A member after its modifiers, with the tokens that come next. -/
  keyed (readonly : Bool) (next : Token × Token × Token) : Parser (Span → Member) := do
    let (a, b, c) := next
    if a.kind == .bracketOpen && b.kind.isName && c.kind == .colon then
      indexSignature inner readonly
    else
      let key ← memberKey
      let optional ← accept .question
      if opensSignature (← peekKind) then
        let typeParameters ← typeParameters inner
        let parameters ← parameters inner
        let result ← typeAfterColon inner
        return fun span => .method span key optional typeParameters parameters result
      else
        let type ← typeAfterColon inner
        if let some initial := initial then
          let _ ← after .equals initial
        return fun span => .property span readonly key optional type

/-- The members of an object type or an interface. -/
def typeMembers (inner : Level) : Parser (List Member) := memberList inner none

/-- A type without operators or suffixes. -/
def primaryType (inner : Level) : Parser TypeExpr := do
  let t ← peek
  match t.kind with
  | .braceOpen => spanned do
    let members ← typeMembers inner
    return fun span => .object span members
  | .bracketOpen => spanned do
    let _ ← consume
    let elements ← commaList .bracketClose inner.typeExpr
    return fun span => .tuple span false elements
  | .parenthesisOpen => spanned do
    let _ ← consume
    let type ← inner.typeExpr
    let _ ← require .parenthesisClose
    return fun span => .parenthesized span type
  | .literalString => spanned do
    let value ← string
    return fun span => .literal span (.string value)
  | .literalNumber => spanned do
    let raw ← number
    return fun span => .literal span (.number raw)
  | .hyphen => spanned do
    let raw ← negativeNumber
    return fun span => .literal span (.number raw)
  | .literalTrue => spanned do
    let _ ← consume
    return fun span => .literal span (.boolean true)
  | .literalFalse => spanned do
    let _ ← consume
    return fun span => .literal span (.boolean false)
  | .kwThis => spanned do
    let _ ← consume
    return fun span => .this span
  | .kwTypeof => spanned do
    let _ ← consume
    let name ← entityName
    return fun span => .query span name
  | kind =>
    if kind.isName then typeReference inner
    else failWith (t.unexpected (.expectedSyntax "type"))

/-- The members of a class. -/
def classMembers (inner : Level) : Parser (List Member) := memberList inner (some (primaryType inner))

/-- A primary type and its suffixes. A bracket after a line break is no suffix. -/
def suffixedType (inner : Level) : Parser TypeExpr := do
  let start ← checkpoint
  let first ← primaryType inner
  repeatFrom first fun type => do
    let t ← peek
    if t.kind != .bracketOpen || t.newlineBefore then return .done type
    let _ ← consume
    if ← accept .bracketClose then
      return .yield (.array (← since start) false type)
    let index ← inner.typeExpr
    let _ ← require .bracketClose
    return .yield (.indexedAccess (← since start) type index)

/-- An array or tuple type marked as read only, with a span that starts at `start`. -/
def readonlyFrom? (start : Nat) : TypeExpr → Option TypeExpr
  | .array span _ element => some (.array ⟨start, span.stop⟩ true element)
  | .tuple span _ elements => some (.tuple ⟨start, span.stop⟩ true elements)
  | _ => none

/-- `keyof T`, `readonly T[]`, `readonly [T, U]`, or a type without operator. -/
def operatorType (inner : Level) : Parser TypeExpr := do
  match ← peekKind with
  | .kwKeyof => spanned do
    let _ ← consume
    let operand ← inner.operand
    return fun span => .keyOf span operand
  | .kwReadonly =>
    let t ← consume
    let operand ← inner.operand
    match readonlyFrom? t.span.start operand with
    | some type => return type
    | none =>
      failWith ⟨.expectedSyntax "array or tuple type after readonly", operand.span, none⟩
  | _ => suffixedType inner

/-- Types joined by `sign`, which may also stand before the first. A single type stays as it is. -/
def joined (sign : Kind) (make : Span → List TypeExpr → TypeExpr) (arm : Parser TypeExpr) :
    Parser TypeExpr := do
  let start ← checkpoint
  let _ ← accept sign
  let first ← arm
  if (← peekKind) != sign then return first
  let others ← collect (after sign arm)
  return make (← since start) (first :: others)

/-- Types joined by `&`. -/
def intersectionType (inner : Level) : Parser TypeExpr :=
  joined .ampersand .intersection (operatorType inner)

/-- Types joined by `|`. -/
def unionType (inner : Level) : Parser TypeExpr := joined .bar .union (intersectionType inner)

/-- `<a>(x: a) => T`. -/
def functionType (inner : Level) : Parser TypeExpr := spanned do
  let typeParameters ← typeParameters inner
  let parameters ← parameters inner
  let _ ← require .equalsChevronRight
  let result ← inner.typeExpr
  return fun span => .function span typeParameters parameters result

/-- `new <a>(x: a) => T`. -/
def constructorType (inner : Level) : Parser TypeExpr := spanned do
  let _ ← require .kwNew
  let typeParameters ← typeParameters inner
  let parameters ← parameters inner
  let _ ← require .equalsChevronRight
  let result ← inner.typeExpr
  return fun span => .constructor span typeParameters parameters result

/-- Whether the parenthesis that comes next opens the parameters of a function type rather than a
type in parentheses, judged by the three tokens after it. -/
def opensFunctionType : Parser Bool := do
  let (_, b, c, d) ← peek4
  match b.kind with
  | .parenthesisClose | .dotDotDot => return true
  | kind =>
    if isParameterName kind then
      match c.kind with
      | .colon | .comma | .question | .equals => return true
      | .parenthesisClose => return d.kind == .equalsChevronRight
      | _ => return false
    else return false

/-- Any type. -/
def anyType (inner : Level) : Parser TypeExpr := do
  match ← peekKind with
  | .chevronLeft => functionType inner
  | .kwNew => constructorType inner
  | .kwAbstract =>
    let (_, b) ← peek2
    if b.kind == .kwNew then
      let _ ← consume
      constructorType inner
    else unionType inner
  | .parenthesisOpen => if ← opensFunctionType then functionType inner else unionType inner
  | _ => unionType inner

end Parser

/-- The parsers for types that may be nested `room` levels deep. -/
def Level.ofRoom : Nat → Level
  | 0 => ⟨Parser.tooDeep, Parser.tooDeep⟩
  | room + 1 =>
    let inner := ofRoom room
    ⟨Parser.anyType inner, Parser.operatorType inner⟩

end Ambient

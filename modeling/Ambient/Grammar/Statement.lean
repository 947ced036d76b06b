import Ambient.Declaration.Statement
import Ambient.Grammar.Type
/-!
# The grammar of statements

Declarations, imports and exports. In a declaration file every declaration is ambient, so the word
`declare` may be left out. Parsers of declarations that hold statements of their own take a parser
`body` for those, which lies one level of nesting further in.
-/

namespace Ambient

namespace Parser

/-! ## Parts of declarations -/

/-- A name that may be a dotted path, as text. Any word may follow a dot. -/
def dottedName : Parser String := do
  let first ← name
  repeatFrom first fun path => do
    if ← accept .dot then
      let t ← requireWhere Kind.isAnyWord "identifier"
      return .yield (path ++ "." ++ t.word)
    else return .done path

/-- What `body` reads, in braces. -/
def block (body : Parser (List Statement)) : Parser (List Statement) := do
  let _ ← require .braceOpen
  let statements ← body
  let _ ← require .braceClose
  return statements

/-- `target` or `target as newName`. -/
def listedName : Parser ListedName := spanned do
  let t ← requireWhere Kind.isAnyWord "import or export name"
  let newName ← after .kwAs name
  return fun span => { span, target := t.word, newName }

/-- Listed names up to a closing brace. The opening brace must come next. -/
def listedNames : Parser (List ListedName) := do
  let _ ← require .braceOpen
  commaList .braceClose listedName

/-- The value of a member of an enumeration. -/
def enumValue : Parser EnumValue := do
  match ← peekKind with
  | .literalString => return .string (← string)
  | .hyphen => return .number (← negativeNumber)
  | _ => return .number (← number)

/-- A member of an enumeration. -/
def enumMember : Parser EnumMember := spanned do
  let name ← if (← peekKind) == .literalString then string else name
  let value ← after .equals enumValue
  return fun span => { span, name, value }

/-! ## Declarations -/

/-- `module "m" { ... }` or `module "m"`. -/
def moduleDeclaration (body : Parser (List Statement)) : Parser Declaration := spanned do
  let _ ← require .kwModule
  let (nameSpan, name) ← moduleName
  let statements ← moduleBody
  return fun span => .ofModule span nameSpan name statements
where
  moduleName : Parser (Span × ModuleName) := do
    if (← peekKind) == .literalString then
      let (span, value) ← stringWithSpan
      return (span, .string value)
    else
      let start ← checkpoint
      let path ← dottedName
      return (← since start, .identifier path)
  moduleBody : Parser (Option (List Statement)) := do
    if (← peekKind) == .braceOpen then return some (← block body)
    else
      statementEnd
      return none

/-- `namespace A.B { ... }`. -/
def namespaceDeclaration (body : Parser (List Statement)) (exported : Export) :
    Parser Declaration := spanned do
  let _ ← require .kwNamespace
  let name ← dottedName
  let statements ← block body
  return fun span => .ofNamespace span exported name statements

/-- `global { ... }`. -/
def globalDeclaration (body : Parser (List Statement)) : Parser Declaration := spanned do
  let _ ← require .kwGlobal
  let statements ← block body
  return fun span => .ofGlobal span statements

/-- `var x: T`. Any token is taken for the word that declares it. -/
def variableDeclaration (types : Level) (exported : Export) : Parser Declaration := spanned do
  let word := match (← consume).kind with
    | .kwConst => VariableWord.asConst
    | .kwLet => .asLet
    | _ => .asVar
  let (nameSpan, name) ← nameWithSpan
  let type ← typeAfterColon types
  statementEnd
  return fun span => .ofVariable { span, exported, word, nameSpan, name, type }

/-- `function f<a>(x: a): T`. -/
def functionDeclaration (types : Level) (exported : Export) : Parser Declaration := spanned do
  let _ ← require .kwFunction
  let (nameSpan, name) ← nameWithSpan
  let typeParameters ← typeParameters types
  let parameters ← parameters types
  let result ← typeAfterColon types
  statementEnd
  return fun span =>
    .ofFunction { span, exported, nameSpan, name, typeParameters, parameters, result }

/-- `type t<a> = T`. -/
def typeAliasDeclaration (types : Level) (exported : Export) : Parser Declaration := spanned do
  let _ ← require .kwType
  let (nameSpan, name) ← nameWithSpan
  let typeParameters ← typeParameters types
  let _ ← require .equals
  let body ← types.typeExpr
  statementEnd
  return fun span => .ofTypeAlias { span, exported, nameSpan, name, typeParameters, body }

/-- `interface I<a> extends J, K { ... }`. -/
def interfaceDeclaration (types : Level) (exported : Export) : Parser Declaration := spanned do
  let _ ← require .kwInterface
  let (nameSpan, name) ← nameWithSpan
  let typeParameters ← typeParameters types
  let bases ← after .kwExtends (separated .comma (typeReference types))
  let members ← typeMembers types
  return fun span => .ofInterface
    { span, exported, nameSpan, name, typeParameters, bases := bases.getD [], members }

/-- `abstract class C<a> extends D implements I, J { ... }`. -/
def classDeclaration (types : Level) (exported : Export) : Parser Declaration := spanned do
  let isAbstract ← accept .kwAbstract
  let _ ← require .kwClass
  let name ← name
  let typeParameters ← typeParameters types
  let base ← after .kwExtends (typeReference types)
  let interfaces ← after .kwImplements (separated .comma (typeReference types))
  let members ← classMembers types
  return fun span => .ofClass
    { span, exported, isAbstract, name, typeParameters, base, interfaces := interfaces.getD [],
      members }

/-- `const enum E { A, B = 1 }`. -/
def enumDeclaration (exported : Export) : Parser Declaration := spanned do
  let isConst ← accept .kwConst
  let _ ← require .kwEnum
  let name ← name
  let _ ← require .braceOpen
  let members ← commaList .braceClose enumMember
  return fun span => .ofEnum { span, exported, isConst, name, members }

/-! ## Imports and exports -/

/-- What an import binds: its default name, the name of the whole module, and listed names. -/
structure ImportClause where
  defaultName : Option String
  namespaceName : Option String
  names : List ListedName

/-- The whole module under one name, or listed names. -/
def importedNames (defaultName : Option String) : Parser ImportClause := do
  if ← accept .asterisk then
    let _ ← require .kwAs
    return ⟨defaultName, some (← name), []⟩
  else return ⟨defaultName, none, ← listedNames⟩

/-- The part of an import before `from`. Only a comma may follow the default name in it. -/
def importClause : Parser ImportClause := do
  if (← peekKind).isName then
    let defaultName ← name
    if ← accept .comma then importedNames (some defaultName)
    else return ⟨some defaultName, none, []⟩
  else importedNames none

/-- `import "m"` or `import a, { b as c } from "m"`. The word `type` is a modifier unless it is
itself the default name. -/
def importStatement : Parser Declaration := spanned do
  let _ ← require .kwImport
  let (a, b) ← peek2
  let typeOnly := a.kind == .kwType && b.kind != .kwFrom && b.kind != .comma
  if typeOnly then
    let _ ← consume
  if (← peekKind) == .literalString then
    let source ← string
    statementEnd
    return fun span => .importing
      { span, typeOnly, defaultName := none, namespaceName := none, names := [], source }
  else
    let clause ← importClause
    let _ ← require .kwFrom
    let source ← string
    statementEnd
    return fun span => .importing
      { span, typeOnly, defaultName := clause.defaultName, namespaceName := clause.namespaceName,
        names := clause.names, source }

/-- `export = a.b`. -/
def exportAssignment : Parser Declaration := spanned do
  let _ ← require .kwExport
  let _ ← require .equals
  let name ← dottedName
  statementEnd
  return fun span => .exportAssignment span name

/-- `export as namespace N`. -/
def exportAsNamespace : Parser Declaration := spanned do
  let _ ← require .kwExport
  let _ ← require .kwAs
  let _ ← require .kwNamespace
  let name ← name
  statementEnd
  return fun span => .exportAsNamespace span name

/-- `export type { a, b as c } from "m"`. -/
def exportList : Parser Declaration := spanned do
  let _ ← require .kwExport
  let typeOnly ← accept .kwType
  let names ← listedNames
  let source ← after .kwFrom string
  statementEnd
  return fun span => .exportList { span, typeOnly, names, source }

/-! ## Statements -/

/-- A declaration after its `export` words. -/
def declaration (types : Level) (body : Parser (List Statement)) (exported : Export) :
    Parser Declaration := do
  let declared ← accept .kwDeclare
  let (a, b) ← peek2
  let unexpected := failWith (a.unexpected (.expectedSyntax "declaration"))
  match a.kind with
  | .kwModule =>
    if b.kind == .literalString || b.kind.isName then moduleDeclaration body else unexpected
  | .kwNamespace => namespaceDeclaration body exported
  | .kwGlobal => if declared && b.kind == .braceOpen then globalDeclaration body else unexpected
  | .kwConst =>
    if b.kind == .kwEnum then enumDeclaration exported else variableDeclaration types exported
  | .kwVar | .kwLet => variableDeclaration types exported
  | .kwFunction => functionDeclaration types exported
  | .kwType => typeAliasDeclaration types exported
  | .kwInterface => interfaceDeclaration types exported
  | .kwClass | .kwAbstract => classDeclaration types exported
  | .kwEnum => enumDeclaration exported
  | _ => unexpected

/-- A semicolon on its own. -/
def emptyStatement : Parser Declaration := spanned do
  let _ ← consume
  return fun span => .empty span

/-- What stands in a statement, judged by its first two tokens. -/
def statementContent (types : Level) (body : Parser (List Statement)) : Parser Declaration := do
  let (a, b) ← peek2
  match a.kind with
  | .semicolon => emptyStatement
  | .kwImport => importStatement
  | .kwExport =>
    match b.kind with
    | .equals => exportAssignment
    | .kwAs => exportAsNamespace
    | .braceOpen => exportList
    | .kwType =>
      let (_, _, c) ← peek3
      if c.kind == .braceOpen then exportList
      else
        let _ ← consume
        declaration types body .named
    | .kwDefault =>
      let _ ← consume
      let _ ← consume
      declaration types body .default
    | _ =>
      let _ ← consume
      declaration types body .named
  | _ => declaration types body .none

/-- A statement. -/
def statement (types : Level) (body : Parser (List Statement)) : Parser Statement := spanned do
  let declaration ← statementContent types body
  return fun span => { span, declaration }

/-- Statements up to a token of kind `close`, which is not consumed. -/
def statements (types : Level) (body : Parser (List Statement)) (close : Kind) :
    Parser (List Statement) :=
  collect do
    if (← peekKind) == close then return none
    else return some (← statement types body)

/-- The statements of a block that may be nested `room` levels deep, with the types of each depth
read by `types`. -/
def blockBody (types : Nat → Level) : Nat → Parser (List Statement)
  | 0 => tooDeep
  | room + 1 => statements (types room) (blockBody types room) .braceClose

/-- A whole declaration file. -/
def file (types : Nat → Level) (room : Nat) : Parser File := do
  let body ← statements (types room) (blockBody types room) .endOfFile
  let _ ← require .endOfFile
  return { span := ← sourceSpan, body }

end Parser

/-- How many types or statement blocks may enclose one another. -/
def maxNesting : Nat := 100

/-- Parses a declaration file in which types and blocks may be nested `room` levels deep. -/
def parseWithin (room : Nat) (source : String) : Except SyntaxError File :=
  match Parser.file Level.ofRoom room (Buffer.ofSource source) with
  | .ok file _ => .ok file
  | .fail e _ => .error e

/-- Parses a declaration file. -/
def parse (source : String) : Except SyntaxError File := parseWithin maxNesting source

end Ambient

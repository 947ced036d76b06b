import Ambient.Declaration.Type
/-!
# Statements

The statements of a declaration file. A statement's own span starts at `export` or `declare`; the
span of its declaration starts at the word that names the kind of declaration.
-/

namespace Ambient

/-- How a declaration is exported from the module around it. -/
inductive Export where
  | none
  | named
  | default
deriving DecidableEq, Repr

/-- The word that declares a variable: `const`, `let` or `var`. -/
inductive VariableWord where
  | asConst
  | asLet
  | asVar
deriving DecidableEq, Repr

/-- The name of a declared module, written as a name or as a string. -/
inductive ModuleName where
  | identifier (name : String)
  | string (name : String)
deriving DecidableEq, Repr

/-- `var x: T`. -/
structure Variable where
  span : Span
  exported : Export
  word : VariableWord
  nameSpan : Span
  name : String
  type : Option TypeExpr

/-- `function f<a>(x: a): T`. -/
structure Function where
  span : Span
  exported : Export
  nameSpan : Span
  name : String
  typeParameters : Option (List TypeParameter)
  parameters : List Parameter
  result : Option TypeExpr

/-- `type t<a> = T`. -/
structure TypeAlias where
  span : Span
  exported : Export
  nameSpan : Span
  name : String
  typeParameters : Option (List TypeParameter)
  body : TypeExpr

/-- `interface I<a> extends J, K { ... }`. -/
structure Interface where
  span : Span
  exported : Export
  nameSpan : Span
  name : String
  typeParameters : Option (List TypeParameter)
  bases : List TypeExpr
  members : List Member

/-- `abstract class C<a> extends D implements I { ... }`. -/
structure Class where
  span : Span
  exported : Export
  isAbstract : Bool
  name : String
  typeParameters : Option (List TypeParameter)
  base : Option TypeExpr
  interfaces : List TypeExpr
  members : List Member

/-- The value given to a member of an enumeration. A number is kept as its source text. -/
inductive EnumValue where
  | number (raw : String)
  | string (value : String)
deriving DecidableEq, Repr

/-- `A`, `A = 1` or `A = "a"` in an enumeration. -/
structure EnumMember where
  span : Span
  name : String
  value : Option EnumValue
deriving DecidableEq, Repr

/-- `const enum E { ... }`. -/
structure Enum where
  span : Span
  exported : Export
  isConst : Bool
  name : String
  members : List EnumMember
deriving DecidableEq, Repr

/-- `target` or `target as newName` in an import or export list. -/
structure ListedName where
  span : Span
  target : String
  newName : Option String
deriving DecidableEq, Repr

/-- `export type { a, b as c } from "m"`. -/
structure ExportList where
  span : Span
  typeOnly : Bool
  names : List ListedName
  source : Option String
deriving DecidableEq, Repr

/-- `import type d, * as n from "m"`, `import { a, b as c } from "m"`, `import "m"`. -/
structure Import where
  span : Span
  typeOnly : Bool
  defaultName : Option String
  namespaceName : Option String
  names : List ListedName
  source : String
deriving DecidableEq, Repr

mutual

/-- A declaration, an import or an export. -/
inductive Declaration where
  /-- `module "m" { ... }`. A module without a body only announces its name. -/
  | ofModule (span : Span) (nameSpan : Span) (name : ModuleName) (body : Option (List Statement))
  | ofVariable (declared : Variable)
  | ofFunction (declared : Function)
  | ofTypeAlias (declared : TypeAlias)
  | ofInterface (declared : Interface)
  | ofClass (declared : Class)
  | ofEnum (declared : Enum)
  /-- `namespace A.B { ... }`. -/
  | ofNamespace (span : Span) (exported : Export) (name : String) (body : List Statement)
  /-- `global { ... }`. -/
  | ofGlobal (span : Span) (body : List Statement)
  /-- A semicolon on its own. -/
  | empty (span : Span)
  /-- `export as namespace N`. -/
  | exportAsNamespace (span : Span) (name : String)
  /-- `export = a.b`. -/
  | exportAssignment (span : Span) (name : String)
  | exportList (listed : ExportList)
  | importing (imported : Import)

/-- A statement of a declaration file. -/
structure Statement where
  span : Span
  declaration : Declaration

end

/-- A declaration file. -/
structure File where
  span : Span
  body : List Statement

/-- The source text of a declaration, without `export` and `declare`. -/
def Declaration.span : Declaration → Span
  | .ofModule span .. | .ofNamespace span .. | .ofGlobal span .. | .empty span
  | .exportAsNamespace span .. | .exportAssignment span .. => span
  | .ofVariable d => d.span
  | .ofFunction d => d.span
  | .ofTypeAlias d => d.span
  | .ofInterface d => d.span
  | .ofClass d => d.span
  | .ofEnum d => d.span
  | .exportList d => d.span
  | .importing d => d.span

end Ambient

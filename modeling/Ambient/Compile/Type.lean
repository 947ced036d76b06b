import Ambient.Binding.Name
import Ambient.Compile.Error
import Ambient.Compile.Scope
import Ambient.Declaration.Type
import Ambient.Text.Letter
/-!
# Binding types

`TypeExpr.bind` turns a declared type into its binding type. Names are resolved in a scope; the type
parameters of a function are in scope in its signature only. What has no binding is an error, and
of several errors the first in source order is reported.
-/

namespace Ambient

/-- A binding, or why there is none. -/
abbrev Compiled (α : Type) := Except CompileError α

/-- An error about the text at `span`. -/
def Span.error {α : Type} (span : Span) (problem : Problem) : Compiled α := .error ⟨problem, span⟩

/-- An error about a type without binding. -/
def Span.unsupported {α : Type} (span : Span) (what : UnsupportedType) : Compiled α :=
  span.error (.unsupportedType what)

namespace Scope

/-! ## Resolving names -/

/-- The entry that a reference with `count` type arguments means. Inside an interface no alias may
be used that is written like the interface's own type. -/
def resolve (scope : Scope) (span : Span) (name : EntityName) (count : Nat) : Compiled Entry :=
  match name with
  | .qualified .. => span.unsupported .qualifiedName
  | .identifier name =>
    match scope.lookup name with
    | none => span.error (.unresolvedType name)
    | some entry =>
      match hiddenBy entry with
      | some interfaceName => span.error (.aliasHidden entry.name interfaceName)
      | none =>
        if count = entry.arity then .ok entry
        else span.error (.arityMismatch name entry.arity count)
where
  /-- The interface around, if the entry is an alias that its own type hides. -/
  hiddenBy : Entry → Option String
    | .typeAlias name _ => if name == selfType then scope.interfaceName else none
    | _ => none

/-- The binding type of an entry applied to arguments. Inside its own body an interface is the type
of the module that is made for it. -/
def target (scope : Scope) (arguments : List Ty) : Entry → Ty
  | .builtIn b => b.target arguments
  | .typeAlias name _ => .constructor name arguments
  | .interface name _ =>
    if scope.interfaceName = some name then .constructor selfType arguments
    else .constructor (name ++ "." ++ selfType) arguments
  | .typeVariable _ printed => .variable printed

/-- Whether a type is null or undefined: their plain name, resolved to the built-in. -/
def isNullish (scope : Scope) : TypeExpr → Bool
  | .reference _ (.identifier name) none =>
    match scope.lookup name with
    | some (.builtIn .null) | some (.builtIn .undefined) => true
    | _ => false
  | _ => false

/-! ## Type parameters -/

/-- The identifiers that the type variables in scope are written as. -/
def takenIdents (scope : Scope) : List String := scope.typeVariables.map lowerIdent

/-- The first of `name ++ "k"`, `name ++ "k+1"`, ... whose identifier is not taken, looking at
`tries` of them and then taking the next. -/
def freshSuffix (taken : List String) (name : String) : Nat → Nat → String
  | 0, k => name ++ toString k
  | tries + 1, k =>
    if taken.contains (lowerIdent (name ++ toString k)) then freshSuffix taken name tries (k + 1)
    else name ++ toString k

/-- A type variable for a type parameter: its name if no type variable in scope is written like
that, otherwise its name with the smallest number behind it that makes it so. There are as many
tries as type variables in scope. -/
def freshVariable (scope : Scope) (name : String) : String :=
  let taken := scope.takenIdents
  if taken.contains (lowerIdent name) then freshSuffix taken name taken.length 1 else name

/-- Brings type parameters into scope and gives the type variables they are written as. -/
def declareTypeParameters (scope : Scope) : List TypeParameter → Compiled (Scope × List String)
  | [] => .ok (scope, [])
  | p :: ps =>
    if Letter.startsLower p.name then do
      let printed := scope.freshVariable p.name
      let (scope, others) ← (scope.push (.typeVariable p.name printed)).declareTypeParameters ps
      return (scope, printed :: others)
    else p.span.error (.typeParameterNotLowercase p.name)

/-- Brings type parameters into scope, if there are any. -/
def declareTypeParameters? (scope : Scope) (ps : Option (List TypeParameter)) :
    Compiled (Scope × List String) :=
  scope.declareTypeParameters (ps.getD [])

end Scope

/-! ## Signatures -/

/-- The parameters of a signature as they are passed, and the rest parameter if there is one. -/
structure BoundParameters where
  types : List Ty
  rest : Option Span

/-- A bound signature: a function type, and the rest parameter if there is one. -/
structure BoundSignature where
  quantified : List String
  parameters : List Ty
  result : Ty
  rest : Option Span

namespace BoundSignature

/-- A signature whose parameters are bound. One without parameters takes `unit`. -/
def make (quantified : List String) (ps : BoundParameters) (result : Ty) : BoundSignature :=
  ⟨quantified, if ps.types.isEmpty then [.unit] else ps.types, result, ps.rest⟩

/-- The function type. -/
def type (s : BoundSignature) : Ty := .arrow s.quantified s.parameters s.result

/-- The function type where no argument can be spread. -/
def plainType (s : BoundSignature) : Compiled Ty :=
  match s.rest with
  | some span => span.unsupported .restOutsideFunction
  | none => .ok s.type

end BoundSignature

/-- A field of a member, which must not have a computed name. -/
def bindField (span : Span) (key : String) (optional : Bool) (type : Ty) : Compiled Field :=
  if key.toList.head? = some '[' then span.error (.unsupportedMember .computedName)
  else .ok ⟨key, if optional then type.orUndefined else type⟩

/-! ## Types -/

mutual

/-- The binding type of a declared type. -/
def TypeExpr.bind (scope : Scope) : TypeExpr → Compiled Ty
  | .reference span name arguments => do
    let entry ← scope.resolve span name (arguments.getD []).length
    let arguments ← bindArguments scope arguments
    return scope.target arguments entry
  | .literal _ (.string _) => .ok (.named "string")
  | .literal _ (.number _) => .ok (.named "float")
  | .literal _ (.boolean _) => .ok (.named "bool")
  | .array _ _ element => do return .constructor "array" [← element.bind scope]
  | .tuple span _ elements =>
    if elements.length < 2 then span.unsupported .shortTuple
    else do return .tuple (← bindTypes scope elements)
  | .union span arms =>
    if arms.any scope.isNullish then
      if (arms.filter (!scope.isNullish ·)).length = 1 then do
        return (← bindProper scope span arms).orNullish
      else span.unsupported .nullableUnion
    else bindAlike scope span arms
  | .function _ typeParameters parameters result => do
    let (inner, quantified) ← scope.declareTypeParameters? typeParameters
    let parameters ← bindParameters inner .functionType parameters
    let result ← result.bind inner
    (BoundSignature.make quantified parameters result).plainType
  | .object _ members => do return .object (← bindMembers scope [] members)
  | .parenthesized _ inner => inner.bind scope
  | .intersection span _ => span.unsupported .intersection
  | .constructor span .. => span.unsupported .constructor
  | .indexedAccess span .. => span.unsupported .indexedAccess
  | .query span _ => span.unsupported .query
  | .keyOf span _ => span.unsupported .keyOf
  | .this span => span.unsupported .this

/-- The binding types of declared types. -/
def bindTypes (scope : Scope) : List TypeExpr → Compiled (List Ty)
  | [] => .ok []
  | t :: ts => do
    let type ← t.bind scope
    return type :: (← bindTypes scope ts)

/-- The binding types of type arguments. -/
def bindArguments (scope : Scope) : Option (List TypeExpr) → Compiled (List Ty)
  | none => .ok []
  | some ts => bindTypes scope ts

/-- The binding type of the first type that is not null or undefined. -/
def bindProper (scope : Scope) (span : Span) : List TypeExpr → Compiled Ty
  | [] => span.unsupported .nullableUnion
  | t :: ts => if scope.isNullish t then bindProper scope span ts else t.bind scope

/-- The one binding type of types that must all have the same. -/
def bindAlike (scope : Scope) (span : Span) : List TypeExpr → Compiled Ty
  | [] => span.unsupported .emptyUnion
  | t :: ts => do
    let type ← t.bind scope
    bindSame scope span type ts

/-- The type `type`, if it is the binding type of all others. -/
def bindSame (scope : Scope) (span : Span) (type : Ty) : List TypeExpr → Compiled Ty
  | [] => .ok type
  | t :: ts => do
    let other ← t.bind scope
    if other = type then bindSame scope span type ts else span.unsupported .union

/-- The binding type of a declared type that must be there. -/
def bindRequired (scope : Scope) (span : Span) (problem : Problem) :
    Option TypeExpr → Compiled Ty
  | none => span.error problem
  | some t => t.bind scope

/-- Binds parameters. One named `this` only types the receiver and is not passed; a rest parameter
must be an array. -/
def bindParameters (scope : Scope) (owner : SignatureOwner) :
    List Parameter → Compiled BoundParameters
  | [] => .ok ⟨[], none⟩
  | ⟨span, name, optional, rest, type⟩ :: ps =>
    if name == "this" then bindParameters scope owner ps
    else do
      let type ← bindRequired scope span (.untypedSignature (.parameter name) owner) type
      if rest && !type.isArray then span.unsupported .restNotArray
      else
        let others ← bindParameters scope owner ps
        return ⟨(if optional then type.orUndefined else type) :: others.types,
          others.rest.or (if rest then some span else none)⟩

/-- Binds members to fields in order. No two of them may be written as the same identifier; `seen`
are the fields before. -/
def bindMembers (scope : Scope) (seen : List Field) : List Member → Compiled (List Field)
  | [] => .ok []
  | m :: ms => do
    let field ← m.bind scope
    match seen.find? (lowerIdent ·.name == lowerIdent field.name) with
    | some earlier =>
      m.span.error (.memberCollision field.name earlier.name (lowerIdent field.name))
    | none => return field :: (← bindMembers scope (field :: seen) ms)

/-- Binds a member to a field. -/
def Member.bind (scope : Scope) : Member → Compiled Field
  | .property span _ key optional type => do
    let type ← bindRequired scope span (.untypedProperty key) type
    bindField span key optional type
  | .method span key optional typeParameters parameters result => do
    let (inner, quantified) ← scope.declareTypeParameters? typeParameters
    let parameters ← bindParameters inner (.method key) parameters
    let result ← bindRequired inner span (.untypedSignature .result (.method key)) result
    let type ← (BoundSignature.make quantified parameters result).plainType
    bindField span key optional type
  | .call span .. => span.error (.unsupportedMember .callSignature)
  | .construct span .. => span.error (.unsupportedMember .constructSignature)
  | .index span .. => span.error (.unsupportedMember .indexSignature)

end

/-- Binds the signature of a function that is declared under a name, which stands at `span`. -/
def bindFunction (scope : Scope) (span : Span) (owner : SignatureOwner)
    (typeParameters : Option (List TypeParameter)) (parameters : List Parameter)
    (result : Option TypeExpr) : Compiled BoundSignature := do
  let (inner, quantified) ← scope.declareTypeParameters? typeParameters
  let parameters ← bindParameters inner owner parameters
  let result ← bindRequired inner span (.untypedSignature .result owner) result
  return BoundSignature.make quantified parameters result

end Ambient

import Ambient.Text.Span
/-!
# Type expressions

The types that declarations are written with. Every node carries the span of its source text as its
first field.
-/

namespace Ambient

/-- A name in a type: a plain identifier or a dotted path. -/
inductive EntityName where
  | identifier (name : String)
  | qualified (left : EntityName) (right : String)
deriving DecidableEq, Repr

/-- The dotted form of a name. -/
def EntityName.dotted : EntityName → String
  | .identifier name => name
  | .qualified left right => left.dotted ++ "." ++ right

/-- A literal used as a type. A number is kept as its source text, with its sign. -/
inductive Literal where
  | string (value : String)
  | number (raw : String)
  | boolean (value : Bool)
deriving DecidableEq, Repr

mutual

/-- A type expression. -/
inductive TypeExpr where
  /-- A named type, perhaps applied: `Foo`, `A.B<T, U>`. -/
  | reference (span : Span) (name : EntityName) (arguments : Option (List TypeExpr))
  | literal (span : Span) (value : Literal)
  /-- `T[]`, or `readonly T[]`. -/
  | array (span : Span) (readonly : Bool) (element : TypeExpr)
  /-- `[T, U]`, or `readonly [T, U]`. -/
  | tuple (span : Span) (readonly : Bool) (elements : List TypeExpr)
  | union (span : Span) (arms : List TypeExpr)
  | intersection (span : Span) (arms : List TypeExpr)
  /-- `<a>(x: a) => T`. -/
  | function (span : Span) (typeParameters : Option (List TypeParameter))
      (parameters : List Parameter) (result : TypeExpr)
  /-- `new <a>(x: a) => T`. -/
  | constructor (span : Span) (typeParameters : Option (List TypeParameter))
      (parameters : List Parameter) (result : TypeExpr)
  | object (span : Span) (members : List Member)
  | parenthesized (span : Span) (inner : TypeExpr)
  /-- `T[K]`. -/
  | indexedAccess (span : Span) (object : TypeExpr) (index : TypeExpr)
  /-- `typeof x.y`. -/
  | query (span : Span) (name : EntityName)
  /-- `keyof T`. -/
  | keyOf (span : Span) (operand : TypeExpr)
  /-- The type `this`. -/
  | this (span : Span)

/-- A type parameter: `a`, `a extends T`, `a = T`. -/
structure TypeParameter where
  span : Span
  name : String
  constraint : Option TypeExpr
  fallback : Option TypeExpr

/-- A parameter of a function: `x`, `x?: T`, `...x: T[]`. -/
structure Parameter where
  span : Span
  name : String
  optional : Bool
  rest : Bool
  type : Option TypeExpr

/-- A member of an object type, an interface or a class. A computed key keeps its brackets. -/
inductive Member where
  /-- `readonly x?: T`. -/
  | property (span : Span) (readonly : Bool) (key : String) (optional : Bool)
      (type : Option TypeExpr)
  /-- `m?<a>(x: a): T`. -/
  | method (span : Span) (key : String) (optional : Bool)
      (typeParameters : Option (List TypeParameter)) (parameters : List Parameter)
      (result : Option TypeExpr)
  /-- `<a>(x: a): T`. -/
  | call (span : Span) (typeParameters : Option (List TypeParameter)) (parameters : List Parameter)
      (result : Option TypeExpr)
  /-- `new <a>(x: a): T`. -/
  | construct (span : Span) (typeParameters : Option (List TypeParameter))
      (parameters : List Parameter) (result : Option TypeExpr)
  /-- `readonly [k: K]: T`. -/
  | index (span : Span) (readonly : Bool) (parameterName : String) (parameterType : TypeExpr)
      (type : TypeExpr)

end

/-- The source text of a type. -/
def TypeExpr.span : TypeExpr → Span
  | .reference span .. | .literal span .. | .array span .. | .tuple span .. | .union span ..
  | .intersection span .. | .function span .. | .constructor span .. | .object span ..
  | .parenthesized span .. | .indexedAccess span .. | .query span .. | .keyOf span ..
  | .this span => span

/-- The source text of a member. -/
def Member.span : Member → Span
  | .property span .. | .method span .. | .call span .. | .construct span .. | .index span .. =>
    span

end Ambient

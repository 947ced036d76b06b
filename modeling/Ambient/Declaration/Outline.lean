import Ambient.Declaration.Dump
/-!
# Outlines

The outline of a declaration file: a tree that keeps of each node only its label, its span and its
parts in source order.
-/

namespace Ambient

/-- A labelled tree of spans. -/
inductive Outline where
  | node (label : String) (span : Span) (parts : List Outline)

namespace Outline

/-- A node without parts. -/
def leaf (label : String) (span : Span) : Outline := node label span []

mutual

/-- The nodes of an outline, each before its parts. -/
def preorder : Outline → List (String × Span)
  | .node label span parts => (label, span) :: preorderAll parts

/-- The nodes of outlines in order. -/
def preorderAll : List Outline → List (String × Span)
  | [] => []
  | o :: os => preorder o ++ preorderAll os

end

end Outline

open Outline

mutual

/-- The outline of a type. -/
def TypeExpr.outline : TypeExpr → Outline
  | .reference span _ arguments => node "Reference" span (argumentsOutline arguments)
  | .literal span _ => leaf "Literal" span
  | .array span _ element => node "Array" span [element.outline]
  | .tuple span _ elements => node "Tuple" span (typesOutline elements)
  | .union span arms => node "Union" span (typesOutline arms)
  | .intersection span arms => node "Intersection" span (typesOutline arms)
  | .function span typeParameters parameters result =>
    node "Function" span
      (typeParametersOutline? typeParameters ++ parametersOutline parameters ++ [result.outline])
  | .constructor span typeParameters parameters result =>
    node "Constructor" span
      (typeParametersOutline? typeParameters ++ parametersOutline parameters ++ [result.outline])
  | .object span members => node "Object" span (membersOutline members)
  | .parenthesized span inner => node "Parenthesized" span [inner.outline]
  | .indexedAccess span object index => node "IndexedAccess" span [object.outline, index.outline]
  | .query span _ => leaf "Query" span
  | .keyOf span operand => node "KeyOf" span [operand.outline]
  | .this span => leaf "This" span

/-- The outlines of types. -/
def typesOutline : List TypeExpr → List Outline
  | [] => []
  | t :: ts => t.outline :: typesOutline ts

/-- The outline of a type that may be absent. -/
def typeOutline? : Option TypeExpr → List Outline
  | none => []
  | some t => [t.outline]

/-- The outlines of type arguments. -/
def argumentsOutline : Option (List TypeExpr) → List Outline
  | none => []
  | some ts => typesOutline ts

/-- The outline of a type parameter. -/
def TypeParameter.outline : TypeParameter → Outline
  | ⟨span, _, constraint, fallback⟩ =>
    node "TypeParameter" span (typeOutline? constraint ++ typeOutline? fallback)

/-- The outlines of type parameters. -/
def typeParametersOutline : List TypeParameter → List Outline
  | [] => []
  | p :: ps => p.outline :: typeParametersOutline ps

/-- The outlines of type parameters that may be absent. -/
def typeParametersOutline? : Option (List TypeParameter) → List Outline
  | none => []
  | some ps => typeParametersOutline ps

/-- The outline of a parameter. -/
def Parameter.outline : Parameter → Outline
  | ⟨span, _, _, _, type⟩ => node "Parameter" span (typeOutline? type)

/-- The outlines of parameters. -/
def parametersOutline : List Parameter → List Outline
  | [] => []
  | p :: ps => p.outline :: parametersOutline ps

/-- The outline of a member. -/
def Member.outline : Member → Outline
  | .property span _ _ _ type => node "Property" span (typeOutline? type)
  | .method span _ _ typeParameters parameters result =>
    node "Method" span
      (typeParametersOutline? typeParameters ++ parametersOutline parameters ++ typeOutline? result)
  | .call span typeParameters parameters result =>
    node "Call" span
      (typeParametersOutline? typeParameters ++ parametersOutline parameters ++ typeOutline? result)
  | .construct span typeParameters parameters result =>
    node "Construct" span
      (typeParametersOutline? typeParameters ++ parametersOutline parameters ++ typeOutline? result)
  | .index span _ _ parameterType type =>
    node "Index" span [parameterType.outline, type.outline]

/-- The outlines of members. -/
def membersOutline : List Member → List Outline
  | [] => []
  | m :: ms => m.outline :: membersOutline ms

end

mutual

/-- The outlines of the parts of a declaration. -/
def Declaration.parts : Declaration → List Outline
  | .ofModule _ nameSpan _ body => leaf "name" nameSpan :: statementsOutline? body
  | .ofVariable d => leaf "name" d.nameSpan :: typeOutline? d.type
  | .ofFunction d =>
    leaf "name" d.nameSpan :: typeParametersOutline? d.typeParameters
      ++ parametersOutline d.parameters ++ typeOutline? d.result
  | .ofTypeAlias d =>
    leaf "name" d.nameSpan :: typeParametersOutline? d.typeParameters ++ [d.body.outline]
  | .ofInterface d =>
    leaf "name" d.nameSpan :: typeParametersOutline? d.typeParameters ++ typesOutline d.bases
      ++ membersOutline d.members
  | .ofClass d =>
    typeParametersOutline? d.typeParameters ++ typeOutline? d.base ++ typesOutline d.interfaces
      ++ membersOutline d.members
  | .ofEnum d => d.members.map fun m => leaf "EnumMember" m.span
  | .ofNamespace _ _ _ body | .ofGlobal _ body => statementsOutline body
  | .empty _ | .exportAsNamespace .. | .exportAssignment .. => []
  | .exportList d => d.names.map fun n => leaf "Name" n.span
  | .importing d => d.names.map fun n => leaf "Name" n.span

/-- The outline of a statement: the statement as a whole around its declaration. -/
def Statement.outline : Statement → Outline
  | ⟨span, declaration⟩ =>
    node "Stmt" span [node declaration.tag declaration.span declaration.parts]

/-- The outlines of statements. -/
def statementsOutline : List Statement → List Outline
  | [] => []
  | s :: ss => s.outline :: statementsOutline ss

/-- The outlines of a body that may be absent. -/
def statementsOutline? : Option (List Statement) → List Outline
  | none => []
  | some ss => statementsOutline ss

end

/-- The outline of a declaration file. -/
def File.outline (file : File) : Outline :=
  node "TopLevel" file.span (statementsOutline file.body)

end Ambient

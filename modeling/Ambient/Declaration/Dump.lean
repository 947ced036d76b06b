import Ambient.Declaration.Statement
import Ambient.Text.Json
/-!
# The JSON form of declarations

Every node is an object whose fields come in a fixed order; where a node can have several forms, the
field `$t` comes first and names the form. What is absent is null. Spans are left out.
-/

namespace Ambient

/-- An object whose field `$t` is `tag`. -/
def Json.tagged (tag : String) (fields : List (String × Json)) : Json :=
  .object (("$t", .string tag) :: fields)

open Json (tagged ofString?)

/-- The JSON form of a name. -/
def EntityName.toJson : EntityName → Json
  | .identifier name => tagged "Identifier" [("v", .string name)]
  | .qualified left right =>
    tagged "Qualified" [("v", .object [("left", left.toJson), ("right", .string right)])]

/-- The fields of a literal. -/
def Literal.fields : Literal → List (String × Json)
  | .string value => [("kind", .string "String"), ("value", .string value)]
  | .number raw => [("kind", .string "Number"), ("value", .string raw)]
  | .boolean value => [("kind", .string "Boolean"), ("value", .bool value)]

mutual

/-- The JSON form of a type. -/
def TypeExpr.toJson : TypeExpr → Json
  | .reference _ name arguments =>
    tagged "Reference" [("name", name.toJson), ("type_arguments", argumentsToJson arguments)]
  | .literal _ value => tagged "Literal" value.fields
  | .array _ readonly element =>
    tagged "Array" [("readonly", .bool readonly), ("element_type", element.toJson)]
  | .tuple _ readonly elements =>
    tagged "Tuple" [("readonly", .bool readonly), ("elements", .array (typesToJson elements))]
  | .union _ arms => tagged "Union" [("types", .array (typesToJson arms))]
  | .intersection _ arms => tagged "Intersection" [("types", .array (typesToJson arms))]
  | .function _ typeParameters parameters result =>
    tagged "Function"
      [("type_parameters", typeParametersToJson? typeParameters),
       ("parameters", .array (parametersToJson parameters)), ("return_type", result.toJson)]
  | .constructor _ typeParameters parameters result =>
    tagged "Constructor"
      [("type_parameters", typeParametersToJson? typeParameters),
       ("parameters", .array (parametersToJson parameters)), ("return_type", result.toJson)]
  | .object _ members => tagged "Object" [("members", .array (membersToJson members))]
  | .parenthesized _ inner => tagged "Parenthesized" [("type_expr", inner.toJson)]
  | .indexedAccess _ object index =>
    tagged "IndexedAccess" [("object_type", object.toJson), ("index_type", index.toJson)]
  | .query _ name => tagged "Query" [("expr_name", name.toJson)]
  | .keyOf _ operand => tagged "KeyOf" [("type_expr", operand.toJson)]
  | .this _ => tagged "This" []

/-- The JSON forms of types. -/
def typesToJson : List TypeExpr → List Json
  | [] => []
  | t :: ts => t.toJson :: typesToJson ts

/-- The JSON form of a type that may be absent. -/
def typeToJson? : Option TypeExpr → Json
  | none => .null
  | some t => t.toJson

/-- The JSON form of type arguments. -/
def argumentsToJson : Option (List TypeExpr) → Json
  | none => .null
  | some ts => .array (typesToJson ts)

/-- The JSON form of a type parameter. -/
def TypeParameter.toJson : TypeParameter → Json
  | ⟨_, name, constraint, fallback⟩ =>
    .object [("name", .string name), ("constraint", typeToJson? constraint),
      ("default", typeToJson? fallback)]

/-- The JSON forms of type parameters. -/
def typeParametersToJson : List TypeParameter → List Json
  | [] => []
  | p :: ps => p.toJson :: typeParametersToJson ps

/-- The JSON form of type parameters that may be absent. -/
def typeParametersToJson? : Option (List TypeParameter) → Json
  | none => .null
  | some ps => .array (typeParametersToJson ps)

/-- The JSON form of a parameter. -/
def Parameter.toJson : Parameter → Json
  | ⟨_, name, optional, rest, type⟩ =>
    .object [("name", .string name), ("optional", .bool optional), ("rest", .bool rest),
      ("type_expr", typeToJson? type)]

/-- The JSON forms of parameters. -/
def parametersToJson : List Parameter → List Json
  | [] => []
  | p :: ps => p.toJson :: parametersToJson ps

/-- The JSON form of a member. -/
def Member.toJson : Member → Json
  | .property _ readonly key optional type =>
    tagged "Property"
      [("readonly", .bool readonly), ("key", .string key), ("optional", .bool optional),
       ("type_annotation", typeToJson? type)]
  | .method _ key optional typeParameters parameters result =>
    tagged "Method"
      [("key", .string key), ("optional", .bool optional),
       ("type_parameters", typeParametersToJson? typeParameters),
       ("parameters", .array (parametersToJson parameters)), ("return_type", typeToJson? result)]
  | .call _ typeParameters parameters result =>
    tagged "Call"
      [("type_parameters", typeParametersToJson? typeParameters),
       ("parameters", .array (parametersToJson parameters)), ("return_type", typeToJson? result)]
  | .construct _ typeParameters parameters result =>
    tagged "Construct"
      [("type_parameters", typeParametersToJson? typeParameters),
       ("parameters", .array (parametersToJson parameters)), ("return_type", typeToJson? result)]
  | .index _ readonly parameterName parameterType type =>
    tagged "Index"
      [("readonly", .bool readonly), ("parameter_name", .string parameterName),
       ("parameter_type", parameterType.toJson), ("type_annotation", type.toJson)]

/-- The JSON forms of members. -/
def membersToJson : List Member → List Json
  | [] => []
  | m :: ms => m.toJson :: membersToJson ms

end

/-- The JSON form of an export mark. -/
def Export.toJson : Export → Json
  | .none => .string "None"
  | .named => .string "Named"
  | .default => .string "Default"

/-- The JSON form of the word that declares a variable. -/
def VariableWord.toJson : VariableWord → Json
  | .asConst => .string "Const"
  | .asLet => .string "Let"
  | .asVar => .string "Var"

/-- The JSON form of a module's name. -/
def ModuleName.toJson : ModuleName → Json
  | .identifier name => tagged "Identifier" [("v", .string name)]
  | .string name => tagged "String" [("v", .string name)]

/-- The JSON form of a value of an enumeration. -/
def EnumValue.toJson : EnumValue → Json
  | .number raw => tagged "Number" [("v", .string raw)]
  | .string value => tagged "String" [("v", .string value)]

/-- The JSON form of a member of an enumeration. -/
def EnumMember.toJson (m : EnumMember) : Json :=
  .object [("name", .string m.name), ("initializer", (m.value.map EnumValue.toJson).getD .null)]

/-- The JSON form of a listed name. -/
def ListedName.toJson (n : ListedName) : Json :=
  .object [("target", .string n.target), ("alias", ofString? n.newName)]

/-- The name of the form of a declaration. -/
def Declaration.tag : Declaration → String
  | .ofModule .. => "DeclareModule"
  | .ofVariable _ => "DeclareVariable"
  | .ofFunction _ => "DeclareFunction"
  | .ofTypeAlias _ => "DeclareTypeAlias"
  | .ofInterface _ => "DeclareInterface"
  | .ofClass _ => "DeclareClass"
  | .ofEnum _ => "DeclareEnum"
  | .ofNamespace .. => "DeclareNamespace"
  | .ofGlobal .. => "DeclareGlobal"
  | .empty _ => "Empty"
  | .exportAsNamespace .. => "ExportAsNamespace"
  | .exportAssignment .. => "ExportAssignment"
  | .exportList _ => "ExportList"
  | .importing _ => "Import"

mutual

/-- The fields of a declaration, its tag apart. -/
def Declaration.fields : Declaration → List (String × Json)
  | .ofModule _ _ name body => [("name", name.toJson), ("body", statementsToJson? body)]
  | .ofVariable d =>
    [("export", d.exported.toJson), ("mode", d.word.toJson), ("name", .string d.name),
     ("type_annotation", typeToJson? d.type)]
  | .ofFunction d =>
    [("export", d.exported.toJson), ("name", .string d.name),
     ("type_parameters", typeParametersToJson? d.typeParameters),
     ("parameters", .array (parametersToJson d.parameters)), ("return_type", typeToJson? d.result)]
  | .ofTypeAlias d =>
    [("export", d.exported.toJson), ("name", .string d.name),
     ("type_parameters", typeParametersToJson? d.typeParameters), ("type_expr", d.body.toJson)]
  | .ofInterface d =>
    [("export", d.exported.toJson), ("name", .string d.name),
     ("type_parameters", typeParametersToJson? d.typeParameters),
     ("extends", .array (typesToJson d.bases)), ("members", .array (membersToJson d.members))]
  | .ofClass d =>
    [("export", d.exported.toJson), ("abstract_", .bool d.isAbstract), ("name", .string d.name),
     ("type_parameters", typeParametersToJson? d.typeParameters), ("extends", typeToJson? d.base),
     ("implements", .array (typesToJson d.interfaces)),
     ("members", .array (membersToJson d.members))]
  | .ofEnum d =>
    [("export", d.exported.toJson), ("const_", .bool d.isConst), ("name", .string d.name),
     ("members", .array (d.members.map EnumMember.toJson))]
  | .ofNamespace _ exported name body =>
    [("export", exported.toJson), ("name", .string name), ("body", .array (statementsToJson body))]
  | .ofGlobal _ body => [("body", .array (statementsToJson body))]
  | .empty _ => []
  | .exportAsNamespace _ name => [("name", .string name)]
  | .exportAssignment _ name => [("name", .string name)]
  | .exportList d =>
    [("type_only", .bool d.typeOnly), ("names", .array (d.names.map ListedName.toJson)),
     ("from", ofString? d.source)]
  | .importing d =>
    [("type_only", .bool d.typeOnly), ("default", ofString? d.defaultName),
     ("namespace", ofString? d.namespaceName), ("names", .array (d.names.map ListedName.toJson)),
     ("module", .string d.source)]

/-- The JSON form of a statement. -/
def Statement.toJson : Statement → Json
  | ⟨_, declaration⟩ => tagged declaration.tag declaration.fields

/-- The JSON forms of statements. -/
def statementsToJson : List Statement → List Json
  | [] => []
  | s :: ss => s.toJson :: statementsToJson ss

/-- The JSON form of a body that may be absent. -/
def statementsToJson? : Option (List Statement) → Json
  | none => .null
  | some ss => .array (statementsToJson ss)

end

/-- The JSON form of a declaration without its tag. -/
def Declaration.toJson (d : Declaration) : Json := .object d.fields

/-- The JSON form of a declaration file. -/
def File.toJson (file : File) : Json := .object [("body", .array (statementsToJson file.body))]

end Ambient

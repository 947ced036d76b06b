import Ambient.Binding.Printer
import Ambient.Compile.Type
import Ambient.Grammar.Statement
/-!
# Compiling declarations

`compileStatements` makes bindings of the statements of a file in order, each in the scope that the
statements before it leave. A statement either fails or gives its items and the scope after it. What
a module declares stays inside it. Statements that bind nothing (classes, enumerations, namespaces,
imports, exports) are passed over. `Statement.compileOnto` appends the items of one statement to a
list that is kept from statement to statement.
-/

namespace Ambient

/-! ## Declarations without statements of their own -/

/-- Whether a declaration is the default export of a module. Outside modules there is none. -/
def Scope.exportsDefault (scope : Scope) (exported : Export) : Bool :=
  exported == .default && scope.moduleName.isSome

/-- An external for a variable or a function. -/
def Scope.external (scope : Scope) (exported : Export) (name : String) (type : Ty)
    (isVariadic : Bool) : Item :=
  .external
    { moduleName := scope.moduleName
      isDefault := scope.exportsDefault exported
      name
      type
      isGetter := false
      isVariadic }

/-- The external of a variable. -/
def Variable.compile (scope : Scope) (d : Variable) : Compiled Item :=
  match d.type with
  | none => d.nameSpan.error (.untypedVariable d.name)
  | some type => do return scope.external d.exported d.name (← type.bind scope) false

/-- The external of a function. A rest parameter is spread. -/
def Function.compile (scope : Scope) (d : Function) : Compiled Item := do
  let signature ←
    bindFunction scope d.nameSpan (.function d.name) d.typeParameters d.parameters d.result
  return scope.external d.exported d.name signature.type signature.rest.isSome

/-- Whether a type constructor of the given name is written like the alias `aliasName`. -/
def namesAlias (aliasName name : String) : Bool :=
  !name.toList.contains '.' && lowerIdent name == lowerIdent aliasName

/-- The type declaration of an alias, and its entry for the statements after it. The alias is not in
scope in its own body. -/
def TypeAlias.compile (scope : Scope) (d : TypeAlias) : Compiled (Item × Entry) :=
  if Letter.startsLower d.name then do
    let (inner, parameters) ← scope.declareTypeParameters? d.typeParameters
    let body ← d.body.bind inner
    let isNonrec := body.anyName (namesAlias d.name)
    return (.typeDeclaration { isNonrec, name := d.name, parameters, body },
      .typeAlias d.name parameters.length)
  else d.nameSpan.error (.aliasNotLowercase d.name)

/-- The external that reads a field of an interface whose own type is `self`. -/
def Field.getter (self : Ty) (field : Field) : Item :=
  .external
    { moduleName := none
      isDefault := false
      name := field.name
      type := .arrow [] [self] field.type
      isGetter := true
      isVariadic := false }

/-- The items of the module of an interface: its own type, and a getter for each field. -/
def interfaceItems (parameters : List String) (fields : List Field) : List Item :=
  .typeDeclaration
      { isNonrec := false, name := selfType, parameters, body := .object fields }
    :: fields.map (Field.getter (.constructor selfType (parameters.map .variable)))

/-- The module of an interface, and its entry for the statements after it. The interface is in scope
in its own body. -/
def Interface.compile (scope : Scope) (d : Interface) : Compiled (Item × Entry) :=
  if Letter.startsUpper d.name then
    match d.bases with
    | base :: _ => base.span.unsupported .inheritance
    | [] => do
      let (inner, parameters) ← scope.declareTypeParameters? d.typeParameters
      let entry := Entry.interface d.name parameters.length
      let fields ← bindMembers ((inner.push entry).inInterface d.name) [] d.members
      return (.submodule d.name (interfaceItems parameters fields), entry)
  else d.nameSpan.error (.interfaceNotUppercase d.name)

/-! ## Statements -/

mutual

/-- The items of a declaration and the scope after it. -/
def Declaration.compile (scope : Scope) : Declaration → Compiled (List Item × Scope)
  | .ofModule _ nameSpan (.identifier _) _ => nameSpan.error .moduleNameNotString
  | .ofModule _ _ (.string _) none => .ok ([], scope)
  | .ofModule _ _ (.string name) (some body) => do
    let (items, _) ← compileStatements (scope.inModule name) body
    return (items, scope)
  | .ofVariable d => do return ([← d.compile scope], scope)
  | .ofFunction d => do return ([← d.compile scope], scope)
  | .ofTypeAlias d => do
    let (item, entry) ← d.compile scope
    return ([item], scope.push entry)
  | .ofInterface d => do
    let (item, entry) ← d.compile scope
    return ([item], scope.push entry)
  | .ofClass _ | .ofEnum _ | .ofNamespace .. | .ofGlobal .. | .empty _ | .exportAsNamespace ..
  | .exportAssignment .. | .exportList _ | .importing _ => .ok ([], scope)

/-- The items of a statement and the scope after it. -/
def Statement.compile (scope : Scope) : Statement → Compiled (List Item × Scope)
  | ⟨_, declaration⟩ => declaration.compile scope

/-- The items of statements in order, and the scope after them. -/
def compileStatements (scope : Scope) : List Statement → Compiled (List Item × Scope)
  | [] => .ok ([], scope)
  | s :: ss => do
    let (items, scope) ← s.compile scope
    let (others, scope) ← compileStatements scope ss
    return (items ++ others, scope)

end

/-! ## Appending to a list -/

/-- Appends the item of a declaration that is compiled on its own, if it has one, and gives the
scope after it. -/
def emit {α : Type} (out : List Item) (made : Compiled α) (item : α → Item) (next : α → Scope) :
    Compiled Scope × List Item :=
  match made with
  | .ok a => (.ok (next a), out ++ [item a])
  | .error e => (.error e, out)

mutual

/-- Appends the items of a declaration to `out` as they are made. What is answered is the scope
after it, and what `out` has become. -/
def Declaration.compileOnto (scope : Scope) :
    Declaration → List Item → Compiled Scope × List Item
  | .ofModule _ nameSpan (.identifier _) _, out => (nameSpan.error .moduleNameNotString, out)
  | .ofModule _ _ (.string _) none, out => (.ok scope, out)
  | .ofModule _ _ (.string name) (some body), out =>
    -- The body has a list of its own, of which nothing is kept unless all of it is made.
    match compileAllOnto (scope.inModule name) body [] with
    | (.ok _, items) => (.ok scope, out ++ items)
    | (.error e, _) => (.error e, out)
  | .ofVariable d, out => emit out (d.compile scope) id fun _ => scope
  | .ofFunction d, out => emit out (d.compile scope) id fun _ => scope
  | .ofTypeAlias d, out => emit out (d.compile scope) Prod.fst fun made => scope.push made.2
  | .ofInterface d, out => emit out (d.compile scope) Prod.fst fun made => scope.push made.2
  | .ofClass _, out | .ofEnum _, out | .ofNamespace .., out | .ofGlobal .., out | .empty _, out
  | .exportAsNamespace .., out | .exportAssignment .., out | .exportList _, out
  | .importing _, out => (.ok scope, out)

/-- Appends the items of a statement to `out`. -/
def Statement.compileOnto (scope : Scope) : Statement → List Item → Compiled Scope × List Item
  | ⟨_, declaration⟩, out => declaration.compileOnto scope out

/-- Appends the items of statements to `out`, up to the first statement that fails. -/
def compileAllOnto (scope : Scope) : List Statement → List Item → Compiled Scope × List Item
  | [], out => (.ok scope, out)
  | s :: ss, out =>
    match s.compileOnto scope out with
    | (.ok scope, out) => compileAllOnto scope ss out
    | (.error e, out) => (.error e, out)

end

/-! ## Files -/

/-- The bindings of a declaration file. -/
def bindingsOf (source : String) : Compiled (List Item) :=
  match parse source with
  | .error e => .error (.ofSyntaxError e)
  | .ok file => do return (← compileStatements .prelude file.body).1

/-- The text of the bindings of a declaration file, or where and why there is none. -/
def compile (layout : Layout) (filename source : String) : Except Failure String :=
  match bindingsOf source with
  | .ok items => .ok (layout.print filename items)
  | .error e => .error (Failure.ofError filename source e)

theorem compile_of_bindingsOf {source : String} {items : List Item}
    (h : bindingsOf source = .ok items) (layout : Layout) (filename : String) :
    compile layout filename source = .ok (layout.print filename items) := by
  unfold compile
  rw [h]

end Ambient

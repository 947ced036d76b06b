import Ambient.Binding.Item
/-!
# Scopes

The type names visible at a point of a declaration file, the most recent first, together with the
module and the interface around that point. Scopes are values: adding a name to one leaves the old
one as it was.
-/

namespace Ambient

/-- The types that every file starts with. -/
inductive BuiltIn where
  | string
  | number
  | boolean
  | void
  | undefined
  | null
  | any
  | unknown
  | object
  | symbol
  | bigint
  | date
  | regExp
  | array
  | readonlyArray
  | promise
deriving DecidableEq, Repr

namespace BuiltIn

/-- All of them, in the order in which they come into scope. -/
def all : List BuiltIn :=
  [string, number, boolean, void, undefined, null, any, unknown, object, symbol, bigint, date,
   regExp, array, readonlyArray, promise]

/-- The name in declarations. -/
def name : BuiltIn → String
  | string => "string"
  | number => "number"
  | boolean => "boolean"
  | void => "void"
  | undefined => "undefined"
  | null => "null"
  | any => "any"
  | unknown => "unknown"
  | object => "object"
  | symbol => "symbol"
  | bigint => "bigint"
  | date => "Date"
  | regExp => "RegExp"
  | array => "Array"
  | readonlyArray => "ReadonlyArray"
  | promise => "Promise"

/-- How many type arguments it takes. -/
def arity : BuiltIn → Nat
  | array | readonlyArray | promise => 1
  | _ => 0

/-- The target type, applied to arguments of which there are `arity` many. -/
def target (arguments : List Ty) : BuiltIn → Ty
  | string => .named "string"
  | number => .named "float"
  | boolean => .named "bool"
  | void | undefined => .unit
  | null => .constructor "Js.null" [.unit]
  | any | unknown => .named "Js.Json.t"
  | object => .object []
  | symbol => .named "Js.Types.symbol"
  | bigint => .named "Js.Types.bigint"
  | date => .named "Js.Date.t"
  | regExp => .named "Js.Re.t"
  | array | readonlyArray => .constructor "array" arguments
  | promise => .constructor "Js.Promise.t" arguments

end BuiltIn

/-- What a type name means. -/
inductive Entry where
  | builtIn (b : BuiltIn)
  | typeAlias (name : String) (arity : Nat)
  | interface (name : String) (arity : Nat)
  /-- A type parameter. `printed` is the type variable it is written as, which differs from its name
  where an enclosing parameter is already written like that. -/
  | typeVariable (name printed : String)
deriving DecidableEq, Repr

namespace Entry

/-- The name in declarations. -/
def name : Entry → String
  | builtIn b => b.name
  | typeAlias name _ | interface name _ | typeVariable name _ => name

/-- How many type arguments a reference must give. -/
def arity : Entry → Nat
  | builtIn b => b.arity
  | typeAlias _ arity | interface _ arity => arity
  | typeVariable .. => 0

end Entry

/-- The names visible at a point, and what encloses it. -/
structure Scope where
  /-- The most recent name comes first. -/
  entries : List Entry
  moduleName : Option String
  interfaceName : Option String
deriving DecidableEq, Repr

namespace Scope

/-- No names and nothing around. -/
def empty : Scope := ⟨[], none, none⟩

/-- One more name. -/
def push (entry : Entry) (scope : Scope) : Scope := { scope with entries := entry :: scope.entries }

/-- The same names, inside the module `name`. -/
def inModule (name : String) (scope : Scope) : Scope := { scope with moduleName := some name }

/-- The same names, inside the body of the interface `name`. -/
def inInterface (name : String) (scope : Scope) : Scope := { scope with interfaceName := some name }

/-- The names that every file starts with. -/
def prelude : Scope := BuiltIn.all.foldl (fun scope b => scope.push (.builtIn b)) empty

/-- What a name means: the most recent entry of that name. -/
def lookup (scope : Scope) (name : String) : Option Entry :=
  scope.entries.find? (·.name == name)

/-- The type variables that the type parameters in scope are written as. -/
def typeVariables (scope : Scope) : List String :=
  scope.entries.filterMap fun
    | .typeVariable _ printed => some printed
    | _ => none

end Scope

end Ambient

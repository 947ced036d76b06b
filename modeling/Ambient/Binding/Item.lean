/-!
# Bindings

What a declaration file is compiled to: types of the target language, and the items that declare
external values, types and modules.
-/

namespace Ambient

mutual

/-- A type of the target language. -/
inductive Ty where
  /-- A type constructor applied to arguments: `float`, `'a array`, `(string, float) Foo.t`. The
  name may be a dotted path. -/
  | constructor (name : String) (arguments : List Ty)
  /-- A type variable, by its name without the prime. -/
  | variable (name : String)
  /-- A function. `quantified` are the type parameters that the function type declares itself. -/
  | arrow (quantified : List String) (parameters : List Ty) (result : Ty)
  | tuple (elements : List Ty)
  /-- A JavaScript object. -/
  | object (fields : List Field)

/-- A field of an object type. -/
structure Field where
  name : String
  type : Ty

end

namespace Ty

/-- A type constructor without arguments. -/
def named (name : String) : Ty := .constructor name []

/-- The type of no value. -/
def unit : Ty := named "unit"

/-- The type of values that may be left out. -/
def orUndefined (type : Ty) : Ty := .constructor "Js.undefined" [type]

/-- The type of values that may be null or undefined. -/
def orNullish (type : Ty) : Ty := .constructor "Js.Nullable.t" [type]

/-- Whether the type is an array. -/
def isArray : Ty → Bool
  | .constructor name _ => name == "array"
  | _ => false

mutual

/-- Equality of types is decidable. -/
def decEq : (a b : Ty) → Decidable (a = b)
  | .constructor n as, .constructor m bs =>
    if h : n = m then
      match decEqTypes as bs with
      | isTrue h' => isTrue (by rw [h, h'])
      | isFalse h' => isFalse (by intro e; cases e; exact h' rfl)
    else isFalse (by intro e; cases e; exact h rfl)
  | .variable n, .variable m =>
    if h : n = m then isTrue (by rw [h]) else isFalse (by intro e; cases e; exact h rfl)
  | .arrow q ps r, .arrow q' ps' r' =>
    if h : q = q' then
      match decEqTypes ps ps' with
      | isTrue h' =>
        match decEq r r' with
        | isTrue h'' => isTrue (by rw [h, h', h''])
        | isFalse h'' => isFalse (by intro e; cases e; exact h'' rfl)
      | isFalse h' => isFalse (by intro e; cases e; exact h' rfl)
    else isFalse (by intro e; cases e; exact h rfl)
  | .tuple as, .tuple bs =>
    match decEqTypes as bs with
    | isTrue h => isTrue (by rw [h])
    | isFalse h => isFalse (by intro e; cases e; exact h rfl)
  | .object fs, .object gs =>
    match decEqFields fs gs with
    | isTrue h => isTrue (by rw [h])
    | isFalse h => isFalse (by intro e; cases e; exact h rfl)
  | .constructor .., .variable _ | .constructor .., .arrow .. | .constructor .., .tuple _
  | .constructor .., .object _ | .variable _, .constructor .. | .variable _, .arrow ..
  | .variable _, .tuple _ | .variable _, .object _ | .arrow .., .constructor ..
  | .arrow .., .variable _ | .arrow .., .tuple _ | .arrow .., .object _ | .tuple _, .constructor ..
  | .tuple _, .variable _ | .tuple _, .arrow .. | .tuple _, .object _ | .object _, .constructor ..
  | .object _, .variable _ | .object _, .arrow .. | .object _, .tuple _ =>
    isFalse (by intro e; cases e)

/-- Equality of lists of types is decidable. -/
def decEqTypes : (as bs : List Ty) → Decidable (as = bs)
  | [], [] => isTrue rfl
  | [], _ :: _ => isFalse (by intro e; cases e)
  | _ :: _, [] => isFalse (by intro e; cases e)
  | a :: as, b :: bs =>
    match decEq a b with
    | isTrue h =>
      match decEqTypes as bs with
      | isTrue h' => isTrue (by rw [h, h'])
      | isFalse h' => isFalse (by intro e; cases e; exact h' rfl)
    | isFalse h => isFalse (by intro e; cases e; exact h rfl)

/-- Equality of lists of fields is decidable. -/
def decEqFields : (as bs : List Field) → Decidable (as = bs)
  | [], [] => isTrue rfl
  | [], _ :: _ => isFalse (by intro e; cases e)
  | _ :: _, [] => isFalse (by intro e; cases e)
  | ⟨n, a⟩ :: as, ⟨m, b⟩ :: bs =>
    if h : n = m then
      match decEq a b with
      | isTrue h' =>
        match decEqFields as bs with
        | isTrue h'' => isTrue (by rw [h, h', h''])
        | isFalse h'' => isFalse (by intro e; cases e; exact h'' rfl)
      | isFalse h' => isFalse (by intro e; cases e; exact h' rfl)
    else isFalse (by intro e; cases e; exact h rfl)

end

instance : DecidableEq Ty := decEq

instance : Inhabited Ty := ⟨unit⟩

mutual

/-- Whether `p` holds of the name of some type constructor in the type. -/
def anyName (p : String → Bool) : Ty → Bool
  | .constructor name arguments => p name || anyNameIn p arguments
  | .variable _ => false
  | .arrow _ parameters result => anyNameIn p parameters || result.anyName p
  | .tuple elements => anyNameIn p elements
  | .object fields => anyNameOf p fields

/-- Whether `p` holds of the name of some type constructor in one of the types. -/
def anyNameIn (p : String → Bool) : List Ty → Bool
  | [] => false
  | t :: ts => t.anyName p || anyNameIn p ts

/-- Whether `p` holds of the name of some type constructor in one of the fields. -/
def anyNameOf (p : String → Bool) : List Field → Bool
  | [] => false
  | ⟨_, t⟩ :: fs => t.anyName p || anyNameOf p fs

end

end Ty

/-- The name of the type that the module of an interface declares for the interface itself. -/
def selfType : String := "t"

/-- A value provided by JavaScript. -/
structure Extern where
  /-- The module that it is imported from; without one it is a global. -/
  moduleName : Option String
  /-- Whether it is the default export of its module. -/
  isDefault : Bool
  name : String
  type : Ty
  /-- Whether it reads a property of its argument. -/
  isGetter : Bool
  /-- Whether its last argument is spread into separate ones. -/
  isVariadic : Bool
deriving DecidableEq

/-- A type declaration. -/
structure TypeDeclaration where
  /-- Whether the body means an earlier type where it uses the declared name. -/
  isNonrec : Bool
  name : String
  parameters : List String
  body : Ty
deriving DecidableEq

/-- An item of the bindings. -/
inductive Item where
  | external (e : Extern)
  | typeDeclaration (d : TypeDeclaration)
  | submodule (name : String) (items : List Item)

instance : Inhabited Item := ⟨.submodule "" []⟩

end Ambient

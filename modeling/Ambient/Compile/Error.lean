import Ambient.Grammar.SyntaxError
import Ambient.Text.Json
import Ambient.Text.Position
/-!
# Compile errors

Why a declaration has no binding, and the wording of each message. A `Failure` is an error placed by
line and column in its file.
-/

namespace Ambient

/-- One complaint about the syntax of a file. -/
structure Diagnostic where
  span : Span
  code : String
  message : String
deriving DecidableEq, Repr

namespace Diagnostic

/-- The complaint that a syntax error makes. -/
def ofSyntaxError (e : SyntaxError) : Diagnostic := ⟨e.span, e.cause.code, e.message⟩

/-- The text of complaints, in order. -/
def display (ds : List Diagnostic) : String :=
  "; ".intercalate (ds.map fun d => d.code ++ ": " ++ d.message)

/-- The text that complaints are about. -/
def cover (ds : List Diagnostic) : Span := Span.coverAll (ds.map Diagnostic.span)

end Diagnostic

/-- Types that have no binding. -/
inductive UnsupportedType where
  | shortTuple
  | intersection
  | constructor
  | indexedAccess
  | query
  | keyOf
  | this
  | qualifiedName
  | nullableUnion
  | emptyUnion
  | union
  | restOutsideFunction
  | restNotArray
  | inheritance
deriving DecidableEq, Repr

/-- How a message calls the type. -/
def UnsupportedType.text : UnsupportedType → String
  | shortTuple => "tuple with fewer than two elements"
  | intersection => "intersection type"
  | constructor => "constructor type"
  | indexedAccess => "indexed access type"
  | query => "typeof type query"
  | keyOf => "keyof type operator"
  | this => "this type"
  | qualifiedName => "qualified type name"
  | nullableUnion => "nullable union of more than one type"
  | emptyUnion => "empty union"
  | union => "union type"
  | restOutsideFunction => "rest parameter outside a function declaration"
  | restNotArray => "rest parameter that is not an array"
  | inheritance => "interface inheritance"

/-- Members that have no binding. -/
inductive UnsupportedMember where
  | callSignature
  | constructSignature
  | indexSignature
  | computedName
deriving DecidableEq, Repr

/-- How a message calls the member. -/
def UnsupportedMember.text : UnsupportedMember → String
  | callSignature => "call signature"
  | constructSignature => "construct signature"
  | indexSignature => "index signature"
  | computedName => "computed property name"

/-- What a signature belongs to. -/
inductive SignatureOwner where
  | functionType
  | function (name : String)
  | method (key : String)
deriving DecidableEq, Repr

/-- How a message calls the owner. -/
def SignatureOwner.text : SignatureOwner → String
  | functionType => "function type"
  | function name => "function `" ++ name ++ "`"
  | method key => "method `" ++ key ++ "`"

/-- A part of a signature that has a type. -/
inductive SignaturePart where
  | parameter (name : String)
  | result
deriving DecidableEq, Repr

/-- How a message calls the part. -/
def SignaturePart.text : SignaturePart → String
  | parameter name => "parameter `" ++ name ++ "`"
  | result => "return type"

/-- Why a file or a declaration cannot be compiled. -/
inductive Problem where
  | malformed (diagnostics : List Diagnostic)
  | moduleNameNotString
  | untypedVariable (name : String)
  | untypedSignature (part : SignaturePart) (owner : SignatureOwner)
  | untypedProperty (key : String)
  | aliasNotLowercase (name : String)
  | interfaceNotUppercase (name : String)
  | typeParameterNotLowercase (name : String)
  | unresolvedType (name : String)
  | arityMismatch (name : String) (expected actual : Nat)
  | unsupportedType (what : UnsupportedType)
  | unsupportedMember (what : UnsupportedMember)
  /-- Inside an interface the name of the alias means the interface's own type. -/
  | aliasHidden (aliasName interfaceName : String)
  /-- Two members of one object are written as the same identifier. -/
  | memberCollision (name earlier ident : String)
deriving DecidableEq, Repr

/-- The message of a problem. -/
def Problem.message : Problem → String
  | malformed ds => "syntax error: " ++ Diagnostic.display ds
  | moduleNameNotString => "module name must be a string literal"
  | untypedVariable name => "variable `" ++ name ++ "` must have a type annotation"
  | untypedSignature part owner =>
    part.text ++ " of " ++ owner.text ++ " must have a type annotation"
  | untypedProperty key => "property `" ++ key ++ "` must have a type annotation"
  | aliasNotLowercase name => "type alias `" ++ name ++ "` must start with a lowercase letter"
  | interfaceNotUppercase name =>
    "interface `" ++ name ++ "` must start with an uppercase letter"
  | typeParameterNotLowercase name =>
    "type parameter `" ++ name ++ "` must start with a lowercase letter"
  | unresolvedType name => "unresolved type `" ++ name ++ "`"
  | arityMismatch name expected actual =>
    "type `" ++ name ++ "` expects " ++ toString expected ++ " type argument(s) but was given "
      ++ toString actual
  | unsupportedType what => "unsupported type: " ++ what.text
  | unsupportedMember what => "unsupported interface member: " ++ what.text
  | aliasHidden aliasName interfaceName =>
    "type alias `" ++ aliasName ++ "` cannot be used inside interface `" ++ interfaceName
      ++ "`, whose own type is also `" ++ aliasName ++ "`"
  | memberCollision name earlier ident =>
    "member `" ++ name ++ "` binds as `" ++ ident ++ "`, like the earlier member `" ++ earlier
      ++ "`"

/-- A problem and the text it is about. -/
structure CompileError where
  problem : Problem
  span : Span
deriving DecidableEq, Repr

namespace CompileError

/-- The error of a file that does not parse. -/
def ofDiagnostics (ds : List Diagnostic) : CompileError := ⟨.malformed ds, Diagnostic.cover ds⟩

/-- The error of a file that does not parse. -/
def ofSyntaxError (e : SyntaxError) : CompileError := ofDiagnostics [Diagnostic.ofSyntaxError e]

end CompileError

/-- A problem placed in a file. -/
structure Failure where
  filename : String
  range : Range
  problem : Problem
deriving DecidableEq, Repr

namespace Failure

/-- Places an error in the file whose text is `source`. -/
def ofError (filename source : String) (e : CompileError) : Failure :=
  ⟨filename, (LineTable.ofText source).range e.span, e.problem⟩

/-- The message without the place. -/
def message (f : Failure) : String := f.problem.message

/-- Place and message. -/
def display (f : Failure) : String := f.range.text ++ ":" ++ f.message

/-- The JSON form of a failure. -/
def toJson (f : Failure) : Json :=
  .object [("filename", .string f.filename), ("range", rangeToJson f.range),
    ("message", .string f.message)]
where
  positionToJson (p : Position) : Json :=
    .object [("line", .number p.line), ("column", .number p.column)]
  rangeToJson (r : Range) : Json :=
    .object [("start", positionToJson r.start), ("end", positionToJson r.stop)]

end Failure

end Ambient

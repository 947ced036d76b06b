import Ambient.Binding.Item
import Ambient.Binding.Name
import Ambient.Text.Split
/-!
# The text of bindings

Bindings are written as OCaml source with BuckleScript externals, one line for each external and
each type declaration and two for each module. `Item.lines` gives the lines with their depth, and
`Layout.print` lays them out.
-/

namespace Ambient

namespace Name

/-- A path of modules that ends in a type. -/
def pathOf : List (List Char) → List Char
  | [] => []
  | [type] => lowerChars type
  | m :: rest => moduleChars m ++ '.' :: pathOf rest

/-- The path to a type, from its dotted name. -/
def typePath (name : String) : List Char := pathOf (pieces '.' name.toList)

/-- A type variable with its prime. -/
def typeVariable (name : String) : List Char := '\x27' :: lowerChars name.toList

end Name

open Name (lowerChars moduleChars quoted typePath typeVariable)

/-- Texts with a separator between them. -/
def joinedBy (separator : List Char) : List (List Char) → List Char
  | [] => []
  | [a] => a
  | a :: rest => a ++ separator ++ joinedBy separator rest

namespace Ty

/-- Parentheses around a text, if wanted. -/
def parenthesized (wanted : Bool) (cs : List Char) : List Char :=
  if wanted then '(' :: cs ++ [')'] else cs

mutual

/-- The text of a type. `tight` tells that the type stands where an arrow needs parentheses. -/
def chars (tight : Bool) : Ty → List Char
  | .constructor name [] => typePath name
  | .constructor name [argument] => argument.chars true ++ ' ' :: typePath name
  | .constructor name arguments =>
    '(' :: joinedBy ", ".toList (charsAll false arguments) ++ ") ".toList ++ typePath name
  | .variable name => typeVariable name
  | .arrow _ parameters result =>
    parenthesized tight (parameterChars parameters ++ result.chars true)
  | .tuple elements => '(' :: joinedBy " * ".toList (charsAll true elements) ++ [')']
  | .object [] => '<' :: " > Js.t".toList
  | .object fields => "< ".toList ++ joinedBy "; ".toList (fieldChars fields) ++ " > Js.t".toList

/-- The texts of types. -/
def charsAll (tight : Bool) : List Ty → List (List Char)
  | [] => []
  | t :: ts => t.chars tight :: charsAll tight ts

/-- The parameters of a function, each with the arrow behind it. -/
def parameterChars : List Ty → List Char
  | [] => []
  | t :: ts => t.chars true ++ " -> ".toList ++ parameterChars ts

/-- The texts of fields. A function that declares type parameters is written with a quantifier. -/
def fieldChars : List Field → List (List Char)
  | [] => []
  | ⟨name, .arrow (v :: vs) parameters result⟩ :: fields =>
    (lowerChars name.toList ++ " : ".toList ++ joinedBy [' '] ((v :: vs).map typeVariable)
      ++ ". ".toList ++ parameterChars parameters ++ result.chars true) :: fieldChars fields
  | ⟨name, type⟩ :: fields =>
    (lowerChars name.toList ++ " : ".toList ++ type.chars false) :: fieldChars fields

end

end Ty

/-- What ties an external to JavaScript. -/
def Extern.attribute (e : Extern) : List Char :=
  if e.isGetter then "[@@bs.get]".toList
  else
    match e.moduleName with
    | some m => "[@@bs.module ".toList ++ quoted m.toList ++ [']']
    | none => "[@@bs.val]".toList

/-- The name in JavaScript. -/
def Extern.sourceName (e : Extern) : String := if e.isDefault then "default" else e.name

/-- The line of an external. -/
def Extern.chars (e : Extern) : List Char :=
  "external ".toList ++ lowerChars e.name.toList ++ " : ".toList ++ e.type.chars false
    ++ " = ".toList ++ quoted e.sourceName.toList ++ ' ' :: e.attribute
    ++ if e.isVariadic then " [@@bs.variadic]".toList else []

/-- The parameters of a type declaration, before its name. -/
def TypeDeclaration.parameterChars : List String → List Char
  | [] => []
  | [p] => typeVariable p ++ [' ']
  | ps => '(' :: joinedBy ", ".toList (ps.map typeVariable) ++ ") ".toList

/-- The line of a type declaration. -/
def TypeDeclaration.chars (d : TypeDeclaration) : List Char :=
  (if d.isNonrec then "type nonrec ".toList else "type ".toList)
    ++ TypeDeclaration.parameterChars d.parameters ++ lowerChars d.name.toList ++ " = ".toList
    ++ d.body.chars false

/-- A line of output and how many modules it stands in. -/
structure Line where
  depth : Nat
  text : List Char
deriving DecidableEq, Repr

mutual

/-- The lines of an item. -/
def Item.lines (depth : Nat) : Item → List Line
  | .external e => [⟨depth, e.chars⟩]
  | .typeDeclaration d => [⟨depth, d.chars⟩]
  | .submodule name items =>
    ⟨depth, "module ".toList ++ moduleChars name.toList ++ " = struct".toList⟩
      :: Item.linesAll (depth + 1) items ++ [⟨depth, "end".toList⟩]

/-- The lines of items. -/
def Item.linesAll (depth : Nat) : List Item → List Line
  | [] => []
  | i :: is => i.lines depth ++ Item.linesAll depth is

end

/-- How bindings are laid out: the spaces for each level of modules, and whether a comment that
names the source file comes first. -/
structure Layout where
  indent : Nat := 2
  header : Bool := true
deriving DecidableEq, Repr

namespace Layout

/-- A text in which no `*)` ends a comment. -/
def withoutCommentEnd : List Char → List Char
  | '*' :: ')' :: cs => '*' :: ' ' :: ')' :: withoutCommentEnd cs
  | c :: cs => c :: withoutCommentEnd cs
  | [] => []

/-- The comment at the start. -/
def headerChars (filename : String) : List Char :=
  "(* Generated from ".toList ++ withoutCommentEnd filename.toList
    ++ " by bind-dts. Do not edit. *)\n\n".toList

/-- One line, indented and ended. -/
def lineChars (indent : Nat) (l : Line) : List Char :=
  List.replicate (l.depth * indent) ' ' ++ l.text ++ ['\n']

/-- The text of bindings made from a file. -/
def printChars (layout : Layout) (filename : String) (items : List Item) : List Char :=
  (if layout.header then headerChars filename else [])
    ++ (Item.linesAll 0 items).flatMap (lineChars layout.indent)

/-- The text of bindings made from a file. -/
def print (layout : Layout) (filename : String) (items : List Item) : String :=
  String.ofList (layout.printChars filename items)

end Layout

end Ambient

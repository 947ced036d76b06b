import Ambient.Text.Split
/-!
# Paths

A path leads from a directory to a directory or to an entry of one. It is followed step by step, and
every step but the last must lead to a directory. Slashes that follow one another count as one.
-/

namespace Ambient.Command

/-- One step of a path. -/
inductive Step where
  /-- A dot: the same directory. -/
  | stay
  /-- Two dots: the directory around. -/
  | up
  | enter (name : String)
deriving DecidableEq, Repr

/-- The step that a piece of a path stands for. An empty piece is none. -/
def Step.ofPiece? : List Char → Option Step
  | [] => none
  | ['.'] => some .stay
  | ['.', '.'] => some .up
  | name => some (.enter (String.ofList name))

/-- A path: where it starts, its steps, and whether a slash stands behind the last one. -/
structure Path where
  fromRoot : Bool
  steps : List Step
  endsInSlash : Bool
deriving DecidableEq, Repr

namespace Path

/-- The largest number of bytes in a path. -/
def maxBytes : Nat := 4095

/-- The largest number of bytes in a name. -/
def maxNameBytes : Nat := 255

/-- Whether a name has more bytes than it may have. -/
def isLongName (name : String) : Bool := maxNameBytes < name.utf8ByteSize

/-- The path that a text stands for. -/
def ofChars (cs : List Char) : Path where
  fromRoot := cs.head? == some '/'
  steps := (pieces '/' cs).filterMap Step.ofPiece?
  endsInSlash := cs.getLast? == some '/'

/-- The path that a text stands for, unless the text is too long. -/
def ofText? (text : String) : Option Path :=
  if text.utf8ByteSize ≤ maxBytes then some (ofChars text.toList) else none

end Path

/-- Why a path cannot be used. -/
inductive PathError where
  | notFound
  | notDirectory
  | isDirectory
  | nameTooLong
deriving DecidableEq, Repr

/-- The reason as the system words it. -/
def PathError.text : PathError → String
  | notFound => "No such file or directory (os error 2)"
  | notDirectory => "Not a directory (os error 20)"
  | isDirectory => "Is a directory (os error 21)"
  | nameTooLong => "File name too long (os error 36)"

end Ambient.Command

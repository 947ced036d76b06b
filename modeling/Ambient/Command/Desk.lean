import Ambient.Command.Path
import Ambient.Command.Run
/-!
# A desk to run the command on

A desk is a directory of files with standard streams. It is a `Host` by itself, so what the command
does there is a function of the arguments and the desk.

Around the desk there are other directories, up to the root of all, and there may be directories in
each of them and on the desk. Paths lead to all of these. The directories around the desk need not
have names: a path then gets to them by going up, and from the root it does not get to the desk.
-/

namespace Ambient.Command

/-- A directory: `above 0` is that of the desk, `above (n + 1)` the one around `above n`, and
`inside around name` any other, by its name in the directory around it. -/
inductive Directory where
  | above (levels : Nat)
  | root
  | inside (around : Directory) (name : String)
deriving DecidableEq, Repr

/-- A place for a file: a name in a directory. -/
structure Location where
  directory : Directory
  name : String
deriving DecidableEq, Repr

/-- The place of this name on the desk itself. -/
def Location.onDesk (name : String) : Location := ⟨.above 0, name⟩

/-- Files by place, what is on standard input, and what has been written to the other streams. -/
structure Desk where
  files : List (Location × ByteArray)
  stdin : ByteArray
  stdout : String := ""
  stderr : String := ""
  /-- The directories besides the desk and those around it. -/
  directories : List Directory := []
  /-- The names of the desk's directory and of those around it, the nearest first, if they have
  names. The root is the directory around the last. -/
  way : Option (List String) := none

/-- What a path leads to. -/
inductive Target where
  | directory
  /-- A place, there or not, with whether a slash follows its name. -/
  | entry (place : Location) (slash : Bool)
deriving DecidableEq, Repr

namespace Desk

/-- The content of a file. -/
def file? (desk : Desk) (place : Location) : Option ByteArray := desk.files.lookup place

/-- The root of all directories. -/
def root (desk : Desk) : Directory :=
  match desk.way with
  | none => .root
  | some names => .above names.length

/-- The directory around a directory. The root is around itself. -/
def parent (desk : Desk) : Directory → Directory
  | .above levels => if desk.root = .above levels then .above levels else .above (levels + 1)
  | .root => .root
  | .inside around _ => around

/-- The directory of this name in a directory, if it is the one that leads to the desk. -/
def towards? (desk : Desk) (name : String) : Directory → Option Directory
  | .above (levels + 1) =>
    if (desk.way.getD [])[levels]? = some name then some (.above levels) else none
  | _ => none

/-- The directory of this name in a directory. -/
def child? (desk : Desk) (directory : Directory) (name : String) : Option Directory :=
  (desk.towards? name directory).or
    (if .inside directory name ∈ desk.directories then some (.inside directory name) else none)

/-- Takes a step from a directory that must lead to a directory. -/
def follow (desk : Desk) (directory : Directory) : Step → Except PathError Directory
  | .stay => .ok directory
  | .up => .ok (desk.parent directory)
  | .enter name =>
    if Path.isLongName name then .error .nameTooLong
    else
      match desk.child? directory name with
      | some next => .ok next
      | none =>
        if (desk.file? ⟨directory, name⟩).isSome then .error .notDirectory else .error .notFound

/-- What a last step by name leads to. -/
def target (desk : Desk) (slash : Bool) (place : Location) : Target :=
  if (desk.child? place.directory place.name).isSome then .directory else .entry place slash

/-- Takes the steps of a path from a directory. Only the last may lead to anything but a
directory. -/
def walk (desk : Desk) (slash : Bool) (directory : Directory) :
    List Step → Except PathError Target
  | [] => .ok .directory
  | [.enter name] => .ok (desk.target slash ⟨directory, name⟩)
  | step :: steps => do walk desk slash (← desk.follow directory step) steps

/-- What a path leads to from the desk. -/
def locate (desk : Desk) (text : String) : Except PathError Target :=
  match Path.ofText? text with
  | none => .error .nameTooLong
  | some path =>
    desk.walk path.endsInSlash (if path.fromRoot then desk.root else .above 0) path.steps

/-- The content of the file that a path leads to. A slash behind its name asks for a directory. -/
def readFile (desk : Desk) (path : String) : Except PathError ByteArray := do
  match ← desk.locate path with
  | .directory => .error .isDirectory
  | .entry place slash =>
    if Path.isLongName place.name then .error .nameTooLong
    else
      match desk.file? place with
      | none => .error .notFound
      | some content => if slash then .error .notDirectory else .ok content

/-- Files with the content of one replaced, or one more file. -/
def put (place : Location) (content : ByteArray) :
    List (Location × ByteArray) → List (Location × ByteArray)
  | [] => [(place, content)]
  | (other, old) :: files =>
    if other = place then (place, content) :: files else (other, old) :: put place content files

/-- The place where a file can be written that a path leads to. No file is made under a name with a
slash behind it, whatever is there. -/
def writable (desk : Desk) (path : String) : Except PathError Location := do
  match ← desk.locate path with
  | .directory => .error .isDirectory
  | .entry place slash =>
    if slash then .error .isDirectory
    else if Path.isLongName place.name then .error .nameTooLong
    else .ok place

/-- The content of a file or of standard input. -/
def read (path : Option String) (desk : Desk) : Except String ByteArray :=
  match path with
  | none => .ok desk.stdin
  | some path => (desk.readFile path).mapError PathError.text

/-- Replaces the content of a file, or adds to standard output. -/
def write (path : Option String) (text : String) (desk : Desk) : Except String Unit × Desk :=
  match path with
  | none => (.ok (), { desk with stdout := desk.stdout ++ text })
  | some path =>
    match desk.writable path with
    | .ok place => (.ok (), { desk with files := put place text.toUTF8 desk.files })
    | .error e => (.error e.text, desk)

/-- Adds to standard error. -/
def report (text : String) (desk : Desk) : Desk := { desk with stderr := desk.stderr ++ text }

/-- The desk as the world around the command. -/
def host : Host (StateM Desk) where
  read path := fun desk => (desk.read path, desk)
  write path text := fun desk => desk.write path text
  report text := fun desk => ((), desk.report text)

end Desk

/-- Runs the command on a desk: the exit code and the desk afterwards. -/
def runOn (desk : Desk) (arguments : List String) : Nat × Desk := (run Desk.host arguments).run desk

end Ambient.Command

/-!
# Command line arguments

`Request.ofArguments` reads the arguments of the command from left to right. A value follows its
flag as the next argument or behind `=`, or directly behind a one-letter flag; only in the first
case it must not look like a flag itself. No flag may be given twice. Asking for the version or for
help ends the reading.
-/

namespace Ambient.Command

/-- The flags. -/
inductive Flag where
  | input
  | output
  | indent
  | noHeader
  | ast
  | errorFormat
  | trace
  | help
  | version
deriving DecidableEq, Repr

namespace Flag

/-- The long names, without dashes. -/
def longNames : List (Flag × String) :=
  [(input, "input"), (output, "output"), (indent, "indent"), (noHeader, "no-header"), (ast, "ast"),
   (errorFormat, "error-format"), (trace, "trace"), (help, "help"), (version, "version")]

/-- The flag with this long name. -/
def ofLong? (name : List Char) : Option Flag := (longNames.find? (·.2.toList == name)).map (·.1)

/-- The flag with this one-letter name. -/
def ofShort? (letter : Char) : Option Flag :=
  if letter == 'i' then some input
  else if letter == 'o' then some output
  else if letter == 'h' then some help
  else if letter == 'V' then some version
  else none

/-- Whether a value comes with the flag. -/
def takesValue : Flag → Bool
  | input | output | indent | errorFormat => true
  | noHeader | ast | trace | help | version => false

/-- The long form. -/
def text (flag : Flag) : String := "--" ++ (longNames.lookup flag).getD ""

end Flag

/-- How a failure is reported. -/
inductive ErrorFormat where
  | text
  | json
deriving DecidableEq, Repr

/-- What the command is asked to do with a file. -/
structure Options where
  /-- The file to compile; standard input if there is none. -/
  input : Option String := none
  /-- The file to write; standard output if there is none. -/
  output : Option String := none
  indent : Nat := 2
  header : Bool := true
  /-- Whether the declarations are dumped instead of compiled. -/
  ast : Bool := false
  errorFormat : ErrorFormat := .text
  trace : Bool := false
deriving DecidableEq, Repr

/-- What the command is asked for. -/
inductive Request where
  | help
  | version
  | process (options : Options)
deriving DecidableEq, Repr

/-- What is wrong with the arguments. -/
inductive UsageError where
  | unexpectedArgument (argument : String)
  | missingValue (flag : Flag)
  | unneededValue (flag : Flag) (value : String)
  | invalidValue (flag : Flag) (value : String)
  | repeated (flag : Flag)
deriving DecidableEq, Repr

/-- The message of a usage error. -/
def UsageError.message : UsageError → String
  | unexpectedArgument argument => "unexpected argument '" ++ argument ++ "' found"
  | missingValue flag => "a value is required for '" ++ flag.text ++ "' but none was supplied"
  | unneededValue flag value =>
    "unexpected value '" ++ value ++ "' for '" ++ flag.text ++ "' found; no more were expected"
  | invalidValue flag value => "invalid value '" ++ value ++ "' for '" ++ flag.text ++ "'"
  | repeated flag => "the argument '" ++ flag.text ++ "' cannot be used multiple times"

/-- The number that a decimal numeral denotes: digits, after a plus sign or not, below `2 ^ 64`. -/
def word64? (cs : List Char) : Option Nat :=
  let digits := match cs with
    | '+' :: rest => rest
    | _ => cs
  let value := digits.foldl (fun n d => 10 * n + (d.toNat - '0'.toNat)) 0
  if !digits.isEmpty && digits.all Char.isDigit && value < 0x1_0000_0000_0000_0000 then some value
  else none

namespace Options

/-- The options with a flag set that takes no value. -/
def set (flag : Flag) (o : Options) : Options :=
  match flag with
  | .noHeader => { o with header := false }
  | .ast => { o with ast := true }
  | .trace => { o with trace := true }
  | _ => o

/-- The options with a flag set to a value. A path must not be empty. -/
def setValue (flag : Flag) (value : List Char) (o : Options) : Except UsageError Options :=
  let invalid := .error (.invalidValue flag (String.ofList value))
  match flag with
  | .input =>
    if value.isEmpty then .error (.missingValue flag)
    else .ok { o with input := some (String.ofList value) }
  | .output =>
    if value.isEmpty then .error (.missingValue flag)
    else .ok { o with output := some (String.ofList value) }
  | .indent =>
    match word64? value with
    | some n => .ok { o with indent := n }
    | none => invalid
  | .errorFormat =>
    if value == "text".toList then .ok { o with errorFormat := .text }
    else if value == "json".toList then .ok { o with errorFormat := .json }
    else invalid
  | _ => .ok o

end Options

/-- An argument by its form. -/
inductive Argument where
  /-- Two dashes on their own, after which no flags come. -/
  | separator
  /-- A flag, with the value that stands in the same argument. -/
  | known (flag : Flag) (value : Option (List Char))
  | other
deriving DecidableEq, Repr

namespace Argument

/-- The text behind the first `=`, if there is one. -/
def afterEquals? (cs : List Char) : Option (List Char) :=
  match cs.dropWhile (· != '=') with
  | [] => none
  | _ :: value => some value

/-- The value directly behind a one-letter flag. -/
def attached? : List Char → Option (List Char)
  | [] => none
  | '=' :: value => some value
  | value => some value

/-- The form of an argument. -/
def ofChars : List Char → Argument
  | ['-', '-'] => .separator
  | '-' :: '-' :: name =>
    match Flag.ofLong? (name.takeWhile (· != '=')) with
    | some flag => .known flag (afterEquals? name)
    | none => .other
  | '-' :: letter :: value =>
    match Flag.ofShort? letter with
    | some flag => .known flag (if flag.takesValue then attached? value else none)
    | none => .other
  | _ => .other

/-- Whether an argument looks like a flag, so that it is no value. -/
def looksLikeFlag (argument : String) : Bool :=
  match argument.toList with
  | '-' :: _ :: _ => true
  | _ => false

end Argument

namespace Request

/-- Reads arguments, with the options and flags of those before. -/
def read (o : Options) (given : List Flag) : List String → Except UsageError Request
  | [] => .ok (.process o)
  | argument :: rest =>
    match Argument.ofChars argument.toList with
    | .other => .error (.unexpectedArgument argument)
    | .separator =>
      match rest with
      | [] => .ok (.process o)
      | extra :: _ => .error (.unexpectedArgument extra)
    | .known flag value =>
      if flag.takesValue then
        match value, rest with
        | some value, rest =>
          if given.contains flag then .error (.repeated flag)
          else do read (← o.setValue flag value) (flag :: given) rest
        | none, [] => .error (.missingValue flag)
        | none, next :: rest =>
          if Argument.looksLikeFlag next then .error (.missingValue flag)
          else if given.contains flag then .error (.repeated flag)
          else do read (← o.setValue flag next.toList) (flag :: given) rest
      else
        match value with
        | some value => .error (.unneededValue flag (String.ofList value))
        | none =>
          if flag = .help then .ok .help
          else if flag = .version then .ok .version
          else if given.contains flag then .error (.repeated flag)
          else read (o.set flag) (flag :: given) rest

/-- What the arguments ask for. -/
def ofArguments (arguments : List String) : Except UsageError Request := read {} [] arguments

end Request

end Ambient.Command

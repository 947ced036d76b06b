import Ambient.Command.Options
import Ambient.Compile.Statement
import Ambient.Declaration.Dump
/-!
# Running the command

`run` does what the arguments ask for. It reaches files and standard streams only through a `Host`,
and answers with the exit code: 0 for success, 1 for a failure to read, compile or write, and 2 for
arguments it does not understand. Nothing is written before everything has succeeded.
-/

namespace Ambient.Command

/-- The world around the command. A path that is absent means standard input or output. What cannot
be done is answered with the reason. -/
structure Host (m : Type → Type) where
  /-- The content of a file or of standard input. -/
  read : Option String → m (Except String ByteArray)
  /-- Replaces the content of a file, or adds to standard output. -/
  write : Option String → String → m (Except String Unit)
  /-- Adds to standard error. -/
  report : String → m Unit

/-- The name and version of the command. -/
def versionText : String := "bind-dts 0.1.0\n"

/-- A summary of the flags. -/
def helpText : String :=
  "Compile TypeScript declaration files into OCaml bindings\n\n"
    ++ "Usage: bind-dts [OPTIONS]\n\n"
    ++ "Options:\n"
    ++ "  -i, --input <INPUT>                Declaration file to compile; omit for stdin\n"
    ++ "  -o, --output <OUTPUT>              Output destination; omit for stdout\n"
    ++ "      --indent <INDENT>              Spaces per nesting level [default: 2]\n"
    ++ "      --no-header                    Omit the generated-file header comment\n"
    ++ "      --ast                          Print the parsed declarations as JSON\n"
    ++ "      --error-format <ERROR_FORMAT>  How failures are reported: text (default) or json\n"
    ++ "      --trace                        Emit JSON tracing events to stderr\n"
    ++ "  -h, --help                         Print help\n"
    ++ "  -V, --version                      Print version\n"

namespace Options

/-- The name that the source goes by. -/
def filename (o : Options) : String := o.input.getD "<stdin>"

/-- The layout of bindings. -/
def layout (o : Options) : Layout := { indent := o.indent, header := o.header }

/-- What is to be written for a source: its bindings, or its declarations as JSON. -/
def process (o : Options) (source : String) : Except Failure String :=
  if o.ast then
    match parse source with
    | .ok file => .ok (file.toJson.text ++ "\n")
    | .error e => .error (Failure.ofError o.filename source (.ofSyntaxError e))
  else compile o.layout o.filename source

/-- The report of a failure. -/
def failureText (o : Options) (f : Failure) : String :=
  match o.errorFormat with
  | .text => f.display ++ "\n"
  | .json => f.toJson.text ++ "\n"

end Options

variable {m : Type → Type} [Monad m]

/-- Reports that something could not be done with a file or stream, and why. -/
def giveUp (host : Host m) (doing : String) (place : String) (why : String) : m Nat := do
  host.report ("failed to " ++ doing ++ " " ++ place ++ ": " ++ why ++ "\n")
  return 1

/-- Writes a text. -/
def deliver (host : Host m) (o : Options) (text : String) : m Nat := do
  match ← host.write o.output text with
  | .ok () => return 0
  | .error why => giveUp host "write" (o.output.getD "stdout") why

/-- Reads a file and writes what is made of it. -/
def processFile (host : Host m) (o : Options) : m Nat := do
  match ← host.read o.input with
  | .error why => giveUp host "read" (o.input.getD "stdin") why
  | .ok bytes =>
    match String.fromUTF8? bytes with
    | none => giveUp host "read" (o.input.getD "stdin") "stream did not contain valid UTF-8"
    | some source =>
      match o.process source with
      | .ok text => deliver host o text
      | .error failure =>
        host.report (o.failureText failure)
        return 1

/-- Does what the arguments ask for and answers with the exit code. -/
def run (host : Host m) (arguments : List String) : m Nat := do
  match Request.ofArguments arguments with
  | .ok .help => deliver host {} helpText
  | .ok .version => deliver host {} versionText
  | .ok (.process o) => processFile host o
  | .error e =>
    host.report ("error: " ++ e.message ++ "\n")
    return 2

end Ambient.Command

import Garnet.Files
import Garnet.Flags
import Garnet.Interpreter
import Garnet.Settings

/-! # Commands: requests

The arguments of the program ask for one of a few commands. Reading them is pure: it says what to do
or why the arguments are refused, and does nothing yet.
-/

namespace Garnet.Command

/-- The name of the program. -/
def program : String := "bci"

/-- What to do with a script. A flag that was not given leaves the matter to the settings. -/
structure Run where
  script : String
  config : Option String := none
  verbosity : Option Int := none
  checkOnly : Bool := false
  format : Option String := none
  out : Option String := none
  recursionLimit : Option Int := none
deriving DecidableEq, Repr

/-- What to do with the layout of source files. -/
structure Fmt where
  targets : List String
  write : Bool := false
  check : Bool := false
deriving DecidableEq, Repr

/-- What the arguments ask for. -/
inductive Request where
  | run (request : Run)
  | parse (script : String)
  | repl (recursionLimit : Int)
  | fmt (request : Fmt)
  | help
deriving DecidableEq, Repr

/-- Why a command failed. -/
inductive Error where
  | invalidCommand
  | flags (error : Flags.Error)
  | missingScript (command : String)
  | missingPath
  | script (cause : FileError)
  | settings (error : Settings.Error)
  | unknownFormat (name : String)
  | missingOut
  | refused (error : ParseError)
  | failed (error : RuntimeError)
  /-- An operation on a file that the command names by its purpose and path. -/
  | file (purpose path : String) (cause : FileError)
  /-- A source file that cannot be laid out because it is refused. -/
  | refusedFile (path : String) (error : ParseError)
  | needFormatting (count : Nat)

/-- The wording of an error. -/
def Error.message : Error → String
  | invalidCommand => "invalid command"
  | flags error => error.message
  | missingScript command => s!"{program} {command}: script path required"
  | missingPath => s!"{program} fmt: path required"
  | script cause => s!"read script: {cause.message}"
  | settings error => error.message
  | unknownFormat name => s!"{program} run: {Settings.unknownFormatText name}"
  | missingOut => s!"{program} run: cbor snapshots need -dump-out"
  | refused error => s!"parse failed: {error.render}"
  | failed error => s!"execution failed: {error.render}"
  | file purpose path cause => s!"{purpose} {path}: {cause.message}"
  | refusedFile path error => s!"{path}: {error.render}"
  | needFormatting count => s!"{program} fmt: {count} file(s) need formatting"

/-- How to use the program. -/
def usage : String :=
  String.join <| (· ++ "\n") <$>
    [ s!"Usage: {program} <command> [flags] <script>",
      "Commands:",
      "  run      evaluate a script",
      "  parse    print a script's syntax tree",
      "  repl     start an interactive session",
      "  fmt      normalise whitespace in .rb files",
      "Run flags:",
      "  -config <file>",
      "    read settings from a bci.toml (default: bci.toml next to the script)",
      "  -v",
      "    increase log verbosity (repeatable)",
      "  -check",
      "    only parse the script without executing",
      "  -dump yaml|cbor, -dump-out <file>",
      "    write a runtime snapshot after the run",
      "  -recursion-limit <n>",
      "    maximum binding stack depth (default 512)" ]

/-- The flags of `run`. -/
def runFlags : Flags.Definitions :=
  [("config", .text), ("v", .count), ("check", .switch), ("dump", .text), ("dump-out", .text),
    ("recursion-limit", .integer)]

/-- The flags of `repl`. -/
def replFlags : Flags.Definitions :=
  [("recursion-limit", .integer)]

/-- The flags of `fmt`. -/
def fmtFlags : Flags.Definitions :=
  [("w", .switch), ("check", .switch)]

/-- Read flags and the other arguments. -/
def readFlags (definitions : Flags.Definitions) (args : List String) : Except Error Flags.Given :=
  (Flags.parse definitions args).mapError .flags

/-- The first of the arguments that are no flags. -/
def scriptOf (command : String) (given : Flags.Given) : Except Error String :=
  match given.rest with
  | script :: _ => .ok script
  | [] => .error (.missingScript command)

/-- Read the arguments of `run`. -/
def runRequest (args : List String) : Except Error Run := do
  let given ← readFlags runFlags args
  let script ← scriptOf "run" given
  return { script
           config := (given.text? "config").bind Settings.given?
           verbosity := given.count? "v"
           checkOnly := given.isOn "check"
           format := given.text? "dump"
           out := given.text? "dump-out"
           recursionLimit := given.integer? "recursion-limit" }

/-- Read the arguments of `fmt`. -/
def fmtRequest (args : List String) : Except Error Fmt := do
  let given ← readFlags fmtFlags args
  if given.rest.isEmpty then throw .missingPath
  return { targets := given.rest, write := given.isOn "w", check := given.isOn "check" }

/-- Read the arguments of the program. -/
def Request.ofArguments : List String → Except Error Request
  | [] => .error .invalidCommand
  | command :: args =>
    match command with
    | "run" => .run <$> runRequest args
    | "parse" => do return .parse (← scriptOf "parse" (← readFlags [] args))
    | "repl" => do return .repl (((← readFlags replFlags args).integer? "recursion-limit").getD 0)
    | "fmt" => .fmt <$> fmtRequest args
    | "help" | "-h" | "--help" => .ok .help
    | _ => .error .invalidCommand

end Garnet.Command

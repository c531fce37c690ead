import Garnet.Command.Request
import Garnet.Layout
import Garnet.Sorted
import Garnet.Text.Utf8

/-! # Commands: execution

A command reads and writes files through its host and writes to a console. When it fails, what it
wrote before stays written.
-/

namespace Garnet.Command

/-- Where the log of a run goes. -/
structure Logging where
  verbosity : Int
  file : Option String
deriving DecidableEq, Repr

/-- What a command has written so far. -/
structure Console where
  output : List UInt8 := []
  /-- Text for the user that is not part of the output. -/
  messages : String := ""
  /-- How logging was set up, if it was. -/
  logging : Option Logging := none
  events : List Event := []
deriving DecidableEq, Repr

/-- The events that are logged. Details of a run are logged only from verbosity two on. -/
def Console.log (console : Console) : List Event :=
  match console.logging with
  | some logging => if 2 ≤ logging.verbosity then console.events else []
  | none => []

variable {m : Type → Type} [Monad m]

/-- A command in progress, which may fail. -/
abbrev Job (m : Type → Type) := ExceptT Error (StateT Console m)

namespace Job

/-- Write bytes to the output. -/
def put (bytes : List UInt8) : Job m Unit :=
  modify fun console => { console with output := console.output ++ bytes }

/-- Write text to the output. -/
def putText (text : String) : Job m Unit :=
  put text.toUTF8.toList

/-- Write text for the user. -/
def say (text : String) : Job m Unit :=
  modify fun console => { console with messages := console.messages ++ text }

/-- Ask the host for something that may fail. -/
def ask {α ε : Type} (onError : ε → Error) (question : m (Except ε α)) : Job m α := do
  match ← (question : m _) with
  | .ok answer => return answer
  | .error cause => throw (onError cause)

end Job

open Job

/-- The source text that bytes spell. -/
def sourceOf (content : List UInt8) : String :=
  String.ofList (Text.ofBytes content)

/-! ### Running scripts -/

/-- The settings of a run: flags come before the settings file. -/
def Run.override (request : Run) (settings : Settings) : Except Error Settings := do
  let format ← match request.format with
    | none => pure settings.format
    | some name => (Settings.formatOf name).mapError .unknownFormat
  let out := match request.out with
    | none => settings.out
    | some path => Settings.given? path
  if format = some .cbor ∧ out = none then throw .missingOut
  return { settings with
    recursionLimit := request.recursionLimit.getD settings.recursionLimit
    verbosity := request.verbosity.getD settings.verbosity
    format
    out }

/-- Write the snapshot that the settings ask for. -/
def writeSnapshot (host : Host m) (settings : Settings) (interp : Interpreter) : Job m Unit := do
  match settings.format with
  | none => return
  | some format =>
    let bytes := (Snapshot.ofInterpreter interp).write format
    match settings.out with
    | none => put bytes
    | some path =>
      match ← (host.write path bytes : m _) with
      | none => return
      | some cause => throw (.file "write" path cause)

/-- Evaluate a script in a new interpreter. -/
def evaluate (settings : Settings) (source : String) : Job m Interpreter := do
  let (outcome, interp) := (Interpreter.new settings.recursionLimit {}).run source
  putText interp.sink.text
  modify fun console => { console with events := console.events ++ interp.log.toList }
  match outcome with
  | .ok _ => return interp
  | .error (.parse error) => throw (.refused error)
  | .error (.runtime error) => throw (.failed error)

/-- Run a script, or only read it. The settings are looked for only if the script can be read. -/
def run (host : Host m) (request : Run) : Job m Unit := do
  let script := Path.absolute (← (host.workingDir : m _)) request.script
  let content ← ask .script (host.read script)
  let found ← ask .settings (Settings.resolve host request.config script)
  let settings ← request.override found
  modify fun console => { console with logging := some ⟨settings.verbosity, settings.logFile⟩ }
  let source := sourceOf content
  if request.checkOnly then
    match parse source [] with
    | .ok _ => return
    | .error error => throw (.refused error)
  else
    writeSnapshot host settings (← evaluate settings source)

/-! ### Printing trees -/

/-- Print the tree of a script. -/
def parseScript (host : Host m) (script : String) : Job m Unit := do
  let content ← ask .script (host.read script)
  match parse (sourceOf content) [] with
  | .ok tree => putText (Node.textOf tree ++ "\n")
  | .error error => throw (.refused error)

/-! ### Laying out source files -/

/-- The extension of source files. -/
def sourceExtension : String := ".rb"

/-- No path has more bytes than this, so no directory lies more steps below another. -/
def longestPath : Nat := 4096

/-- The files in a directory and in the directories below it, down to a depth. -/
def filesBelow (host : Host m) : Nat → String → m (Except FileError (List String))
  | 0, _ => return .ok []
  | depth + 1, directory => do
    match ← host.list directory with
    | .error cause => return .error cause
    | .ok entries =>
      entries.foldlM
        (fun found (name, isDirectory) => do
          match found with
          | .error cause => return .error cause
          | .ok files =>
            let path := Path.join directory name
            if isDirectory then
              return (← filesBelow host depth path).map (files ++ ·)
            else return .ok (files ++ [path]))
        (.ok [])

/-- The files that a target stands for. -/
def filesOf (host : Host m) (target : String) : Job m (List String) := do
  if ← ask (.file "stat" target) (host.isDirectory target) then
    ask (.file "walk" target) (filesBelow host longestPath target)
  else return [target]

/-- The source files that targets stand for, as absolute paths, in order and each once. -/
def sourceFiles (host : Host m) (targets : List String) : Job m (List String) := do
  let files ← targets.mapM (filesOf host)
  let workingDir ← (host.workingDir : m _)
  let sources := files.flatten.filter fun file => Path.extension file = sourceExtension
  return sortBy (· < ·) (sources.map (Path.absolute workingDir)).eraseDups

/-- Lay out one file. The answer says whether its layout was different. -/
def layoutFile (host : Host m) (request : Fmt) (path : String) : Job m Bool := do
  let content ← ask (.file "read" path) (host.read path)
  match parse (sourceOf content) [] with
  | .error error => throw (.refusedFile path error)
  | .ok _ =>
    let formatted := Layout.formatBytes content
    let changed := formatted ≠ content
    if request.write then
      if changed then
        if let some cause ← (host.write path formatted : m _) then throw (.file "write" path cause)
    else if !request.check then put formatted
    return changed

/-- Lay out source files one after the other, up to the first that is refused. -/
def fmt (host : Host m) (request : Fmt) : Job m Unit := do
  let files ← sourceFiles host request.targets
  let changes ← files.mapM (layoutFile host request)
  let pending := changes.count true
  if request.check ∧ 0 < pending then throw (.needFormatting pending)

/-! ### The program -/

/-- Do what is asked for. An interactive session is not started here: it needs a terminal. -/
def perform (host : Host m) : Request → Job m Unit
  | .run request => run host request
  | .parse script => parseScript host script
  | .fmt request => fmt host request
  | .repl _ => return
  | .help => say usage

/-- Read the arguments. If they ask for no command, the user is told how to use the program. -/
def request (args : List String) : Job m Request := do
  match Request.ofArguments args with
  | .ok request => return request
  | .error error =>
    if let .invalidCommand := error then say usage
    throw error

/-- Run the program with some arguments: its error, if it fails, and what it wrote. -/
def execute (host : Host m) (args : List String) : m (Option Error × Console) := do
  match ← (do perform host (← request args) : Job m Unit).run {} with
  | (.ok (), console) => return (none, console)
  | (.error error, console) => return (some error, console)

end Garnet.Command

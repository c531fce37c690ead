import Garnet.Command.Execution
import Garnet.Prompt.View

/-! # The program

The outer layer: it gives commands access to the files of the system, writes what they wrote to the
console and runs sessions line by line.
-/

namespace Garnet.Main

/-- The reason of a failure that the system reports. -/
def reasonOf : IO.Error → FileError.Reason
  | .noFileOrDirectory .. => .notFound
  | .inappropriateType _ code details =>
    if code = 20 then .notDirectory else if code = 21 then .isDirectory else .other details
  | .invalidArgument _ code _ => if code = 36 then .nameTooLong else .invalid
  | error => .other (toString error)

/-- Try an operation on a file. -/
def attempt {α : Type} (operation path : String) (task : IO α) : IO (Except FileError α) := do
  match ← task.toBaseIO with
  | .ok value => return .ok value
  | .error error => return .error ⟨operation, path, reasonOf error⟩

/-- The files of the system. -/
def host : Host IO where
  workingDir := return toString (← IO.currentDir)
  read path := do
    match ← attempt "open" path (IO.FS.readBinFile path) with
    | .ok content => return .ok content.toList
    | .error cause =>
      -- A directory can be opened, but not read.
      return .error { cause with
        operation := if cause.reason = .isDirectory then "read" else cause.operation }
  isDirectory path := attempt "stat" path do (← IO.FS.realPath path).isDir
  list path := attempt "open" path do
    let entries ← (← IO.FS.realPath path).readDir
    entries.toList.mapM fun entry => return (entry.fileName, ← entry.path.isDir)
  write path content := do
    match ← attempt "open" path (IO.FS.writeBinFile path ⟨content.toArray⟩) with
    | .ok () => return none
    | .error cause => return some cause

/-- Write what a command wrote. -/
def report (error : Option Command.Error) (console : Command.Console) : IO UInt32 := do
  (← IO.getStdout).write ⟨console.output.toArray⟩
  IO.eprint console.messages
  let log := String.join (console.log.map fun event => event.message ++ "\n")
  match console.logging.bind (·.file) with
  | none => IO.eprint log
  | some path => IO.FS.writeFile path log
  match error with
  | none => return 0
  | some error =>
    IO.eprintln error.message
    return 1

/-- Run a session: every line of the input is entered, and what came of it is shown. -/
def session (limit : Int) : IO Unit := do
  let input ← IO.getStdin
  let output ← IO.getStdout
  let mut prompt := Prompt.new limit
  repeat
    output.putStr "bci> "
    output.flush
    let line ← input.getLine
    if line.isEmpty then break
    let (next, signal) := { prompt with input := prompt.input.setValue line.toList }.enter
    for entry in next.history.drop prompt.history.length do
      for text in Prompt.entryLines entry do
        output.putStrLn text
    if signal = .quit then break
    prompt := next

end Garnet.Main

/-- Run a session if one is asked for, else a command. -/
def main (args : List String) : IO UInt32 := do
  match Garnet.Command.Request.ofArguments args with
  | .ok (.repl limit) =>
    Garnet.Main.session limit
    return 0
  | _ =>
    let (error, console) ← Garnet.Command.execute Garnet.Main.host args
    Garnet.Main.report error console

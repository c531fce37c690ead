import Garnet.Path
import Garnet.Sorted
import Garnet.Table
import Garnet.Text.Trim

/-! # Files

Commands reach files through a small set of operations, which a host provides. One host is a tree of
files in memory; it resolves paths step by step, so that a step up is possible only from a
directory that exists.
-/

namespace Garnet

namespace FileError

/-- Why an operation on a file failed. -/
inductive Reason where
  | notFound
  | notDirectory
  | isDirectory
  | invalid
  | nameTooLong
  | other (text : String)
deriving DecidableEq, Repr

/-- The wording of a reason. -/
def Reason.message : Reason → String
  | notFound => "no such file or directory"
  | notDirectory => "not a directory"
  | isDirectory => "is a directory"
  | invalid => "invalid argument"
  | nameTooLong => "file name too long"
  | other text => text

end FileError

/-- An operation on a file that failed. -/
structure FileError where
  operation : String
  path : String
  reason : FileError.Reason
deriving DecidableEq, Repr

/-- The wording of a failure. -/
def FileError.message (error : FileError) : String :=
  s!"{error.operation} {error.path}: {error.reason.message}"

/-- What commands need from the system they run on. -/
structure Host (m : Type → Type) where
  /-- The absolute path of the working directory. -/
  workingDir : m String
  read : String → m (Except FileError (List UInt8))
  /-- Whether there is a directory, rather than a file, at a path. -/
  isDirectory : String → m (Except FileError Bool)
  /-- The names in a directory, each with whether it is a directory itself. -/
  list : String → m (Except FileError (List (String × Bool)))
  write : String → List UInt8 → m (Option FileError)

namespace Files

/-- What stands at a path. -/
inductive Entry where
  | directory
  | file (content : List UInt8)
deriving DecidableEq, Repr

end Files

open FileError

/-- A tree of files in memory, by absolute paths without a slash at the end. -/
structure Files where
  workingDir : String
  entries : Table Files.Entry

namespace Files

/-- The absolute path that steps from the root lead to. -/
def pathOf (place : List String) : String :=
  String.join (place.map ("/" ++ ·))

/-- What stands at a place. The root is a directory. -/
def entryAt (files : Files) (place : List String) : Option Entry :=
  if place.isEmpty then some .directory else files.entries.get? (pathOf place)

/-- The largest number of bytes in a step. -/
def stepLimit : Nat := 255

/-- The number of bytes that a path stays below. -/
def pathLimit : Nat := 4096

/-- Follow steps from a place. The last step may lead to nothing, every other has to lead to a
directory. -/
def follow (files : Files) (place : List String) : List String → Except Reason (List String)
  | [] => .ok place
  | step :: rest =>
    match files.entryAt place with
    | none => .error .notFound
    | some (.file _) => .error .notDirectory
    | some .directory =>
      if step = "" ∨ step = "." then files.follow place rest
      else if step = ".." then files.follow place.dropLast rest
      else if stepLimit < step.utf8ByteSize then .error .nameTooLong
      else files.follow (place ++ [step]) rest

/-- The place that a path leads to. -/
def locate (files : Files) (path : String) : Except Reason (List String) :=
  if path.isEmpty then .error .notFound
  else if path.toList.contains '\x00' then .error .invalid
  else if pathLimit ≤ path.utf8ByteSize then .error .nameTooLong
  else
    let steps := Path.steps path
    if Path.isAbsolute path then files.follow [] steps
    else files.follow [] (Path.steps files.workingDir ++ steps)

/-- What a path leads to. -/
def lookup (files : Files) (path : String) : Except Reason (List String × Entry) := do
  let place ← files.locate path
  match files.entryAt place with
  | some entry => .ok (place, entry)
  | none => .error .notFound

/-- The content of a file. -/
def read (files : Files) (path : String) : Except FileError (List UInt8) :=
  match files.lookup path with
  | .error reason => .error ⟨"open", path, reason⟩
  | .ok (_, .directory) => .error ⟨"read", path, .isDirectory⟩
  | .ok (_, .file content) => .ok content

/-- Whether a path leads to a directory. -/
def isDirectory (files : Files) (path : String) : Except FileError Bool :=
  match files.lookup path with
  | .error reason => .error ⟨"stat", path, reason⟩
  | .ok (_, entry) => .ok (entry == .directory)

/-- The names in a directory. -/
def list (files : Files) (path : String) : Except FileError (List (String × Bool)) :=
  match files.lookup path with
  | .error reason => .error ⟨"open", path, reason⟩
  | .ok (_, .file _) => .error ⟨"readdirent", path, .notDirectory⟩
  | .ok (place, .directory) =>
    .ok <| files.entries.entries.filterMap fun (other, entry) =>
      let steps := (Path.steps other).drop 1
      if steps.length = place.length + 1 ∧ steps.take place.length = place then
        some (steps.getLast?.getD "", entry == .directory)
      else none

/-- Write a file, which is made if it does not exist. A path with a slash at its end can only mean
a directory. -/
def write (files : Files) (path : String) (content : List UInt8) : Except FileError Files :=
  let failed (reason : Reason) : Except FileError Files := .error ⟨"open", path, reason⟩
  let body := String.ofList (Text.trimEnd (· == '/') path.toList)
  match files.locate (if body.isEmpty then path else body) with
  | .error reason => failed reason
  | .ok place =>
    match files.entryAt place with
    | some .directory => failed .isDirectory
    | some (.file _) | none =>
      if body ≠ path then failed .isDirectory
      else .ok { files with entries := files.entries.insert (pathOf place) (.file content) }

/-- Put in a directory with all directories above it. -/
def addDirectory (files : Files) (path : String) : Files :=
  let steps := (Path.steps (Path.absolute files.workingDir path)).filter (!·.isEmpty)
  let places := (List.range steps.length).map fun n => steps.take (n + 1)
  { files with
    entries := places.foldl (fun entries place => entries.insert (pathOf place) .directory)
      files.entries }

/-- Put in a file with all directories above it. -/
def addFile (files : Files) (path : String) (content : List UInt8) : Files :=
  let full := Path.absolute files.workingDir path
  let files := files.addDirectory (Path.directory full)
  { files with entries := files.entries.insert full (.file content) }

/-- An empty working directory. -/
def empty (workingDir : String) : Files :=
  addDirectory { workingDir, entries := ∅ } workingDir

/-- The files below the working directory, with their paths from there. -/
def contents (files : Files) : List (String × List UInt8) :=
  let base := files.workingDir.toList ++ ['/']
  files.entries.entries.filterMap fun (path, entry) =>
    match entry with
    | .directory => none
    | .file content =>
      if base.isPrefixOf path.toList then
        some (String.ofList (path.toList.drop base.length), content)
      else none

/-- Files in memory as a host. -/
def host : Host (StateM Files) where
  workingDir := return (← get).workingDir
  read path := return (← get).read path
  isDirectory path := return (← get).isDirectory path
  list path := return (← get).list path
  write path content := do
    match (← get).write path content with
    | .ok files =>
      set files
      return none
    | .error error => return some error

end Files

end Garnet

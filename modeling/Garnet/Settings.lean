import Garnet.Files
import Garnet.Snapshot.Format
import Garnet.Text.Quoted
import Garnet.Toml

/-! # Settings

Scripts run with settings, which may stand in a file: the one that is asked for, or the one beside
the script. Paths in a settings file start from the directory of that file.
-/

namespace Garnet

/-- What can be set for a run. -/
structure Settings where
  /-- The largest number of frames. Zero asks for the default. -/
  recursionLimit : Int := 0
  verbosity : Int := 0
  logFile : Option String := none
  /-- How a snapshot is written after the run, if one is asked for. -/
  format : Option Snapshot.Format := none
  /-- Where the snapshot is written. -/
  out : Option String := none
  /-- The file that the settings come from. -/
  path : Option String := none
deriving DecidableEq, Repr

namespace Settings

/-- The name of the settings file beside a script. -/
def fileName : String := "bci.toml"

/-- Why there are no settings. -/
inductive Error where
  | unreadable (path : String) (cause : FileError)
  | unreachable (path : String) (cause : FileError)
  | malformed (path : String)
  | negativeLimit (path : String)
  | unknownFormat (path name : String)
deriving DecidableEq, Repr

/-- The wording for a format that does not exist. -/
def unknownFormatText (name : String) : String :=
  s!"unknown dump format {Text.quote name} (want yaml or cbor)"

/-- The wording of an error. A malformed file is refused as a whole, so only its format is
named. -/
def Error.message : Error → String
  | unreadable path cause => s!"cannot read {path}: {cause.message}"
  | unreachable path cause => s!"stat {path}: {cause.message}"
  | malformed path => s!"parse error in {path}: <toml>"
  | negativeLimit path => s!"{path}: run.recursion_limit must not be negative"
  | unknownFormat path name => s!"{path}: {unknownFormatText name}"

/-- An empty text counts as not given. -/
def given? (text : String) : Option String :=
  if text.isEmpty then none else some text

/-- The format that a text asks for. An empty text asks for no snapshot; the error is a text that
names no format. -/
def formatOf (text : String) : Except String (Option Snapshot.Format) :=
  if text.isEmpty then .ok none
  else match Snapshot.Format.ofName? text with
    | some format => .ok (some format)
    | none => .error text

/-! ### Decoding -/

/-- Settings as they stand in a file. -/
structure Raw where
  recursionLimit : Int := 0
  verbosity : Int := 0
  logFile : String := ""
  format : String := ""
  out : String := ""
deriving DecidableEq, Repr

/-- The lower case form of a letter, if that is an ASCII letter. Two letters beyond ASCII have
one. -/
def lowerCase (c : Char) : Char :=
  if c = '\u017F' then 's' else if c = '\u212A' then 'k' else c.toLower

/-- Names of settings are told apart without regard to case. -/
def canonicalName (name : String) : String :=
  String.ofList (name.toList.map lowerCase)

/-- Put in one value of a table. Names without a meaning are ignored; a value of the wrong type is
refused. -/
def Raw.put (raw : Raw) (table name : String) (content : Toml.Content) :
    Option Raw :=
  match table, canonicalName name, content with
  | "run", "recursion_limit", .integer n => some { raw with recursionLimit := n }
  | "run", "recursion_limit", _ => none
  | "log", "verbosity", .integer n => some { raw with verbosity := n }
  | "log", "verbosity", _ => none
  | "log", "file", .text s => some { raw with logFile := s }
  | "log", "file", _ => none
  | "dump", "format", .text s => some { raw with format := s }
  | "dump", "format", _ => none
  | "dump", "out", .text s => some { raw with out := s }
  | "dump", "out", _ => none
  | _, _, _ => some raw

/-- Put in one entry at the top of a file. The names with a meaning are those of tables. -/
def Raw.putTable (document : Toml.Document) (raw : Raw) (name : String) (content : Toml.Content) :
    Option Raw :=
  let table := canonicalName name
  if ["run", "log", "dump"].contains table then
    match content with
    | .table id =>
      (document.entries id).foldlM (fun raw (name, content) => raw.put table name content) raw
    | _ => none
  else some raw

/-- The settings in a file. -/
def Raw.ofDocument? (document : Toml.Document) : Option Raw :=
  (document.entries Toml.Document.top).foldlM
    (fun raw (name, content) => raw.putTable document name content) {}

/-- The meaning of a path in a settings file. -/
def anchored (path file : String) : Option String :=
  (given? file).map fun file =>
    if Path.isAbsolute file then file else Path.join (Path.directory path) file

/-- Check the settings in a file. -/
def Raw.check (raw : Raw) (path : String) : Except Error Settings :=
  if raw.recursionLimit < 0 then .error (.negativeLimit path)
  else match formatOf raw.format with
    | .error name => .error (.unknownFormat path name)
    | .ok format => .ok
      { recursionLimit := raw.recursionLimit
        verbosity := raw.verbosity
        logFile := anchored path raw.logFile
        format
        out := anchored path raw.out
        path := some path }

/-- The settings that the content of a file stands for. -/
def ofContent (path : String) (content : List UInt8) : Except Error Settings :=
  match (Toml.read? content).bind Raw.ofDocument? with
  | some raw => raw.check path
  | none => .error (.malformed path)

/-! ### Loading -/

variable {m : Type → Type} [Monad m]

/-- Read the settings in a file. -/
def load (host : Host m) (path : String) : m (Except Error Settings) := do
  match ← host.read path with
  | .error cause => return .error (.unreadable path cause)
  | .ok content => return ofContent path content

/-- The settings for a script: those of the file that is asked for, else those of the file beside
the script, else none. -/
def resolve (host : Host m) (explicit : Option String) (script : String) :
    m (Except Error Settings) := do
  match explicit with
  | some path => load host path
  | none =>
    let candidate := Path.join (Path.directory script) fileName
    match ← host.isDirectory candidate with
    | .ok _ => load host candidate
    | .error cause =>
      if cause.reason = .notFound then return .ok {}
      else return .error (.unreachable candidate cause)

end Settings

end Garnet

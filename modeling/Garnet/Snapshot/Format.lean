import Garnet.Snapshot.Binary
import Garnet.Snapshot.Text

/-! # Formats of snapshots

A snapshot can be written as a text for people or as bytes for programs.
-/

namespace Garnet.Snapshot

/-- How a snapshot is written. -/
inductive Format where
  | yaml
  | cbor
deriving DecidableEq, Repr

namespace Format

/-- The name of a format in settings and on the command line. -/
def name : Format → String
  | yaml => "yaml"
  | cbor => "cbor"

/-- The format with a name. -/
def ofName? (text : String) : Option Format :=
  [yaml, cbor].find? (·.name = text)

@[simp]
theorem ofName?_name (format : Format) : ofName? format.name = some format := by
  cases format <;> decide

end Format

/-- The bytes of a snapshot in a format. -/
def write (snapshot : Snapshot) : Format → List UInt8
  | .yaml => snapshot.render.toUTF8.toList
  | .cbor => snapshot.encode

end Garnet.Snapshot

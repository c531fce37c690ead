/-! # Settings files: lines and values

A settings file is a list of lines, each of which opens a table or gives a value to a key. This is
what is written; the tables that come of it are another matter.
-/

namespace Garnet.Toml

/-- A path of names. -/
abbrev Key := List String

/-- A value as it is written. -/
inductive Value where
  | text (content : String)
  | integer (value : Int)
  /-- A truth value, floating point number, date or time. -/
  | scalar
  | array (items : List Value)
  /-- A table in braces. -/
  | table (entries : List (Key × Value))

instance : Inhabited Value := ⟨.scalar⟩

/-- Whether a value is an array. -/
def Value.isArray : Value → Bool
  | .array _ => true
  | _ => false

/-- A line of a settings file. -/
inductive Line where
  /-- The header of a table. -/
  | table (key : Key)
  /-- The header of one of the tables under a name. -/
  | tables (key : Key)
  /-- A key with its value, below the latest header. -/
  | entry (key : Key) (value : Value)

end Garnet.Toml

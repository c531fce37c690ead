import Garnet.Toml.Value

/-! # Settings files: the tables of a document

The lines of a settings file build up tables. A name is bound once. The exception are tables that
have come about implicitly, because a longer key goes through them: they can be opened later on.
Each part of a dotted key opens its table anew, so an array in that place gives way.

Tables are numbered, since one table can be reached in two ways: below the top of the document, and
as part of the value of a table in braces.
-/

namespace Garnet.Toml

/-- The number of a table, in the order in which the tables of a document are made. -/
structure TableId where
  index : Nat
deriving DecidableEq, Repr, Inhabited

/-- What a name is bound to. Arrays are not looked into. -/
inductive Content where
  | text (content : String)
  | integer (value : Int)
  | scalar
  | array
  | table (id : TableId)
  /-- Tables under one name, in order. -/
  | tables (ids : List TableId)
deriving DecidableEq, Repr

/-- The table that a longer key goes through. Of tables under one name, the last is meant. -/
def Content.table? : Content → Option TableId
  | .table id => some id
  | .tables ids => ids.getLast?
  | _ => none

/-- The entries of a table. -/
abbrev Entries := List (String × Content)

/-- Replace the content of a name, or add it at the end. -/
def Entries.put (name : String) (content : Content) : Entries → Entries
  | [] => [(name, content)]
  | (other, old) :: rest =>
    if other = name then (name, content) :: rest else (other, old) :: put name content rest

/-- A settings file as far as it has been read. -/
structure Document where
  /-- All tables, the top of the document first. -/
  tables : Array Entries := #[[]]
  /-- Keys of tables that have come about implicitly. They may still be opened. -/
  implicit : List Key := []
  /-- The keys that were last given an array. -/
  arrays : List Key := []

namespace Document

/-! ### Tables by number -/

/-- The table that all others are below. -/
def top : TableId := ⟨0⟩

/-- The entries of a table. -/
def entries (document : Document) (id : TableId) : Entries :=
  document.tables.getD id.index []

/-- What a name is bound to in a table. -/
def get? (document : Document) (id : TableId) (name : String) : Option Content :=
  (document.entries id).lookup name

/-- Bind a name in a table, whatever was bound to it. -/
def put (document : Document) (id : TableId) (name : String) (content : Content) : Document :=
  { document with tables := document.tables.modify id.index (·.put name content) }

/-- Make an empty table. -/
def newTable (document : Document) : TableId × Document :=
  (⟨document.tables.size⟩, { document with tables := document.tables.push [] })

/-- The table at the end of a path from a table, if the path leads to one. -/
def tableAt? (document : Document) (id : TableId) : Key → Option TableId
  | [] => some id
  | name :: path => do document.tableAt? (← (← document.get? id name).table?) path

/-- Bind a name in the table at the end of a path from a table, whatever was bound to it. Tables
that are missing on the path are made. -/
def putAt (document : Document) (id : TableId) (name : String) (content : Content) :
    Key → Option Document
  | [] => some (document.put id name content)
  | first :: path =>
    match document.get? id first with
    | none =>
      let (inner, document) := document.newTable
      (document.put id first (.table inner)).putAt inner name content path
    | some (.table inner) => document.putAt inner name content path
    | some _ => none

/-! ### What may still be opened -/

/-- Mark a table as one that has come about implicitly. -/
def mark (document : Document) (key : Key) : Document :=
  { document with implicit := key :: document.implicit }

/-- Forget that a table has come about implicitly. -/
def unmark (document : Document) (key : Key) : Document :=
  { document with implicit := document.implicit.filter (· ≠ key) }

/-- The key that a name in the table at the end of a path stands for. The empty name stands for the
table itself. -/
def keyOf (path : Key) (name : String) : Key :=
  if name.isEmpty ∧ path ≠ [] then path else path ++ [name]

/-- Note whether a name was given an array. -/
def noteShape (document : Document) (path : Key) (name : String) (isArray : Bool) : Document :=
  let key := keyOf path name
  let others := document.arrays.filter (· ≠ key)
  { document with arrays := if isArray then key :: others else others }

/-! ### Tables by key -/

/-- Bind a name in the table at the end of a path. If it is bound already it must have come about
implicitly. It then keeps what it has, unless that is an array. -/
def bind (document : Document) (path : Key) (name : String) (content : Content) :
    Option Document := do
  let id ← document.tableAt? top path
  let key := path ++ [name]
  if (document.get? id name).isNone then some (document.put id name content)
  else if !document.implicit.contains key then none
  else if document.arrays.contains key then some ((document.unmark key).put id name content)
  else some (document.unmark key)

/-- Make the tables that are missing on a path, each of them implicitly, and yield the table at its
end. The path leads on from a table with a given key. -/
def ensure (document : Document) (id : TableId) (key : Key) : Key → Option (TableId × Document)
  | [] => some (id, document)
  | name :: path =>
    match document.get? id name with
    | none =>
      let (inner, document) := (document.mark (key ++ [name])).newTable
      (document.put id name (.table inner)).ensure inner (key ++ [name]) path
    | some content =>
      match content.table? with
      | some inner => document.ensure inner (key ++ [name]) path
      | none => none

/-- Open a table. -/
def openTable (document : Document) (key : Key) : Option Document := do
  let (_, document) ← document.ensure top [] key.dropLast
  let (id, document) := document.newTable
  document.bind key.dropLast (key.getLast?.getD "") (.table id)

/-- Add a table to those under one name. -/
def addTable (document : Document) (key : Key) : Option Document := do
  let name := key.getLast?.getD ""
  let (parent, document) ← document.ensure top [] key.dropLast
  let (id, document) := document.newTable
  match document.get? parent name with
  | none => some (document.put parent name (.tables [id]))
  | some (.tables ids) => some (document.put parent name (.tables (ids ++ [id])))
  | some _ => none

/-- Open the tables that a dotted key goes through, below a table that is open. They count as
implicit, also if they were opened before. -/
def openDotted (document : Document) (context : Key) : Key → Option Document
  | [] => some document
  | name :: rest => do
    let inner := context ++ [name]
    let document ← (document.mark inner).openTable inner
    document.openDotted inner rest

/-! ### Values

A table in braces is entered twice: its entries go below the key that it is given to, as those
below a header do, and they are collected in a table of their own. The latter is the value, which
counts where an array gives way to it.
-/

mutual

/-- Enter what a value brings with it, and yield its content. It is the value of a name in the table
at the end of a path, or an item of an array there. -/
def enter (document : Document) (path : Key) (name : String) (isItem : Bool) :
    Value → Option (Content × Document)
  | .text content => some (.text content, document)
  | .integer value => some (.integer value, document)
  | .scalar => some (.scalar, document)
  | .array items => do
    let document ← (document.noteShape path name true).enterItems path name items
    some (.array, document)
  | .table entries => do
    let key := path ++ [name]
    let document := document.mark key
    let document ← if isItem then document.addTable key else document.openTable key
    let (collection, document) := document.newTable
    let document ← document.enterEntries key collection entries
    some (.table collection, document)
termination_by structural value => value

/-- Enter the items of an array. -/
def enterItems (document : Document) (path : Key) (name : String) :
    List Value → Option Document
  | [] => some document
  | item :: rest => do
    let (_, document) ← document.enter path name true item
    document.enterItems path name rest
termination_by structural items => items

/-- Enter a key with its value below a table that is open, and yield the content. -/
def enterEntry (document : Document) (context : Key) : Key × Value → Option (Content × Document)
  | (key, value) => do
    let path := context ++ key.dropLast
    let name := key.getLast?.getD ""
    let document ← document.openDotted context key.dropLast
    let (content, document) ← document.enter path name false value
    let document ← document.bind path name content
    some (content, document.noteShape path name value.isArray)
termination_by structural entry => entry

/-- Enter the entries of a table in braces, and collect them. -/
def enterEntries (document : Document) (context : Key) (collection : TableId) :
    List (Key × Value) → Option Document
  | [] => some document
  | entry :: rest => do
    let (content, document) ← document.enterEntry context entry
    let document ←
      document.putAt collection (entry.1.getLast?.getD "") content entry.1.dropLast
    document.enterEntries context collection rest
termination_by structural entries => entries

end

/-! ### Lines -/

/-- Enter a line. The answer holds the key of the table that is open behind it. -/
def enterLine (document : Document) (context : Key) : Line → Option (Key × Document)
  | .table key => do
    let document ← document.openTable key
    some (key, document.noteShape key "" false)
  | .tables key => do
    let document ← document.addTable key
    some (key, document.noteShape key "" false)
  | .entry key value => do
    let (_, document) ← document.enterEntry context (key, value)
    some (context, document)

/-- The document that lines build up. -/
def ofLines? (lines : List Line) : Option Document := do
  let (_, document) ← lines.foldlM (fun (context, document) line => enterLine document context line)
    ([], {})
  some document

end Document

end Garnet.Toml

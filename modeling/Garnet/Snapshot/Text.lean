import Garnet.Snapshot.Basic
import Garnet.Sorted
import Garnet.Yaml.Block
import Garnet.Yaml.KeyOrder

/-! # Snapshots as text

A snapshot is written as a block document with named members. Members that may be left out are
left out when they are empty; the entries of tables are in the order of keys.
-/

namespace Garnet.Snapshot

open Yaml

/-- A table member, left out when it is empty. -/
def tableEntry (name : String) (table : Table String) : List (String × Document) :=
  if table.entries.isEmpty then []
  else
    let ordered := sortBy (fun a b => keyBefore a.1 b.1) table.entries
    [(name, .mapping (ordered.map fun (key, value) => (key, .text value)))]

/-- A list member, left out when it is empty. -/
def listEntry (name : String) (items : List Document) : List (String × Document) :=
  if items.isEmpty then [] else [(name, .sequence items)]

/-- The document of a method. -/
def MethodPart.document (part : MethodPart) : Document :=
  .mapping ([("name", .text part.name), ("kind", .text part.sort)] ++
    listEntry "params" (part.params.map .text))

/-- The document of a class. -/
def ClassPart.document (part : ClassPart) : Document :=
  .mapping ([("name", .text part.name)] ++
    (if part.superclass.isEmpty then [] else [("superclass", .text part.superclass)]) ++
    listEntry "methods" (part.methods.map MethodPart.document) ++
    tableEntry "constants" part.constants)

/-- The document of an object. -/
def ObjectPart.document (part : ObjectPart) : Document :=
  .mapping ([("class", .text part.className)] ++ tableEntry "ivars" part.ivars)

/-- The document of a frame. -/
def FramePart.document (part : FramePart) : Document :=
  .mapping ([("label", .text part.label), ("self", .text part.self)] ++
    tableEntry "locals" part.locals ++ [("result", .text part.result)])

/-- The document of a snapshot. -/
def document (snapshot : Snapshot) : Document :=
  .mapping [("classes", .sequence (snapshot.classes.map ClassPart.document)),
    ("main", snapshot.main.document),
    ("frames", .sequence (snapshot.frames.map FramePart.document)),
    ("result", .text snapshot.result)]

/-- The text of a snapshot. -/
def render (snapshot : Snapshot) : String :=
  snapshot.document.render

end Garnet.Snapshot

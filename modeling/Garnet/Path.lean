/-! # Paths

A path is a text with slashes between its steps. The functions here work on the text alone: they
never look at a file.
-/

namespace Garnet.Path

/-- The steps of a path; two slashes in a row have an empty step between them. -/
def steps (path : String) : List String :=
  path.splitOn "/"

/-- Whether a path begins at the root. -/
def isAbsolute (path : String) : Bool :=
  path.toList.head? == some '/'

/-- Take one more step from a reduced path, given backwards. Going up undoes a step; above the root
there is nothing, and above the start of a relative path the step is kept. -/
def reduceStep (rooted : Bool) (behind : List String) (step : String) : List String :=
  if step = "" ∨ step = "." then behind
  else if step = ".." then
    match behind with
    | [] => if rooted then [] else [".."]
    | last :: rest => if last = ".." then ".." :: behind else rest
  else step :: behind

/-- The shortest path that means the same. -/
def clean (path : String) : String :=
  let rooted := isAbsolute path
  let reduced := ((steps path).foldl (reduceStep rooted) []).reverse
  let body := "/".intercalate reduced
  if rooted then "/" ++ body else if reduced.isEmpty then "." else body

/-- Put two paths together. An empty one does not count. -/
def join (first second : String) : String :=
  if first.isEmpty then if second.isEmpty then "" else clean second
  else if second.isEmpty then clean first
  else clean (first ++ "/" ++ second)

/-- The directory that a path lies in. -/
def directory (path : String) : String :=
  match (steps path).reverse with
  | _ :: (outer :: more) => clean ("/".intercalate (outer :: more).reverse ++ "/")
  | _ => "."

/-- The extension of the last step, with its point. -/
def extension (path : String) : String :=
  let last := ((steps path).getLast?.getD "").toList
  let suffix := (last.reverse.takeWhile (· != '.')).reverse
  if suffix.length < last.length then String.ofList ('.' :: suffix) else ""

/-- The path from the root, given the directory that relative paths start from. -/
def absolute (workingDir path : String) : String :=
  if isAbsolute path then clean path else join workingDir path

end Garnet.Path

import Garnet.Interpreter
import Garnet.Text.Words

/-! # Completion of words

The last word of a line can be completed to a keyword, a local variable, or a method or constant of
the root class.
-/

namespace Garnet.Prompt

/-- What a word can be completed to. -/
def candidates (interp : Interpreter) : List String :=
  let root := interp.world.classRecord .objectClass
  ["class", "def", "end", "self", "nil"] ++ interp.current.locals.names ++ root.methods.names ++
    root.constants.names

/-- The candidates that begin with a word, each once. -/
def completions (interp : Interpreter) (word : List Char) : List String :=
  ((candidates interp).filter fun candidate => word.isPrefixOf candidate.toList).eraseDups

/-- A text without a given end, if it has that end. -/
def withoutEnd (text ending : List Char) : List Char :=
  if ending.isSuffixOf text then text.take (text.length - ending.length) else text

end Garnet.Prompt

import Garnet.Source.CodeFrame
import Garnet.Text.Quoted
import Garnet.Token.Basic

/-! # What can be wrong with a source text

The parser does not stop at a fault: it notes what it found and reads on. Each note has a cause
and a place; its wording is fixed here.
-/

namespace Garnet.Parse

/-- How a category of tokens is called in a message. -/
def kindLabel : Token.Kind → String
  | .illegal => "invalid token"
  | .eof => "end of input"
  | .ident => "identifier"
  | .constant => "constant"
  | .int => "integer"
  | .float => "float"
  | .string => "string"
  | .symbol => "symbol"
  | .ivar => "instance variable"
  | .keyword word => s!"'{word.text}'"
  | kind => Text.quote kind.name

/-- What the grammar asks for at a place. -/
inductive Expectation where
  | token (kind : Token.Kind)
  | methodName
  | closingParen
  | endWord
deriving DecidableEq, Repr

/-- How an expectation is called in a message. -/
def Expectation.label : Expectation → String
  | token kind => kindLabel kind
  | methodName => "method name"
  | closingParen => "')'"
  | endWord => "'end'"

/-- Why a place of a text is not in order. -/
inductive Cause where
  /-- Something else stands where the grammar asks for a particular thing. -/
  | expected (what : Expectation) (got : Token.Kind)
  /-- No expression begins with this token. -/
  | unexpected (got : Token.Kind)
  /-- The text there begins no token. -/
  | invalidToken (literal : String)
  /-- Two statements stand on one line without a semicolon. -/
  | missingSeparator
  /-- A numeral that is no 64-bit signed integer. -/
  | invalidInteger
  /-- A numeral that is no finite floating point number. -/
  | invalidFloat
deriving DecidableEq, Repr

/-- The wording of a cause. -/
def Cause.message : Cause → String
  | expected what got => s!"expected {what.label}, got {kindLabel got}"
  | unexpected got => s!"unexpected token {kindLabel got}"
  | invalidToken literal => s!"invalid token {Text.quote literal}"
  | missingSeparator => "expected newline or ';' between statements"
  | invalidInteger => "invalid integer literal"
  | invalidFloat => "invalid float literal"

/-- A fault of a source text. -/
structure Issue where
  pos : Pos
  cause : Cause
deriving DecidableEq, Repr

/-- A fault with its place and the line of the text it is in. -/
def Issue.render (source : String) (issue : Issue) : String :=
  let head := s!"parse error at {issue.pos.line}:{issue.pos.column}: {issue.cause.message}"
  match codeFrame source issue.pos with
  | some frame => s!"{head}\n{frame}"
  | none => head

end Garnet.Parse

namespace Garnet

/-- A source text that was not accepted, with everything that is wrong with it. -/
structure ParseError where
  source : String
  issues : List Parse.Issue
deriving DecidableEq, Repr

/-- The full text of a refusal, one fault after the other. -/
def ParseError.render (error : ParseError) : String :=
  "\n".intercalate (error.issues.map (·.render error.source))

end Garnet

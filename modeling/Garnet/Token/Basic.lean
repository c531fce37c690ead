import Garnet.Source.Pos

/-! # Tokens

A token is a lexical unit of the language with the text it stands for and the place where it
starts. Line ends are no tokens: the grammar reads them off the places.
-/

namespace Garnet

/-- The binary operators, which are message sends in another spelling. -/
inductive Operator where
  | add | sub | mul | div | rem | lt | gt | le | ge | eq | ne
deriving DecidableEq, Repr

namespace Operator

/-- The spelling of an operator, which is also the name of the message it sends. -/
def text : Operator → String
  | add => "+"
  | sub => "-"
  | mul => "*"
  | div => "/"
  | rem => "%"
  | lt => "<"
  | gt => ">"
  | le => "<="
  | ge => ">="
  | eq => "=="
  | ne => "!="

/-- How tightly an operator binds its operands. -/
def precedence : Operator → Nat
  | eq | ne => 1
  | lt | gt | le | ge => 2
  | add | sub => 3
  | mul | div | rem => 4

end Operator

/-- The reserved words. -/
inductive Keyword where
  | defWord | classWord | selfWord | endWord | trueWord | falseWord | nilWord
deriving DecidableEq, Repr

namespace Keyword

/-- The spelling of a reserved word. -/
def text : Keyword → String
  | defWord => "def"
  | classWord => "class"
  | selfWord => "self"
  | endWord => "end"
  | trueWord => "true"
  | falseWord => "false"
  | nilWord => "nil"

/-- The reserved word with a given spelling. -/
def ofText? (text : String) : Option Keyword :=
  [defWord, classWord, selfWord, endWord, trueWord, falseWord, nilWord].find? (·.text == text)

end Keyword

namespace Token

/-- The lexical category of a token. -/
inductive Kind where
  /-- Text that begins no token of the language. -/
  | illegal
  /-- The end of the text. -/
  | eof
  | ident
  | constant
  | int
  | float
  | string
  | symbol
  | ivar
  | keyword (word : Keyword)
  | op (operator : Operator)
  | assign
  | comma
  | semicolon
  | dot
  | scope
  | lparen
  | rparen
deriving DecidableEq, Repr

/-- How a category is called in a listing of tokens. -/
def Kind.name : Kind → String
  | illegal => "ILLEGAL"
  | eof => "EOF"
  | ident => "IDENT"
  | constant => "CONSTANT"
  | int => "INT"
  | float => "FLOAT"
  | string => "STRING"
  | symbol => "SYMBOL"
  | ivar => "IVAR"
  | keyword .defWord => "DEF"
  | keyword .classWord => "CLASS"
  | keyword .selfWord => "SELF"
  | keyword .endWord => "END"
  | keyword .trueWord => "TRUE"
  | keyword .falseWord => "FALSE"
  | keyword .nilWord => "NIL"
  | op operator => operator.text
  | assign => "="
  | comma => ","
  | semicolon => ";"
  | dot => "."
  | scope => "::"
  | lparen => "("
  | rparen => ")"

end Token

/-- A lexical unit: its category, the text it stands for and where it starts. -/
structure Token where
  kind : Token.Kind
  literal : String
  pos : Pos
deriving DecidableEq, Repr

namespace Token

/-- The tokens of a text. Reading past the last of them yields the end of the text, again and
again, so only its place is kept. -/
structure Stream where
  tokens : List Token
  endPos : Pos
deriving DecidableEq, Repr

/-- The token that marks the end of a text. -/
def eof (pos : Pos) : Token :=
  ⟨.eof, "", pos⟩

/-- The tokens of a stream with one end marker. -/
def Stream.listing (stream : Stream) : List Token :=
  stream.tokens ++ [eof stream.endPos]

end Token

end Garnet

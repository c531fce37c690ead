import Garnet.Parse.Issue
import Garnet.Tree.Basic

/-! # The state of the parser

The parser stands on one token and sees the next. It knows which local names have been assigned in
the scope it is in, and keeps the faults found so far.
-/

namespace Garnet.Parse

/-- Where the parser stands. -/
structure State where
  /-- The tokens from the current one on. -/
  tokens : List Token
  /-- Where the text ends. -/
  endPos : Pos
  /-- The local names known in the current scope. -/
  scope : List String
  /-- The faults found so far, in the order in which they were found. -/
  issues : Array Issue
deriving Repr

namespace State

/-- The token the parser stands on. -/
def current (s : State) : Token :=
  s.tokens.headD (.eof s.endPos)

/-- The token after the current one. -/
def peek (s : State) : Token :=
  s.tokens.tail.headD (.eof s.endPos)

end State

/-- A step of the parser. -/
abbrev Parser := StateM State

/-- The token the parser stands on. -/
def current : Parser Token :=
  return (← get).current

/-- The token after the current one. -/
def peek : Parser Token :=
  return (← get).peek

/-- Go to the next token. At the end of the text this changes nothing. -/
def advance : Parser Unit :=
  modify fun s => { s with tokens := s.tokens.tail }

/-- Note a fault. -/
def report (pos : Pos) (cause : Cause) : Parser Unit :=
  modify fun s => { s with issues := s.issues.push ⟨pos, cause⟩ }

/-- Note that a token is not what the grammar asks for. -/
def reportExpected (token : Token) (what : Expectation) : Parser Unit :=
  report token.pos (.expected what token.kind)

/-- Note that no expression begins with the current token. -/
def reportUnexpected : Parser Unit := do
  let token ← current
  report token.pos <|
    if token.kind = .illegal then .invalidToken token.literal else .unexpected token.kind

/-- Go to the next token if it is of the given kind, and note a fault otherwise. -/
def expectNext (kind : Token.Kind) : Parser Bool := do
  let token ← peek
  if token.kind = kind then
    advance
    return true
  else
    reportExpected token (.token kind)
    return false

/-- Make a local name known in the current scope. -/
def declare (name : String) : Parser Unit :=
  modify fun s => { s with scope := name :: s.scope }

/-- Whether a local name is known in the current scope. -/
def isDeclared (name : String) : Parser Bool :=
  return (← get).scope.contains name

/-- Run a step in a scope of its own. What is declared there is forgotten afterwards, and nothing
declared outside is visible inside. -/
def inScope {α : Type} (names : List String) (step : Parser α) : Parser α := do
  let outer := (← get).scope
  modify fun s => { s with scope := names }
  let result ← step
  modify fun s => { s with scope := outer }
  return result

end Garnet.Parse

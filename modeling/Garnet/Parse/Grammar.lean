import Garnet.Number.Binary64
import Garnet.Parse.State

/-! # The grammar

Statements are separated by line ends or semicolons. An expression is a primary followed by
operators, member accesses and scope resolutions, as far as their precedence allows; a line end
stops it unless a member access begins the next line.

Every rule of the grammar is a function of a number that bounds the nesting of rules. The bound is
computed from the number of tokens so that no text reaches it.
-/

namespace Garnet.Parse

/-! ### Facts about single tokens -/

/-- How tightly the token after an expression binds it. Tokens that do not continue an expression
have precedence zero. -/
def precedence : Token.Kind → Nat
  | .op operator => operator.precedence
  | .dot | .scope => 5
  | _ => 0

/-- Whether a token begins an expression. -/
def beginsExpression : Token.Kind → Bool
  | .ident | .constant | .int | .float | .string | .symbol | .ivar | .lparen => true
  | .keyword word => word != .defWord && word != .classWord && word != .endWord
  | _ => false

/-- Whether a token on the same line as a method name begins an argument without parentheses. -/
def beginsArgument : Token.Kind → Bool
  | .lparen => false
  | kind => beginsExpression kind

/-- Whether a token can name a method after a dot or `def`. -/
def namesMethod : Token.Kind → Bool
  | .ident | .constant | .keyword _ => true
  | _ => false

/-- Whether two tokens start on the same line. -/
def sameLine (first second : Token) : Bool :=
  first.pos.line == second.pos.line

/-- Whether an argument list in parentheses follows the current token. -/
def opensArguments : Parser Bool :=
  return (← peek).kind = .lparen && sameLine (← current) (← peek)

/-- Whether an argument list without parentheses follows the current token. -/
def startsArguments : Parser Bool :=
  return beginsArgument (← peek).kind && sameLine (← current) (← peek)

/-! ### Nodes -/

/-- A message send. -/
def sendNode (pos : Pos) (receiver : Option Node) (name : String) (args : List (Option Node)) :
    Node :=
  .mk .send (Child.ofNode? receiver :: .sym name :: args.map Child.ofNode?) pos

/-- The body made of a list of statements: nothing, the only statement, or their sequence. -/
def wrapBody : List Node → Option Node
  | [] => none
  | [statement] => some statement
  | first :: rest => some (.mk .begin ((first :: rest).map .node) first.pos)

/-! ### Literals -/

/-- The largest integer literal. -/
def maxInteger : Nat := 0x7FFFFFFFFFFFFFFF

/-- The integer that a literal denotes. -/
def integerLiteral? (literal : String) : Option Int :=
  match Binary64.natural? literal.toList with
  | some n => if n ≤ maxInteger then some (Int.ofNat n) else none
  | none => none

/-- Note a fault if a literal denotes nothing, and make a leaf of it otherwise. -/
def literalNode {α : Type} (kind : Node.Kind) (child : α → Child) (value : Option α)
    (otherwise : Cause) : Parser (Option Node) := do
  let pos := (← current).pos
  match value with
  | some value => return some (.mk kind [child value] pos)
  | none =>
    report pos otherwise
    return none

/-! ### Parameters and class paths -/

/-- The names of parameters, from the token after the current one on. -/
def paramNames : Nat → Parser (Option (List Node))
  | 0 => do
    reportUnexpected
    return none
  | depth + 1 => do
    if !(← expectNext .ident) then return none
    let token ← current
    let param : Node := .mk .param [.sym token.literal] token.pos
    if (← peek).kind ≠ .comma then return some [param]
    advance
    let rest ← paramNames depth
    return rest.map (param :: ·)

/-- The parameter list after the name of a method. The parser is left on its last token. -/
def params (depth : Nat) : Parser (Option (List Node)) := do
  let next ← peek
  let close := sameLine (← current) next
  if next.kind = .lparen && close then
    advance
    if (← peek).kind = .rparen then
      advance
      return some []
    let names ← paramNames depth
    if names.isNone then return none
    if ← expectNext .rparen then return names
    return none
  else if next.kind = .ident && close then
    paramNames depth
  else
    return some []

/-- The further segments of the path that names a class. -/
def classPath : Nat → Node → Parser (Option Node)
  | 0, _ => do
    reportUnexpected
    return none
  | depth + 1, outer => do
    if (← peek).kind ≠ .scope then return some outer
    advance
    if !(← expectNext .constant) then return none
    let token ← current
    classPath depth (.mk .const [.node outer, .sym token.literal] token.pos)

/-- The names that a list of parameters declares. -/
def declaredNames (params : List Node) : List String :=
  params.filterMap fun param => param.symbolAt? 0

/-! ### Statements and expressions -/

mutual

/-- Statements up to the end of the text or a token of the kind `stop`, on which the parser is
left. `previous` is the line on which the statement before ended, if no semicolon came since. -/
def statements (stop : Option Token.Kind) : Nat → Option Int → Parser (List Node)
  | 0, _ => do
    reportUnexpected
    return []
  | depth + 1, previous => do
    let token ← current
    if token.kind = .semicolon then
      advance
      statements stop depth none
    else if token.kind = .eof || some token.kind = stop then
      return []
    else
      if previous = some token.pos.line then report token.pos .missingSeparator
      let statement ← statement depth
      let line := (← current).pos.line
      advance
      let rest ← statements stop depth (some line)
      return statement.toList ++ rest

/-- A class or method definition, or an expression. -/
def statement : Nat → Parser (Option Node)
  | 0 => do
    reportUnexpected
    return none
  | depth + 1 => do
    match (← current).kind with
    | .keyword .classWord => classStatement depth
    | .keyword .defWord => defStatement depth
    | _ => expression depth 0

/-- A class definition, from its first word on. -/
def classStatement : Nat → Parser (Option Node)
  | 0 => do
    reportUnexpected
    return none
  | depth + 1 => do
    let pos := (← current).pos
    if !(← expectNext .constant) then return none
    let first ← current
    let some path ← classPath depth (.mk .const [.absent, .sym first.literal] first.pos)
      | return none
    let superclass ←
      if (← peek).kind = .op .lt then do
        advance
        advance
        expression depth 0
      else pure none
    advance
    let body ← inScope [] (statements (some (.keyword .endWord)) depth none)
    let last ← current
    if last.kind ≠ .keyword .endWord then
      reportExpected last .endWord
      return none
    return some (.mk .classDef
      [.node path, Child.ofNode? superclass, Child.ofNode? (wrapBody body)] pos)

/-- A method definition, from its first word on. -/
def defStatement : Nat → Parser (Option Node)
  | 0 => do
    reportUnexpected
    return none
  | depth + 1 => do
    let pos := (← current).pos
    advance
    let singleton ←
      if (← current).kind = .keyword .selfWord && (← peek).kind = .dot then do
        let owner : Node := .mk .selfRef [] (← current).pos
        advance
        advance
        pure (some owner)
      else pure none
    let token ← current
    if !namesMethod token.kind then
      reportExpected token .methodName
      return none
    let setter := (← peek).kind = .assign && sameLine token (← peek)
    let name := if setter then token.literal ++ "=" else token.literal
    if setter then advance
    let paramsPos := (← peek).pos
    let some parameters ← params depth | return none
    advance
    let body ← inScope (declaredNames parameters)
      (statements (some (.keyword .endWord)) depth none)
    let last ← current
    if last.kind ≠ .keyword .endWord then
      reportExpected last .endWord
      return none
    let parts : List Child :=
      [.sym name, .node (.mk .params (parameters.map .node) paramsPos),
        Child.ofNode? (wrapBody body)]
    return some <| match singleton with
      | some owner => .mk .singletonDef (.node owner :: parts) pos
      | none => .mk .methodDef parts pos

/-- An expression whose operators bind tighter than `least`. -/
def expression : Nat → Nat → Parser (Option Node)
  | 0, _ => do
    reportUnexpected
    return none
  | depth + 1, least => do
    if beginsExpression (← current).kind then
      let left ← primary depth
      continuation depth least left
    else
      reportUnexpected
      return none

/-- What follows an expression that has been read up to the current token. -/
def continuation : Nat → Nat → Option Node → Parser (Option Node)
  | 0, _, _ => do
    reportUnexpected
    return none
  | depth + 1, least, left => do
    let next ← peek
    if precedence next.kind ≤ least then return left
    if !sameLine (← current) next && next.kind ≠ .dot then return left
    advance
    let left ← match next.kind with
      | .op operator => do
        advance
        let right ← expression depth operator.precedence
        pure (some (sendNode next.pos left operator.text [right]))
      | .dot => member depth left
      | _ => do
        if ← expectNext .constant then
          let name := (← current).literal
          pure (some (.mk .const [Child.ofNode? left, .sym name] next.pos))
        else pure none
    continuation depth least left

/-- A member access, from the dot on. -/
def member : Nat → Option Node → Parser (Option Node)
  | 0, _ => do
    reportUnexpected
    return none
  | depth + 1, receiver => do
    advance
    let token ← current
    if !namesMethod token.kind then
      reportExpected token .methodName
      return none
    if (← peek).kind = .assign then
      advance
      advance
      let value ← expression depth 0
      return some (sendNode token.pos receiver (token.literal ++ "=") [value])
    let args ← callArguments depth
    return some (sendNode token.pos receiver token.literal args)

/-- The operand at the front of an expression. -/
def primary : Nat → Parser (Option Node)
  | 0 => do
    reportUnexpected
    return none
  | depth + 1 => do
    let token ← current
    let leaf (kind : Node.Kind) (children : List Child) : Option Node :=
      some (.mk kind children token.pos)
    let assigns := (← peek).kind = .assign
    let assigned : Parser (Option Node) := do
      advance
      advance
      expression depth 0
    match token.kind with
    | .ident =>
      let name := token.literal
      if assigns then
        let value ← assigned
        declare name
        return leaf .localAssign [.sym name, Child.ofNode? value]
      if (← isDeclared name) && !(← opensArguments) then
        return leaf .localRef [.sym name]
      let args ← callArguments depth
      return some (sendNode token.pos none name args)
    | .constant =>
      if assigns then
        let value ← assigned
        return leaf .constAssign [.absent, .sym token.literal, Child.ofNode? value]
      return leaf .const [.absent, .sym token.literal]
    | .ivar =>
      if assigns then
        let value ← assigned
        return leaf .ivarAssign [.sym token.literal, Child.ofNode? value]
      return leaf .ivarRef [.sym token.literal]
    | .int => literalNode .int .int (integerLiteral? token.literal) .invalidInteger
    | .float => literalNode .float .float (Binary64.ofText? token.literal) .invalidFloat
    | .string => return leaf .str [.str token.literal]
    | .symbol => return leaf .sym [.sym token.literal]
    | .keyword .trueWord => return leaf .trueRef []
    | .keyword .falseWord => return leaf .falseRef []
    | .keyword .selfWord => return leaf .selfRef []
    | .keyword .nilWord => return leaf .nilRef []
    | .lparen =>
      advance
      let inner ← statements (some .rparen) depth none
      let last ← current
      if last.kind ≠ .rparen then
        reportExpected last .closingParen
        return none
      return leaf .begin (inner.map .node)
    | _ =>
      reportUnexpected
      return none

/-- The arguments after the name of a method, with parentheses or without. -/
def callArguments : Nat → Parser (List (Option Node))
  | 0 => do
    reportUnexpected
    return []
  | depth + 1 => do
    if ← opensArguments then
      advance
      advance
      if (← current).kind = .rparen then return []
      let args ← argumentList depth
      let _ ← expectNext .rparen
      return args
    else if ← startsArguments then
      advance
      argumentList depth
    else
      return []

/-- Expressions separated by commas. -/
def argumentList : Nat → Parser (List (Option Node))
  | 0 => do
    reportUnexpected
    return []
  | depth + 1 => do
    let first ← expression depth 0
    if (← peek).kind = .comma then
      advance
      advance
      let rest ← argumentList depth
      return first :: rest
    else
      return [first]

end

end Garnet.Parse

import Garnet.Parse

/-! # The grammar as a relation

The parser reads on after a fault. What it does on texts without faults is written down here as a
relation between what a rule of the grammar finds and the states before and after it. The relation
has no bound on the nesting of rules and no faults; that the parser accepts exactly what is derived
is proved in the modules on soundness and completeness.
-/

namespace Garnet.Parse

namespace State

/-- The parser one token further on. -/
def next (s : State) : State :=
  { s with tokens := s.tokens.tail }

/-- The parser with one more local name known. -/
def declaring (s : State) (name : String) : State :=
  { s with scope := name :: s.scope }

/-- The parser in another scope. -/
def within (s : State) (names : List String) : State :=
  { s with scope := names }

/-- Whether the next token starts on the line of the current one. -/
def nextIsClose (s : State) : Bool :=
  sameLine s.current s.peek

/-- Whether an argument list in parentheses follows the current token. -/
def opensArguments (s : State) : Bool :=
  s.peek.kind = .lparen && s.nextIsClose

/-- Whether an argument list without parentheses follows the current token. -/
def startsArguments (s : State) : Bool :=
  beginsArgument s.peek.kind && s.nextIsClose

/-- Whether the next token belongs to the expression that ends on the current one, if operators
have to bind tighter than `least`. -/
def continues (s : State) (least : Nat) : Bool :=
  least < precedence s.peek.kind && (s.nextIsClose || s.peek.kind = .dot)

/-- Whether the next token makes the current one the name of a setter. -/
def namesSetter (s : State) : Bool :=
  s.peek.kind = .assign && s.nextIsClose

@[simp] theorem next_scope (s : State) : s.next.scope = s.scope := rfl

@[simp] theorem next_issues (s : State) : s.next.issues = s.issues := rfl

@[simp] theorem next_tokens (s : State) : s.next.tokens = s.tokens.tail := rfl

@[simp] theorem within_scope (s : State) (names : List String) :
    (s.within names).scope = names := rfl

@[simp] theorem within_tokens (s : State) (names : List String) :
    (s.within names).tokens = s.tokens := rfl

@[simp] theorem within_issues (s : State) (names : List String) :
    (s.within names).issues = s.issues := rfl

@[simp] theorem declaring_scope (s : State) (name : String) :
    (s.declaring name).scope = name :: s.scope := rfl

@[simp] theorem declaring_tokens (s : State) (name : String) :
    (s.declaring name).tokens = s.tokens := rfl

@[simp] theorem declaring_issues (s : State) (name : String) :
    (s.declaring name).issues = s.issues := rfl

/-- The token after the current one is the one the parser stands on after a step. -/
theorem current_next (s : State) : s.next.current = s.peek := rfl

theorem continues_iff {s : State} {least : Nat} : s.continues least = true ↔
    least < precedence s.peek.kind ∧ (s.nextIsClose = true ∨ s.peek.kind = .dot) := by
  simp [continues]

end State

/-- The leaf that a token alone makes, if it makes one. -/
def leaf? (token : Token) : Option Node :=
  match token.kind with
  | .int => (integerLiteral? token.literal).map fun value => .mk .int [.int value] token.pos
  | .float => (Binary64.ofText? token.literal).map fun value => .mk .float [.float value] token.pos
  | .string => some (.mk .str [.str token.literal] token.pos)
  | .symbol => some (.mk .sym [.sym token.literal] token.pos)
  | .keyword .trueWord => some (.mk .trueRef [] token.pos)
  | .keyword .falseWord => some (.mk .falseRef [] token.pos)
  | .keyword .selfWord => some (.mk .selfRef [] token.pos)
  | .keyword .nilWord => some (.mk .nilRef [] token.pos)
  | _ => none

/-- The node of a method definition, of the class itself or of its instances. -/
def defNode (pos : Pos) (owner : Option Node) (parts : List Child) : Node :=
  match owner with
  | some owner => .mk .singletonDef (.node owner :: parts) pos
  | none => .mk .methodDef parts pos

/-- What a rule of the grammar is asked for and what it finds. -/
inductive Phrase where
  | statements (stop : Option Token.Kind) (previous : Option Int) (found : List Node)
  | statement (found : Node)
  | classStatement (found : Node)
  | classPath (outer found : Node)
  | superclass (found : Option Node)
  | defStatement (found : Node)
  | owner (found : Option Node)
  | methodName (found : String)
  | params (found : List Node)
  | paramNames (found : List Node)
  | expression (least : Nat) (found : Node)
  | continuation (least : Nat) (left found : Node)
  | member (receiver found : Node)
  | primary (found : Node)
  | callArguments (found : List Node)
  | argumentList (found : List Node)

/-- `Derives phrase s t`: the grammar reads a phrase from the state `s` and ends in `t`. Except for
lists of statements, the parser is left on the last token of the phrase. -/
inductive Derives : Phrase → State → State → Prop
  | noStatement {stop previous s} (hkind : s.current.kind ≠ .semicolon)
      (hend : s.current.kind = .eof ∨ some s.current.kind = stop) :
      Derives (.statements stop previous []) s s
  | semicolon {stop previous nodes s t} (hkind : s.current.kind = .semicolon)
      (rest : Derives (.statements stop none nodes) s.next t) :
      Derives (.statements stop previous nodes) s t
  | nextStatement {stop previous node nodes s t u} (hkind : s.current.kind ≠ .semicolon)
      (heof : s.current.kind ≠ .eof) (hstop : some s.current.kind ≠ stop)
      (hline : previous ≠ some s.current.pos.line)
      (first : Derives (.statement node) s t)
      (rest : Derives (.statements stop (some t.current.pos.line) nodes) t.next u) :
      Derives (.statements stop previous (node :: nodes)) s u
  | classStatement {node s t} (hkind : s.current.kind = .keyword .classWord)
      (inner : Derives (.classStatement node) s t) :
      Derives (.statement node) s t
  | defStatement {node s t} (hkind : s.current.kind = .keyword .defWord)
      (inner : Derives (.defStatement node) s t) :
      Derives (.statement node) s t
  | simple {node s t} (hclass : s.current.kind ≠ .keyword .classWord)
      (hdef : s.current.kind ≠ .keyword .defWord) (inner : Derives (.expression 0 node) s t) :
      Derives (.statement node) s t
  | classDef {path parent body s t u v} (hname : s.peek.kind = .constant)
      (steps : Derives
        (.classPath (.mk .const [.absent, .sym s.peek.literal] s.peek.pos) path) s.next t)
      (above : Derives (.superclass parent) t u)
      (inner : Derives (.statements (some (.keyword .endWord)) none body) (u.next.within []) v)
      (hend : v.current.kind = .keyword .endWord) :
      Derives (.classStatement (.mk .classDef
        [.node path, Child.ofNode? parent, Child.ofNode? (wrapBody body)] s.current.pos))
        s (v.within u.scope)
  | pathEnd {outer s} (hkind : s.peek.kind ≠ .scope) :
      Derives (.classPath outer outer) s s
  | pathStep {outer path s t} (hkind : s.peek.kind = .scope)
      (hname : s.next.peek.kind = .constant)
      (steps : Derives (.classPath
        (.mk .const [.node outer, .sym s.next.peek.literal] s.next.peek.pos) path) s.next.next t) :
      Derives (.classPath outer path) s t
  | noSuperclass {s} (hkind : s.peek.kind ≠ .op .lt) :
      Derives (.superclass none) s s
  | superclass {node s t} (hkind : s.peek.kind = .op .lt)
      (inner : Derives (.expression 0 node) s.next.next t) :
      Derives (.superclass (some node)) s t
  | methodDef {singleton name parameters body s t u v w}
      (front : Derives (.owner singleton) s.next t)
      (named : Derives (.methodName name) t u)
      (listed : Derives (.params parameters) u v)
      (inner : Derives (.statements (some (.keyword .endWord)) none body)
        (v.next.within (declaredNames parameters)) w)
      (hend : w.current.kind = .keyword .endWord) :
      Derives (.defStatement (defNode s.current.pos singleton
        [.sym name, .node (.mk .params (parameters.map .node) u.peek.pos),
          Child.ofNode? (wrapBody body)])) s (w.within v.scope)
  | noOwner {s} (hkind : ¬ (s.current.kind = .keyword .selfWord ∧ s.peek.kind = .dot)) :
      Derives (.owner none) s s
  | selfOwner {s} (hself : s.current.kind = .keyword .selfWord) (hdot : s.peek.kind = .dot) :
      Derives (.owner (some (.mk .selfRef [] s.current.pos))) s s.next.next
  | plainName {s} (hname : namesMethod s.current.kind = true) (hsetter : s.namesSetter = false) :
      Derives (.methodName s.current.literal) s s
  | setterName {s} (hname : namesMethod s.current.kind = true) (hsetter : s.namesSetter = true) :
      Derives (.methodName (s.current.literal ++ "=")) s s.next
  | noParams {s} (hparen : s.opensArguments = false)
      (hname : s.peek.kind ≠ .ident ∨ s.nextIsClose = false) :
      Derives (.params []) s s
  | emptyParams {s} (hparen : s.opensArguments = true) (hclose : s.next.peek.kind = .rparen) :
      Derives (.params []) s s.next.next
  | closedParams {nodes s t} (hparen : s.opensArguments = true)
      (hopen : s.next.peek.kind ≠ .rparen) (names : Derives (.paramNames nodes) s.next t)
      (hclose : t.peek.kind = .rparen) :
      Derives (.params nodes) s t.next
  | openParams {nodes s t} (hparen : s.opensArguments = false) (hname : s.peek.kind = .ident)
      (hclose : s.nextIsClose = true) (names : Derives (.paramNames nodes) s t) :
      Derives (.params nodes) s t
  | lastParam {s} (hname : s.peek.kind = .ident) (hcomma : s.next.peek.kind ≠ .comma) :
      Derives (.paramNames [.mk .param [.sym s.peek.literal] s.peek.pos]) s s.next
  | nextParam {nodes s t} (hname : s.peek.kind = .ident) (hcomma : s.next.peek.kind = .comma)
      (rest : Derives (.paramNames nodes) s.next.next t) :
      Derives (.paramNames (.mk .param [.sym s.peek.literal] s.peek.pos :: nodes)) s t
  | expression {least left node s t u} (hkind : beginsExpression s.current.kind = true)
      (first : Derives (.primary left) s t) (rest : Derives (.continuation least left node) t u) :
      Derives (.expression least node) s u
  | done {least left s} (hstop : s.continues least = false) :
      Derives (.continuation least left left) s s
  | operation {least operator left right node s t u} (hgo : s.continues least = true)
      (hkind : s.peek.kind = .op operator)
      (operand : Derives (.expression operator.precedence right) s.next.next t)
      (rest : Derives (.continuation least
        (sendNode s.peek.pos (some left) operator.text [some right]) node) t u) :
      Derives (.continuation least left node) s u
  | access {least left inner node s t u} (hgo : s.continues least = true)
      (hkind : s.peek.kind = .dot)
      (named : Derives (.member left inner) s.next t)
      (rest : Derives (.continuation least inner node) t u) :
      Derives (.continuation least left node) s u
  | resolution {least left node s t} (hgo : s.continues least = true)
      (hkind : s.peek.kind = .scope) (hname : s.next.peek.kind = .constant)
      (rest : Derives (.continuation least
        (.mk .const [.node left, .sym s.next.peek.literal] s.peek.pos) node) s.next.next t) :
      Derives (.continuation least left node) s t
  | memberAssign {receiver value s t} (hname : namesMethod s.peek.kind = true)
      (hassign : s.next.peek.kind = .assign)
      (inner : Derives (.expression 0 value) s.next.next.next t) :
      Derives (.member receiver
        (sendNode s.peek.pos (some receiver) (s.peek.literal ++ "=") [some value])) s t
  | memberCall {receiver args s t} (hname : namesMethod s.peek.kind = true)
      (hassign : s.next.peek.kind ≠ .assign) (inner : Derives (.callArguments args) s.next t) :
      Derives (.member receiver
        (sendNode s.peek.pos (some receiver) s.peek.literal (args.map some))) s t
  | leaf {node s} (hleaf : leaf? s.current = some node) :
      Derives (.primary node) s s
  | localAssign {value s t} (hkind : s.current.kind = .ident) (hassign : s.peek.kind = .assign)
      (inner : Derives (.expression 0 value) s.next.next t) :
      Derives (.primary (.mk .localAssign [.sym s.current.literal, .node value] s.current.pos))
        s (t.declaring s.current.literal)
  | localRef {s} (hkind : s.current.kind = .ident) (hassign : s.peek.kind ≠ .assign)
      (hknown : s.current.literal ∈ s.scope) (hparen : s.opensArguments = false) :
      Derives (.primary (.mk .localRef [.sym s.current.literal] s.current.pos)) s s
  | call {args s t} (hkind : s.current.kind = .ident) (hassign : s.peek.kind ≠ .assign)
      (hcall : s.current.literal ∉ s.scope ∨ s.opensArguments = true)
      (inner : Derives (.callArguments args) s t) :
      Derives (.primary (sendNode s.current.pos none s.current.literal (args.map some))) s t
  | constAssign {value s t} (hkind : s.current.kind = .constant) (hassign : s.peek.kind = .assign)
      (inner : Derives (.expression 0 value) s.next.next t) :
      Derives (.primary
        (.mk .constAssign [.absent, .sym s.current.literal, .node value] s.current.pos)) s t
  | const {s} (hkind : s.current.kind = .constant) (hassign : s.peek.kind ≠ .assign) :
      Derives (.primary (.mk .const [.absent, .sym s.current.literal] s.current.pos)) s s
  | ivarAssign {value s t} (hkind : s.current.kind = .ivar) (hassign : s.peek.kind = .assign)
      (inner : Derives (.expression 0 value) s.next.next t) :
      Derives (.primary (.mk .ivarAssign [.sym s.current.literal, .node value] s.current.pos)) s t
  | ivarRef {s} (hkind : s.current.kind = .ivar) (hassign : s.peek.kind ≠ .assign) :
      Derives (.primary (.mk .ivarRef [.sym s.current.literal] s.current.pos)) s s
  | group {nodes s t} (hkind : s.current.kind = .lparen)
      (inner : Derives (.statements (some .rparen) none nodes) s.next t)
      (hclose : t.current.kind = .rparen) :
      Derives (.primary (.mk .begin (nodes.map .node) s.current.pos)) s t
  | noArguments {s} (hparen : s.opensArguments = false) (hstart : s.startsArguments = false) :
      Derives (.callArguments []) s s
  | emptyArguments {s} (hparen : s.opensArguments = true)
      (hclose : s.next.peek.kind = .rparen) :
      Derives (.callArguments []) s s.next.next
  | closedArguments {args s t} (hparen : s.opensArguments = true)
      (hopen : s.next.peek.kind ≠ .rparen)
      (inner : Derives (.argumentList args) s.next.next t) (hclose : t.peek.kind = .rparen) :
      Derives (.callArguments args) s t.next
  | openArguments {args s t} (hparen : s.opensArguments = false)
      (hstart : s.startsArguments = true) (inner : Derives (.argumentList args) s.next t) :
      Derives (.callArguments args) s t
  | lastArgument {node s t} (inner : Derives (.expression 0 node) s t)
      (hcomma : t.peek.kind ≠ .comma) :
      Derives (.argumentList [node]) s t
  | nextArgument {node nodes s t u} (inner : Derives (.expression 0 node) s t)
      (hcomma : t.peek.kind = .comma) (rest : Derives (.argumentList nodes) t.next.next u) :
      Derives (.argumentList (node :: nodes)) s u

end Garnet.Parse

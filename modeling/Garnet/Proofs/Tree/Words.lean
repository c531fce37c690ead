import Garnet.Proofs.Parse.Derivation
import Garnet.Proofs.Token.Spelling

/-! # The words of a tree

A tree can be read back as a line of words, from left to right: a leaf or a name gives one word, and
definitions begin and end with reserved words. Brackets, separators and equals signs are not among
them, because the shape of the tree stands for them.
-/

namespace Garnet

/-- Tokens that only group or separate what stands around them. -/
def Token.Kind.isPunctuation : Token.Kind → Bool
  | .lparen | .rparen | .comma | .semicolon | .dot | .scope | .assign | .eof => true
  | _ => false

/-- A word of a program. Of a number only the value is known. -/
inductive Word where
  | token (kind : Token.Kind) (literal : String)
  | int (value : Int)
  | float (value : Binary64)
deriving DecidableEq

namespace Word

/-- Whether a token is a given word. -/
def Matches : Word → Token → Prop
  | .token kind literal, found => found.kind = kind ∧ found.literal = literal
  | .int value, found => found.kind = .int ∧ Parse.integerLiteral? found.literal = some value
  | .float value, found => found.kind = .float ∧ Binary64.ofText? found.literal = some value

/-- A reserved word. -/
def keyword (word : Keyword) : Word :=
  .token (.keyword word) word.text

/-- An operator. -/
def operator (operator : Operator) : Word :=
  .token (.op operator) operator.text

/-- A name, whose category is that of its spelling. -/
def name (text : String) : Word :=
  .token (Token.nameKind text) text

/-- A name without the equals sign that it may end in. -/
def withoutEquals (text : String) : String :=
  if text.toList.getLast? = some '=' then String.ofList text.toList.dropLast else text

/-- What stands for the name of a message: an operator, or a name, which has no equals sign of its
own if the message assigns. -/
def message (text : String) : Word :=
  match Operator.ofText? text with
  | some found => operator found
  | none => name (withoutEquals text)

theorem message_operator (found : Operator) : message found.text = operator found := by
  rw [message, Operator.ofText?_text]

theorem message_name {text : String} (h : Token.IsName text) : message text = name text := by
  have hnone : Operator.ofText? text = none := by
    have happend := h.ofText?_append ""
    rwa [String.append_empty] at happend
  have hlast : text.toList.getLast? ≠ some '=' := by
    intro hlast
    exact h.not_mem (by decide) (by decide) (List.mem_of_getLast? hlast)
  rw [message, hnone]
  dsimp only
  rw [withoutEquals, if_neg hlast]

theorem message_setter {text : String} (h : Token.IsName text) :
    message (text ++ "=") = name text := by
  have hlist : (text ++ "=").toList = text.toList ++ ['='] := String.toList_append
  rw [message, h.ofText?_append "="]
  dsimp only
  rw [withoutEquals, hlist, List.getLast?_concat, if_pos rfl, List.dropLast_concat,
    String.ofList_toList]

end Word

/-- The words in front of the parts of a node. -/
@[simp] def Node.Kind.opening : Node.Kind → List Word
  | .classDef => [.keyword .classWord]
  | .methodDef | .singletonDef => [.keyword .defWord]
  | .selfRef => [.keyword .selfWord]
  | .nilRef => [.keyword .nilWord]
  | .trueRef => [.keyword .trueWord]
  | .falseRef => [.keyword .falseWord]
  | _ => []

/-- The words behind the parts of a node. -/
@[simp] def Node.Kind.closing : Node.Kind → List Word
  | .classDef | .methodDef | .singletonDef => [.keyword .endWord]
  | _ => []

/-- The word for a name that is a part of a node. -/
@[simp] def Node.Kind.nameWord (kind : Node.Kind) (text : String) : Word :=
  match kind with
  | .localAssign | .localRef | .param => .token .ident text
  | .ivarAssign | .ivarRef => .token .ivar text
  | .const | .constAssign => .token .constant text
  | .sym => .token .symbol text
  | _ => .message text

mutual

/-- The words of a tree, from left to right. The superclass of a class stands behind an operator. -/
def Node.words : Node → List Word
  | .mk kind children _ =>
    match kind, children with
    | .classDef, [path, .node parent, body] =>
      [.keyword .classWord] ++ path.words .classDef ++ [.operator .lt] ++ parent.words ++
        body.words .classDef ++ [.keyword .endWord]
    | kind, children => kind.opening ++ Child.allWords kind children ++ kind.closing

/-- The words of a part of a node of the given kind. -/
@[simp] def Child.words (kind : Node.Kind) : Child → List Word
  | .absent => []
  | .node inner => inner.words
  | .sym name => [kind.nameWord name]
  | .str text => [.token .string text]
  | .int value => [.int value]
  | .float value => [.float value]
  | .foreign _ => []

/-- The words of the parts of a node of the given kind. -/
@[simp] def Child.allWords (kind : Node.Kind) : List Child → List Word
  | [] => []
  | child :: rest => child.words kind ++ Child.allWords kind rest

end

/-- The words of an optional tree. -/
@[simp] def Node.wordsOf : Option Node → List Word
  | none => []
  | some node => node.words

/-- The words of a list of trees. -/
def Node.allWords (nodes : List Node) : List Word :=
  nodes.flatMap Node.words

theorem Node.words_mk {kind : Node.Kind} (hkind : kind ≠ .classDef) (children : List Child)
    (pos : Pos) : (Node.mk kind children pos).words =
      kind.opening ++ Child.allWords kind children ++ kind.closing := by
  cases kind <;> first | rfl | exact absurd rfl hkind

@[simp] theorem Child.words_ofNode? (kind : Node.Kind) (node : Option Node) :
    (Child.ofNode? node).words kind = Node.wordsOf node := by
  cases node <;> rfl

@[simp] theorem Child.allWords_map_node (kind : Node.Kind) (nodes : List Node) :
    Child.allWords kind (nodes.map .node) = Node.allWords nodes := by
  induction nodes with
  | nil => rfl
  | cons first rest ih =>
    rw [List.map_cons, Child.allWords, ih, Child.words]
    rfl

namespace Parse

/-- A constant stands behind the one it is looked up in. -/
@[simp] theorem words_const (space : Child) (name : String) (pos : Pos) :
    (Node.mk .const [space, .sym name] pos).words =
      space.words .const ++ [.token .constant name] := by
  rw [Node.words_mk (by decide)]
  simp

/-- The words of a superclass, behind an operator if there is one. -/
@[simp] def superclassWords : Option Node → List Word
  | none => []
  | some parent => .operator .lt :: parent.words

theorem words_classDef (path : Node) (parent body : Option Node) (pos : Pos) :
    (Node.mk .classDef [.node path, Child.ofNode? parent, Child.ofNode? body] pos).words =
      [.keyword .classWord] ++ path.words ++ superclassWords parent ++ Node.wordsOf body ++
        [.keyword .endWord] := by
  cases parent with
  | none =>
    rw [show Child.ofNode? none = .absent from rfl, Node.words]
    · simp
    · simp
  | some node =>
    rw [show Child.ofNode? (some node) = .node node from rfl, Node.words]
    simp

theorem words_defNode (pos : Pos) (owner : Option Node) (name : String) (parameters : List Node)
    (place : Pos) (body : Option Node) :
    (defNode pos owner [.sym name, .node (.mk .params (parameters.map .node) place),
      Child.ofNode? body]).words =
      [.keyword .defWord] ++ Node.wordsOf owner ++ [.message name] ++ Node.allWords parameters ++
        Node.wordsOf body ++ [.keyword .endWord] := by
  have hparams : (Node.mk .params (parameters.map .node) place).words =
      Node.allWords parameters := by
    rw [Node.words_mk (by decide), Child.allWords_map_node]
    simp
  cases owner with
  | none =>
    rw [defNode, Node.words_mk (by decide)]
    simp [hparams]
  | some node =>
    rw [defNode, Node.words_mk (by decide)]
    simp [hparams]

theorem words_sendNode (pos : Pos) (receiver : Option Node) (name : String) (args : List Node) :
    (sendNode pos receiver name (args.map some)).words =
      Node.wordsOf receiver ++ [.message name] ++ Node.allWords args := by
  have hargs : (args.map some).map Child.ofNode? = args.map .node := by
    rw [List.map_map]
    rfl
  rw [sendNode, hargs, Node.words_mk (by decide)]
  simp

theorem words_begin (nodes : List Node) (pos : Pos) :
    (Node.mk .begin (nodes.map .node) pos).words = Node.allWords nodes := by
  rw [Node.words_mk (by decide), Child.allWords_map_node]
  simp

theorem wordsOf_wrapBody (nodes : List Node) :
    Node.wordsOf (wrapBody nodes) = Node.allWords nodes := by
  match nodes with
  | [] => rfl
  | [single] => simp [wrapBody, Node.allWords]
  | first :: second :: rest => exact words_begin (first :: second :: rest) first.pos

end Parse

end Garnet

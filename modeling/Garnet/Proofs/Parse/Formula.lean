import Garnet.Proofs.Parse.Derivation
import Garnet.Proofs.Token.Tiling
import Garnet.Proofs.Tree.Places

/-! # Formulas

A formula is an operand, or two formulas with an operator between them. Read from left to right it
is a sequence of operands and operators, from which the parentheses are gone. Operators of different
levels and the order of operators of the same level bring them back: for every sequence there is at
most one formula that respects both.
-/

namespace Garnet

/-! ### Levels -/

/-- The operators, with those that bind tighter later. -/
def Operator.levels : List (List Operator) :=
  [[eq, ne], [lt, le, gt, ge], [add, sub], [mul, div, rem]]

/-- The number of an operator's level. -/
def Operator.level (operator : Operator) : Nat :=
  levels.findIdx (·.contains operator)

theorem Operator.precedence_eq (operator : Operator) :
    operator.precedence = operator.level + 1 := by
  cases operator <;> rfl

namespace Parse

/-! ### Operands -/

/-- The node of a token that is an operand on its own. -/
def operand? (token : Token) : Option Node :=
  match token.kind with
  | .constant => some (.mk .const [.absent, .sym token.literal] token.pos)
  | .ivar => some (.mk .ivarRef [.sym token.literal] token.pos)
  | _ => leaf? token

/-- An operand of one token: a literal, a constant, an instance variable, or a reserved word that
denotes an object. Integers are in range, and strings do not go over the end of a line. -/
structure Operand where
  /-- How the operand is written. -/
  text : List Char
  kind : Token.Kind
  literal : String
  /-- The tree of the operand, without its place. -/
  node : Node
  oneLine : '\n' ∉ text
  alone : Token.alone? text = some (kind, literal)
  denotes : operand? ⟨kind, literal, .unknown⟩ = some node

/-- The operand that a text is. -/
def Operand.ofText? (text : List Char) : Option Operand :=
  if oneLine : '\n' ∉ text then
    match alone : Token.alone? text with
    | some (kind, literal) =>
      match denotes : operand? ⟨kind, literal, .unknown⟩ with
      | some node => some ⟨text, kind, literal, node, oneLine, alone, denotes⟩
      | none => none
    | none => none
  else none

/-- An operand is known from its text. -/
theorem Operand.ofText?_text (operand : Operand) : ofText? operand.text = some operand := by
  obtain ⟨text, kind, literal, node, oneLine, alone, denotes⟩ := operand
  rw [ofText?, dif_pos oneLine]
  split
  next kind' literal' halone =>
    cases halone.symm.trans alone
    split
    next node' hdenotes =>
      cases hdenotes.symm.trans denotes
      rfl
    next hnone => cases hnone.symm.trans denotes
  next hnone => cases hnone.symm.trans alone

/-- The operand that a text is, given that it is one. -/
def Operand.ofText (text : String) (h : (ofText? text.toList).isSome) : Operand :=
  (ofText? text.toList).get h

/-- What formulas are made of. -/
inductive Atom where
  | operand (operand : Operand)
  | operator (operator : Operator)

/-! ### Trees -/

/-- An operand, or an operation. -/
inductive Formula where
  | operand (operand : Operand)
  | operation (left : Formula) (operator : Operator) (right : Formula)

namespace Formula

/-- A formula from left to right. -/
def atoms : Formula → List Atom
  | operand o => [.operand o]
  | operation left operator right => left.atoms ++ .operator operator :: right.atoms

/-- The outermost operator of a formula. -/
def root? : Formula → Option Operator
  | operand _ => none
  | operation _ operator _ => some operator

/-- The tree of a formula, without its places. -/
def node : Formula → Node
  | operand o => o.node
  | operation left operator right =>
    sendNode .unknown (some left.node) operator.text [some right.node]

/-- No operator takes an operand from one that binds it tighter, or as tight and from the left. -/
def Binds : Formula → Prop
  | operand _ => True
  | operation left operator right =>
    (∀ other ∈ left.root?, operator.level ≤ other.level) ∧
      (∀ other ∈ right.root?, operator.level < other.level) ∧ left.Binds ∧ right.Binds

/-- The outermost operator binds loosest. -/
theorem Binds.exists_root {formula : Formula} (h : formula.Binds) {operator : Operator}
    (hmem : .operator operator ∈ formula.atoms) :
    ∃ root ∈ formula.root?, root.level ≤ operator.level := by
  induction formula with
  | operand o =>
    rw [atoms, List.mem_singleton] at hmem
    cases hmem
  | operation left root right ihleft ihright =>
    obtain ⟨hleft, hright, hbinds, hbinds'⟩ := h
    refine ⟨root, rfl, ?_⟩
    rcases List.mem_append.1 hmem with hmem | hmem
    · obtain ⟨other, hroot, hlevel⟩ := ihleft hbinds hmem
      exact Nat.le_trans (hleft other hroot) hlevel
    · rcases List.mem_cons.1 hmem with heq | hmem
      · cases heq
        exact Nat.le_refl _
      · obtain ⟨other, hroot, hlevel⟩ := ihright hbinds' hmem
        exact Nat.le_trans (Nat.le_of_lt (hright other hroot)) hlevel

theorem length_atoms_pos (formula : Formula) : 0 < formula.atoms.length := by
  cases formula with
  | operand o => exact Nat.one_pos
  | operation left operator right =>
    rw [atoms, List.length_append, List.length_cons]
    omega

theorem atoms_ne_singleton (left right : Formula) (operator : Operator) (atom : Atom) :
    (operation left operator right).atoms ≠ [atom] := by
  intro h
  have hlength := congrArg List.length h
  have hleft := left.length_atoms_pos
  rw [atoms, List.length_append, List.length_cons, List.length_singleton] at hlength
  omega

section Operations

variable {left right left' right' : Formula} {operator operator' : Operator}

/-- Of two operations with the same atoms, neither has its operator before that of the other: it
would bind looser than the other one, and at least as tight. -/
theorem Binds.not_before (h : (operation left operator right).Binds)
    (h' : (operation left' operator' right').Binds) {middle : List Atom}
    (hleft : left'.atoms = left.atoms ++ .operator operator :: middle)
    (hright : right.atoms = middle ++ .operator operator' :: right'.atoms) : False := by
  have hmem : .operator operator ∈ left'.atoms := by simp [hleft]
  have hmem' : .operator operator' ∈ right.atoms := by simp [hright]
  obtain ⟨root, hroot, hlevel⟩ := h'.2.2.1.exists_root hmem
  obtain ⟨root', hroot', hlevel'⟩ := h.2.2.2.exists_root hmem'
  have hloose := h'.1 root hroot
  have htight := h.2.1 root' hroot'
  omega

theorem Binds.parts_eq (h : (operation left operator right).Binds)
    (h' : (operation left' operator' right').Binds)
    (hatoms : (operation left operator right).atoms = (operation left' operator' right').atoms) :
    left.atoms = left'.atoms ∧ operator = operator' ∧ right.atoms = right'.atoms := by
  rcases List.append_eq_append_iff.1 hatoms with ⟨middle, hleft, hrest⟩ | ⟨middle, hleft, hrest⟩
  · cases middle with
    | nil =>
      obtain ⟨hoperator, hright⟩ := List.cons.inj hrest
      rw [List.append_nil] at hleft
      exact ⟨hleft.symm, Atom.operator.inj hoperator, hright⟩
    | cons atom middle =>
      obtain ⟨rfl, hright⟩ := List.cons.inj hrest
      exact (h.not_before h' hleft hright).elim
  · cases middle with
    | nil =>
      obtain ⟨hoperator, hright⟩ := List.cons.inj hrest
      rw [List.append_nil] at hleft
      exact ⟨hleft, (Atom.operator.inj hoperator).symm, hright.symm⟩
    | cons atom middle =>
      obtain ⟨rfl, hright⟩ := List.cons.inj hrest
      exact (h'.not_before h hleft hright).elim

end Operations

/-- A formula is known from its atoms. -/
theorem Binds.eq_of_atoms {first second : Formula} (h : first.Binds) (h' : second.Binds)
    (hatoms : first.atoms = second.atoms) : first = second := by
  induction first generalizing second with
  | operand o =>
    cases second with
    | operand o' =>
      cases List.singleton_inj.1 hatoms
      rfl
    | operation left operator right => exact (atoms_ne_singleton _ _ _ _ hatoms.symm).elim
  | operation left operator right ihleft ihright =>
    cases second with
    | operand o => exact (atoms_ne_singleton _ _ _ _ hatoms).elim
    | operation left' operator' right' =>
      obtain ⟨hleft, rfl, hright⟩ := h.parts_eq h' hatoms
      rw [ihleft h.2.2.1 h'.2.2.1 hleft, ihright h.2.2.2 h'.2.2.2 hright]

end Formula

end Parse

end Garnet

import Garnet.Proofs.Parse.Completeness
import Garnet.Proofs.Parse.Formula
import Mathlib.Data.List.Forall2

/-! # Operations on one line

On a line of operands with operators between them the parser finds the formula that the levels of
the operators ask for. It reads an operand, and then operations as long as their operators bind
tighter than the one it came from; what it has read so far is the left operand of the next operator.
-/

namespace Garnet.Parse

/-! ### Atoms and tokens -/

theorem map_erase_operand? (kind : Token.Kind) (literal : String) (pos : Pos) :
    (operand? ⟨kind, literal, pos⟩).map Node.erase = operand? ⟨kind, literal, .unknown⟩ := by
  cases kind with
  | int => exact Option.map_map _ _ _
  | float => exact Option.map_map _ _ _
  | keyword word => cases word <;> rfl
  | _ => rfl

theorem Operand.begins (operand : Operand) : beginsExpression operand.kind = true := by
  have hdenotes := operand.denotes
  cases hkind : operand.kind with
  | keyword word =>
    rw [hkind] at hdenotes
    cases word with
    | defWord | classWord | endWord => cases hdenotes
    | _ => rfl
  | illegal | eof | ident | op | assign | comma | semicolon | dot | scope | lparen | rparen =>
    rw [hkind] at hdenotes
    cases hdenotes
  | _ => rfl

namespace Atom

/-- How an atom is written. -/
def text : Atom → List Char
  | operand o => o.text
  | operator o => o.text.toList

def kind : Atom → Token.Kind
  | operand o => o.kind
  | operator o => .op o

def literal : Atom → String
  | operand o => o.literal
  | operator o => o.text

theorem alone (atom : Atom) : Token.alone? atom.text = some (atom.kind, atom.literal) := by
  cases atom with
  | operand o => exact o.alone
  | operator o => cases o <;> decide +kernel

theorem oneLine (atom : Atom) : '\n' ∉ atom.text := by
  cases atom with
  | operand o => exact o.oneLine
  | operator o => cases o <;> decide +kernel

theorem legal (atom : Atom) : atom.kind ≠ .illegal := by
  cases atom with
  | operand o =>
    intro hkind
    have hbegins := o.begins
    rw [show o.kind = .illegal from hkind] at hbegins
    cases hbegins
  | operator o => simp [kind]

/-- A token of an atom on a given line. -/
structure Is (line : Int) (atom : Atom) (token : Token) : Prop where
  kind_eq : token.kind = atom.kind
  literal_eq : token.literal = atom.literal
  line_eq : token.pos.line = line

end Atom

end Garnet.Parse

namespace Garnet.Token

open Parse

/-- No lexeme begins with a blank, with the sign of a comment or with the end mark. -/
theorem solid_of_legal {c : Char} {rest : List Char} (h : (lexeme c rest).kind ≠ .illegal) :
    c ≠ nul ∧ gapLength false (c :: rest) = 0 := by
  have hnone {d : Char} (hd : ∀ more, (lexeme d more).kind = .illegal) : c ≠ d := by
    rintro rfl
    exact h (hd rest)
  have hsign : c ≠ '#' := hnone fun _ => rfl
  have hblank : isGapBlank c = false := by
    rw [Bool.eq_false_iff]
    intro hblank
    rcases eq_of_isGapBlank hblank with rfl | rfl | rfl | rfl <;> exact h rfl
  refine ⟨hnone fun _ => rfl, ?_⟩
  rw [gapLength, if_neg (by simp), if_neg (by simp [hblank]), if_neg (by simpa using hsign)]

/-- An atom in front of a blank is one token. -/
theorem scan_atom (pos : Pos) (atom : Atom) {rest : List Char} (hrest : BlankHead rest) :
    scan pos (atom.text ++ rest) =
      (⟨atom.kind, atom.literal, pos⟩ :: (scan (pos.after atom.text) rest).1,
        (scan (pos.after atom.text) rest).2) := by
  have halone := atom.alone
  cases htext : atom.text with
  | nil =>
    rw [htext] at halone
    cases halone
  | cons c more =>
    rw [htext, alone?] at halone
    split at halone
    next hall =>
      obtain ⟨hkind, hliteral⟩ := Prod.mk.inj (Option.some.inj halone)
      have hlegal : (lexeme c more).kind ≠ .illegal := hkind ▸ atom.legal
      have hlexeme : lexeme c (more ++ rest) = lexeme c more := by
        cases rest with
        | nil => rw [List.append_nil]
        | cons blank rest => exact lexeme_append (closed_of_kind hlegal) (hrest blank rfl) rest
      obtain ⟨hnul, hgap⟩ := solid_of_legal (hlexeme ▸ hlegal)
      rw [scan_eq, List.cons_append, hgap, List.drop_zero, List.take_zero]
      dsimp only
      rw [if_neg hnul, hlexeme, hall, List.take_left, List.drop_left, hkind, hliteral]
      rfl
    next => cases halone

theorem scan_spaces (pos : Pos) (count : Nat) (rest : List Char) :
    scan pos (List.replicate count ' ' ++ rest) =
      scan (pos.after (List.replicate count ' ')) rest := by
  apply scan_append_gap
  rw [List.length_replicate]
  induction count with
  | zero => rw [Nat.zero_add, List.replicate_zero, List.nil_append]
  | succ count ih =>
    rw [List.replicate_succ, List.cons_append, gapLength, if_neg (by simp), if_pos (by decide), ih]
    omega

end Garnet.Token

namespace Garnet.Parse

/-! ### Lines -/

/-- An operator and its right operand, each of them behind spaces. -/
structure Step where
  /-- How many spaces there are in front of the operator, in addition to one. -/
  spaces : Nat
  operator : Operator
  /-- How many spaces there are in front of the operand, in addition to one. -/
  furtherSpaces : Nat
  operand : Operand

namespace Step

def atoms (step : Step) : List Atom :=
  [.operator step.operator, .operand step.operand]

def text (step : Step) : List Char :=
  List.replicate (step.spaces + 1) ' ' ++ step.operator.text.toList ++
    (List.replicate (step.furtherSpaces + 1) ' ' ++ step.operand.text)

end Step

/-- An operand and the operations on it, as they are written. -/
def lineText (first : Operand) (steps : List Step) : List Char :=
  first.text ++ steps.flatMap Step.text

/-- An operand and the operations on it, from left to right. -/
def lineAtoms (first : Operand) (steps : List Step) : List Atom :=
  .operand first :: steps.flatMap Step.atoms

theorem lineText_nil (first : Operand) : lineText first [] = (Atom.operand first).text ++ [] := rfl

theorem lineText_cons (first : Operand) (step : Step) (steps : List Step) :
    lineText first (step :: steps) = (Atom.operand first).text ++
      (List.replicate (step.spaces + 1) ' ' ++ ((Atom.operator step.operator).text ++
        (List.replicate (step.furtherSpaces + 1) ' ' ++ lineText step.operand steps))) := by
  simp only [lineText, List.flatMap_cons, Step.text, List.append_assoc, Atom.text]

theorem blankHead_nil : Token.BlankHead [] := by
  simp [Token.BlankHead]

theorem blankHead_spaces (count : Nat) (rest : List Char) :
    Token.BlankHead (List.replicate (count + 1) ' ' ++ rest) := by
  intro c hc
  rw [List.replicate_succ, List.cons_append, List.head?_cons] at hc
  cases hc
  rfl

theorem line_after_oneLine (pos : Pos) {text : List Char} (h : '\n' ∉ text) :
    (pos.after text).line = pos.line := by
  rw [Pos.line_after, List.count_eq_zero.2 h]
  exact Int.add_zero _

theorem line_after_spaces (pos : Pos) (count : Nat) :
    (pos.after (List.replicate count ' ')).line = pos.line :=
  line_after_oneLine pos fun h => absurd (List.eq_of_mem_replicate h) (by decide)

/-- A line is read atom by atom. -/
theorem scan_lineText {line : Int} {pos : Pos} (hline : pos.line = line) (first : Operand)
    (steps : List Step) :
    List.Forall₂ (Atom.Is line) (lineAtoms first steps)
      (Token.scan pos (lineText first steps)).1 := by
  induction steps generalizing pos first with
  | nil =>
    rw [lineText_nil, Token.scan_atom pos (.operand first) blankHead_nil, Token.scan_eq]
    exact .cons ⟨rfl, rfl, hline⟩ .nil
  | cons step steps ih =>
    have hoperator : ((pos.after (Atom.operand first).text).after
        (List.replicate (step.spaces + 1) ' ')).line = line := by
      rw [line_after_spaces, line_after_oneLine _ (Atom.oneLine _), hline]
    have hoperand : ((((pos.after (Atom.operand first).text).after
        (List.replicate (step.spaces + 1) ' ')).after (Atom.operator step.operator).text).after
          (List.replicate (step.furtherSpaces + 1) ' ')).line = line := by
      rw [line_after_spaces, line_after_oneLine _ (Atom.oneLine _), hoperator]
    rw [lineText_cons, Token.scan_atom pos (.operand first) (blankHead_spaces _ _),
      Token.scan_spaces, Token.scan_atom _ (.operator step.operator) (blankHead_spaces _ _),
      Token.scan_spaces]
    exact .cons ⟨rfl, rfl, hline⟩ (.cons ⟨rfl, rfl, hoperator⟩ (ih hoperand step.operand))

/-! ### Where the parser stands -/

/-- The atoms that are left to read, all on one line. -/
def State.On (s : State) (line : Int) (atoms : List Atom) : Prop :=
  List.Forall₂ (Atom.Is line) atoms s.tokens

namespace State.On

variable {s : State} {line : Int} {atom atom' : Atom} {atoms : List Atom}

theorem current (h : s.On line (atom :: atoms)) : atom.Is line s.current := by
  obtain ⟨token, tokens, hatom, -, htokens⟩ := List.forall₂_cons_left_iff.1 h
  rw [State.current, htokens]
  exact hatom

theorem next (h : s.On line (atom :: atoms)) : s.next.On line atoms := by
  obtain ⟨token, tokens, -, hatoms, htokens⟩ := List.forall₂_cons_left_iff.1 h
  rw [State.On, State.next_tokens, htokens]
  exact hatoms

theorem peek (h : s.On line (atom :: atom' :: atoms)) : atom'.Is line s.peek :=
  s.current_next ▸ h.next.current

theorem nextIsClose (h : s.On line (atom :: atom' :: atoms)) : s.nextIsClose = true := by
  rw [State.nextIsClose, sameLine, h.current.line_eq, h.peek.line_eq]
  exact beq_self_eq_true line

theorem peek_last (h : s.On line [atom]) : s.peek.kind = .eof := by
  have hnone : s.next.tokens = [] := List.forall₂_nil_left_iff.1 h.next
  rw [← s.current_next, State.current, hnone]
  rfl

end State.On

/-- An operand is read alone, since no assignment follows it. -/
theorem Operand.derives {operand : Operand} {line : Int} {steps : List Step} {s : State}
    (h : s.On line (lineAtoms operand steps)) :
    ∃ node, node.erase = operand.node ∧ Derives (.primary node) s s := by
  have hassign : s.peek.kind ≠ .assign := by
    cases steps with
    | nil =>
      rw [h.peek_last]
      simp
    | cons step steps =>
      rw [h.peek.kind_eq]
      simp [Atom.kind]
  obtain ⟨hkind, hliteral, -⟩ := h.current
  have hcurrent : s.current = ⟨operand.kind, operand.literal, s.current.pos⟩ := by
    calc s.current = ⟨s.current.kind, s.current.literal, s.current.pos⟩ := rfl
      _ = ⟨operand.kind, operand.literal, s.current.pos⟩ := by rw [hkind, hliteral]; rfl
  have hplaced : (operand? s.current).map Node.erase = some operand.node := by
    rw [hcurrent, map_erase_operand?, operand.denotes]
  obtain ⟨node, hnode, herase⟩ := Option.map_eq_some_iff.1 hplaced
  refine ⟨node, herase, ?_⟩
  rw [operand?] at hnode
  split at hnode
  next hconstant =>
    cases hnode
    exact .const hconstant hassign
  next hivar =>
    cases hnode
    exact .ivarRef hivar hassign
  next => exact .leaf hnode

/-! ### Climbing -/

/-- The parser stands behind a formula, with further operations to read. The formula is complete as
a left operand: its outermost operator binds tighter than `least`, and at least as tight as the next
operator. -/
structure Ready (line : Int) (least : Nat) (left : Formula) (node : Node) (steps : List Step)
    (s : State) : Prop where
  on : ∃ last, s.On line (lineAtoms last steps)
  erase_eq : node.erase = left.node
  binds : left.Binds
  tight : ∀ root ∈ left.root?, least < root.precedence
  next : ∀ root ∈ left.root?, ∀ step ∈ steps.head?, step.operator.level ≤ root.level

/-- What is read behind a formula: operations with operators that bind tighter than `least`, up to
the first one that does not. -/
structure Climbs (line : Int) (least : Nat) (left : Formula) (node : Node) (steps : List Step)
    (s : State) (formula : Formula) (found : Node) (rest : List Step) (t : State) : Prop where
  derives : Derives (.continuation least node found) s t
  on : ∃ last, t.On line (lineAtoms last rest)
  erase_eq : found.erase = formula.node
  binds : formula.Binds
  tight : ∀ root ∈ formula.root?, least < root.precedence
  atoms_eq : formula.atoms ++ rest.flatMap Step.atoms = left.atoms ++ steps.flatMap Step.atoms
  length_le : rest.length ≤ steps.length
  stops : ∀ step ∈ rest.head?, step.operator.precedence ≤ least

section Climbing

variable {line : Int} {least : Nat} {left : Formula} {node : Node} {steps : List Step} {s : State}

/-- Nothing is read if the next operator does not bind tighter. -/
theorem Ready.done (h : Ready line least left node steps s)
    (hstops : ∀ step ∈ steps.head?, step.operator.precedence ≤ least) :
    Climbs line least left node steps s left node steps s where
  derives := by
    refine .done (Bool.eq_false_iff.2 fun hgo => ?_)
    have hless := (State.continues_iff.1 hgo).1
    obtain ⟨last, hs⟩ := h.on
    cases steps with
    | nil =>
      rw [hs.peek_last] at hless
      exact absurd hless (Nat.not_lt_zero _)
    | cons step steps =>
      rw [hs.peek.kind_eq] at hless
      exact absurd hless (Nat.not_lt.2 (hstops step rfl))
  on := h.on
  erase_eq := h.erase_eq
  binds := h.binds
  tight := h.tight
  atoms_eq := rfl
  length_le := Nat.le_refl _
  stops := hstops

theorem Ready.operand {operand : Operand} (hs : s.On line (lineAtoms operand steps))
    (hnode : node.erase = operand.node) : Ready line least (.operand operand) node steps s where
  on := ⟨operand, hs⟩
  erase_eq := hnode
  binds := trivial
  tight _ h := nomatch h
  next _ h := nomatch h

section Operation

variable {step : Step} {operand found : Node} {right : Formula} {rest : List Step} {t : State}

/-- The parser comes behind an operation when it has read the right operand, which is all that binds
tighter than its operator. -/
theorem Ready.operation (h : Ready line least left node (step :: steps) s)
    (hgo : least < step.operator.precedence)
    (hright : Climbs line step.operator.precedence (.operand step.operand) operand steps s.next.next
      right found rest t) :
    Ready line least (.operation left step.operator right)
      (sendNode s.peek.pos (some node) step.operator.text [some found]) rest t where
  on := hright.on
  erase_eq := by
    have hleft : node.mapPos (fun _ => .unknown) = left.node := h.erase_eq
    have hfound : found.mapPos (fun _ => .unknown) = right.node := hright.erase_eq
    rw [Node.erase, mapPos_sendNode, Option.map_some, List.map_cons, Option.map_some, List.map_nil,
      hleft, hfound, Formula.node]
  binds := by
    refine ⟨fun root hroot => h.next root hroot step rfl, fun root hroot => ?_, h.binds,
      hright.binds⟩
    have htight := hright.tight root hroot
    rw [Operator.precedence_eq, Operator.precedence_eq] at htight
    omega
  tight root hroot := by
    cases hroot
    exact hgo
  next root hroot other hother := by
    cases hroot
    have hloose := hright.stops other hother
    rw [Operator.precedence_eq, Operator.precedence_eq] at hloose
    omega

/-- An operation is read before what follows it. -/
theorem Climbs.operation {formula : Formula} {result : Node} {rest' : List Step} {t' : State}
    (h : Ready line least left node (step :: steps) s) (hgo : least < step.operator.precedence)
    (hprimary : Derives (.primary operand) s.next.next s.next.next)
    (hright : Climbs line step.operator.precedence (.operand step.operand) operand steps s.next.next
      right found rest t)
    (hrest : Climbs line least (.operation left step.operator right)
      (sendNode s.peek.pos (some node) step.operator.text [some found]) rest t
      formula result rest' t') :
    Climbs line least left node (step :: steps) s formula result rest' t' where
  derives := by
    obtain ⟨last, hs⟩ := h.on
    have hkind : s.peek.kind = .op step.operator := hs.peek.kind_eq
    have hcontinues : s.continues least = true :=
      State.continues_iff.2 ⟨by rw [hkind]; exact hgo, .inl hs.nextIsClose⟩
    have hoperand : s.next.next.current.kind = step.operand.kind := hs.next.next.current.kind_eq
    refine .operation hcontinues hkind (.expression ?_ hprimary hright.derives) hrest.derives
    rw [hoperand]
    exact step.operand.begins
  on := hrest.on
  erase_eq := hrest.erase_eq
  binds := hrest.binds
  tight := hrest.tight
  atoms_eq := by
    have hatoms : right.atoms ++ rest.flatMap Step.atoms =
        .operand step.operand :: steps.flatMap Step.atoms := hright.atoms_eq
    rw [hrest.atoms_eq, Formula.atoms, List.append_assoc, List.cons_append, hatoms]
    rfl
  length_le := by
    have hfirst := hright.length_le
    have hsecond := hrest.length_le
    rw [List.length_cons]
    omega
  stops := hrest.stops

end Operation

/-- By induction on the number of operators that are left. -/
theorem Ready.exists_climbs (h : Ready line least left node steps s) :
    ∃ formula found rest t, Climbs line least left node steps s formula found rest t := by
  generalize hlength : steps.length = length
  induction length using Nat.strongRecOn generalizing steps least left node s with
  | ind length ih =>
    cases steps with
    | nil => exact ⟨left, node, [], s, h.done fun _ h => nomatch h⟩
    | cons step more =>
      by_cases hgo : least < step.operator.precedence
      · rw [List.length_cons] at hlength
        obtain ⟨last, hs⟩ := h.on
        have hs' : s.next.next.On line (lineAtoms step.operand more) := hs.next.next
        obtain ⟨operand, herase, hprimary⟩ := Operand.derives hs'
        have hoperand : Ready line step.operator.precedence (.operand step.operand) operand more
            s.next.next := .operand hs' herase
        obtain ⟨right, found, rest, t, hright⟩ := ih more.length (by omega) hoperand rfl
        have hshort := hright.length_le
        obtain ⟨formula, result, rest', t', hrest⟩ :=
          ih rest.length (by omega) (h.operation hgo hright) rfl
        exact ⟨formula, result, rest', t', .operation h hgo hprimary hright hrest⟩
      · refine ⟨left, node, step :: more, s, h.done fun other hother => ?_⟩
        cases hother
        omega

end Climbing

/-! ### Sources -/

/-- A line of operands and operators is one expression. -/
theorem exists_expression {line : Int} {first : Operand} {steps : List Step} {s : State}
    (hs : s.On line (lineAtoms first steps)) :
    ∃ (formula : Formula) (found : Node) (t : State),
      Derives (.expression 0 found) s t ∧ t.next.tokens = [] ∧
      found.erase = formula.node ∧ formula.Binds ∧ formula.atoms = lineAtoms first steps := by
  obtain ⟨node, herase, hprimary⟩ := Operand.derives hs
  have hready : Ready line 0 (.operand first) node steps s := .operand hs herase
  obtain ⟨formula, found, rest, t, hclimbs⟩ := hready.exists_climbs
  -- Every operator binds tighter than nothing, so all of them are read.
  have hrest : rest = [] := by
    cases rest with
    | nil => rfl
    | cons step rest =>
      have hstops := hclimbs.stops step rfl
      rw [Operator.precedence_eq] at hstops
      omega
  obtain ⟨last, ht⟩ := hclimbs.on
  have hatoms := hclimbs.atoms_eq
  subst hrest
  have hkind : s.current.kind = first.kind := hs.current.kind_eq
  refine ⟨formula, found, t, .expression ?_ hprimary hclimbs.derives,
    List.forall₂_nil_left_iff.1 ht.next, hclimbs.erase_eq, hclimbs.binds, ?_⟩
  · rw [hkind]
    exact first.begins
  · rw [List.flatMap_nil, List.append_nil] at hatoms
    exact hatoms

/-- An expression that is all there is to read is a program. -/
theorem derives_program {line : Int} {first : Operand} {steps : List Step} {s t : State}
    {found : Node} (hs : s.On line (lineAtoms first steps))
    (hfound : Derives (.expression 0 found) s t) (hend : t.next.tokens = []) :
    Derives (.statements none none [found]) s t.next := by
  have hkind : s.current.kind = first.kind := hs.current.kind_eq
  have hother {kind : Token.Kind} (hnone : beginsExpression kind = false) :
      s.current.kind ≠ kind := by
    intro heq
    rw [← heq, hkind, first.begins] at hnone
    cases hnone
  have hlast : t.next.current.kind = .eof := by rw [State.current, hend]; rfl
  refine .nextStatement (hother rfl) (hother rfl) (by simp) (by simp)
    (.simple (hother rfl) (hother rfl) hfound) (.noStatement ?_ (.inl hlast))
  rw [hlast]
  simp

/-- A line of operands and operators is accepted. Its tree is that of the only formula that has the
operands and operators of the line in their order and respects the levels of the operators. -/
theorem parse_lineText (first : Operand) (steps : List Step) (locals : List String) :
    ∃ formula : Formula, formula.atoms = lineAtoms first steps ∧ formula.Binds ∧
      (∀ other : Formula, other.atoms = lineAtoms first steps → other.Binds → other = formula) ∧
      ∃ tree, parse (String.ofList (lineText first steps)) locals = .ok (some tree) ∧
        tree.erase = formula.node := by
  have hs : (State.initial (.ofSource (String.ofList (lineText first steps))) locals).On 1
      (lineAtoms first steps) := by
    have hline : Pos.start.line = 1 := rfl
    change List.Forall₂ _ _ (Token.scan .start (String.ofList (lineText first steps)).toList).1
    rw [String.toList_ofList]
    exact scan_lineText hline first steps
  obtain ⟨formula, found, t, hderives, hend, herase, hbinds, hatoms⟩ := exists_expression hs
  refine ⟨formula, hatoms, hbinds, fun other hother hbinds' => ?_, found, ?_, herase⟩
  · exact hbinds'.eq_of_atoms hbinds (hother.trans hatoms.symm)
  · exact parse_of_derives (derives_program hs hderives hend)

/-! The line `Foo < "s" ==  1 - :up - @a * nil`, with operators of every level. -/

def constantSample : Operand := .ofText "Foo" (by decide +kernel)
def stringSample : Operand := .ofText "\"s\"" (by decide +kernel)
def integerSample : Operand := .ofText "1" (by decide +kernel)
def symbolSample : Operand := .ofText ":up" (by decide +kernel)
def ivarSample : Operand := .ofText "@a" (by decide +kernel)
def wordSample : Operand := .ofText "nil" (by decide +kernel)

def stepsSample : List Step :=
  [⟨0, .lt, 0, stringSample⟩, ⟨0, .eq, 1, integerSample⟩, ⟨0, .sub, 0, symbolSample⟩,
    ⟨0, .sub, 0, ivarSample⟩, ⟨0, .mul, 0, wordSample⟩]

/-- The comparison is the left operand of `==`, and the differences are the right one. -/
def formulaSample : Formula :=
  .operation (.operation (.operand constantSample) .lt (.operand stringSample)) .eq
    (.operation (.operation (.operand integerSample) .sub (.operand symbolSample)) .sub
      (.operation (.operand ivarSample) .mul (.operand wordSample)))

theorem binds_formulaSample : formulaSample.Binds := by
  simp only [formulaSample, Formula.Binds, Formula.root?]
  decide

theorem parse_lineText_sample :
    ∃ tree, parse "Foo < \"s\" ==  1 - :up - @a * nil" [] = .ok (some tree) ∧
      tree.erase = formulaSample.node ∧ Node.textOf (some tree.erase) =
        "(send (send (const nil :Foo) :< (str \"s\")) :== " ++
          "(send (send (int 1) :- (sym :up)) :- (send (ivar :@a) :* (nil))))" := by
  obtain ⟨formula, hatoms, hbinds, hunique, tree, hparse, herase⟩ :=
    parse_lineText constantSample stepsSample []
  have hformula : formulaSample = formula := hunique formulaSample rfl binds_formulaSample
  have htext : String.ofList (lineText constantSample stepsSample) =
      "Foo < \"s\" ==  1 - :up - @a * nil" := by decide +kernel
  rw [htext] at hparse
  rw [← hformula] at herase
  refine ⟨tree, hparse, herase, ?_⟩
  rw [herase]
  decide +kernel

end Garnet.Parse

import Garnet.Proofs.Parse.Derivation
import Garnet.Proofs.Token.Pieces
import Garnet.Proofs.Tree.Places

/-! # The grammar sees only the layout

Two lists of tokens with the same layout are read alike, with and without faults: the parser does
the same on both sides, step by step, and finds the same trees and the same faults in other places.
Lines are compared for neighbours only, and never for the end of the text.
-/

namespace Garnet.Parse

variable {α β : Type}

/-! ### States -/

/-- Two states of the parser that differ in places only. The same names are known in both. -/
structure State.Alike (s s' : State) : Prop where
  layout : Token.layout s'.tokens = Token.layout s.tokens
  scope (name : String) : s'.scope.contains name = s.scope.contains name
  issues : s'.issues.toList.map Issue.cause = s.issues.toList.map Issue.cause

namespace State.Alike

variable {s s' : State}

/-- The tokens of both states, if there are any. -/
theorem tokens (h : s.Alike s') : s.tokens = [] ∧ s'.tokens = [] ∨
    ∃ token rest token' rest', s.tokens = token :: rest ∧ s'.tokens = token' :: rest' ∧
      token'.kind = token.kind ∧ token'.literal = token.literal ∧
      (rest'.head?.any fun next => token'.pos.line == next.pos.line) =
        (rest.head?.any fun next => token.pos.line == next.pos.line) ∧
      Token.layout rest' = Token.layout rest := by
  have hlayout := h.layout
  cases htokens : s.tokens with
  | nil =>
    cases htokens' : s'.tokens with
    | nil => exact .inl ⟨rfl, rfl⟩
    | cons token' rest' => simp [htokens, htokens', Token.layout] at hlayout
  | cons token rest =>
    cases htokens' : s'.tokens with
    | nil => simp [htokens, htokens', Token.layout] at hlayout
    | cons token' rest' =>
      rw [htokens, htokens', Token.layout, Token.layout] at hlayout
      obtain ⟨hfirst, hrest⟩ := List.cons.inj hlayout
      obtain ⟨hkind, hliteral, hclose⟩ := Token.Outline.mk.inj hfirst
      exact .inr ⟨token, rest, token', rest', rfl, rfl, hkind, hliteral, hclose, hrest⟩

theorem next (h : s.Alike s') : s.next.Alike s'.next := by
  refine ⟨?_, h.scope, h.issues⟩
  rw [next_tokens, next_tokens]
  rcases h.tokens with ⟨hs, hs'⟩ | ⟨token, rest, token', rest', hs, hs', -, -, -, hrest⟩
  · rw [hs, hs']
  · rw [hs, hs']
    exact hrest

theorem current (h : s.Alike s') :
    s'.current.kind = s.current.kind ∧ s'.current.literal = s.current.literal := by
  unfold State.current
  rcases h.tokens with ⟨hs, hs'⟩ | ⟨token, rest, token', rest', hs, hs', hkind, hliteral, -, -⟩
  · rw [hs, hs']
    exact ⟨rfl, rfl⟩
  · rw [hs, hs']
    exact ⟨hkind, hliteral⟩

theorem kind (h : s.Alike s') : s'.current.kind = s.current.kind :=
  h.current.1

theorem literal (h : s.Alike s') : s'.current.literal = s.current.literal :=
  h.current.2

theorem peek_kind (h : s.Alike s') : s'.peek.kind = s.peek.kind :=
  h.next.kind

/-- Lines are compared for tokens that are there. -/
theorem sameLine (h : s.Alike s') (hkind : s.peek.kind ≠ .eof) :
    Parse.sameLine s'.current s'.peek = Parse.sameLine s.current s.peek := by
  have hkind' : s'.peek.kind ≠ .eof := by
    rw [h.peek_kind]
    exact hkind
  unfold Parse.sameLine State.current State.peek at *
  rcases h.tokens with ⟨hs, -⟩ | ⟨token, rest, token', rest', hs, hs', -, -, hclose, -⟩
  · rw [hs] at hkind
    exact absurd rfl hkind
  · rw [hs] at hkind ⊢
    rw [hs'] at hkind' ⊢
    cases rest with
    | nil => exact absurd rfl hkind
    | cons next rest =>
      cases rest' with
      | nil => exact absurd rfl hkind'
      | cons next' rest' => exact hclose

/-- Whether a token of some kinds follows on the same line. -/
theorem follows (h : s.Alike s') (test : Token.Kind → Bool) (htest : test .eof = false) :
    (test s'.peek.kind && Parse.sameLine s'.current s'.peek) =
      (test s.peek.kind && Parse.sameLine s.current s.peek) := by
  rw [h.peek_kind]
  by_cases hkind : s.peek.kind = .eof
  · rw [hkind, htest]
    rfl
  · rw [h.sameLine hkind]

theorem opensArguments (h : s.Alike s') : s'.opensArguments = s.opensArguments :=
  h.follows (fun kind => decide (kind = .lparen)) rfl

theorem startsArguments (h : s.Alike s') : s'.startsArguments = s.startsArguments :=
  h.follows beginsArgument rfl

theorem namesSetter (h : s.Alike s') : s'.namesSetter = s.namesSetter :=
  h.follows (fun kind => decide (kind = .assign)) rfl

theorem declaring (h : s.Alike s') (name : String) : (s.declaring name).Alike (s'.declaring name) :=
  ⟨h.layout, fun other => congrArg (other == name || ·) (h.scope other), h.issues⟩

theorem within (h : s.Alike s') (names : List String) : (s.within names).Alike (s'.within names) :=
  ⟨h.layout, fun _ => rfl, h.issues⟩

end State.Alike

/-! ### Steps -/

/-- Runs of two steps end in states that differ in places only, and with related results. -/
def Agrees (p p' : Parser α) (s s' : State) (post : α → α → Prop) : Prop :=
  (Prod.snd (p s)).Alike (Prod.snd (p' s')) ∧ post (Prod.fst (p s)) (Prod.fst (p' s'))

namespace Agrees

variable {s s' : State} {post : β → β → Prop}

theorem pure {a a' : β} (h : s.Alike s') (hpost : post a a') :
    Agrees (Pure.pure a) (Pure.pure a') s s' post :=
  ⟨h, hpost⟩

theorem bind {p p' : Parser α} {f f' : α → Parser β} {mid : α → α → Prop}
    (hp : Agrees p p' s s' mid)
    (hf : ∀ a a' t t', mid a a' → t.Alike t' → Agrees (f a) (f' a') t t' post) :
    Agrees (p >>= f) (p' >>= f') s s' post :=
  hf _ _ _ _ hp.2 hp.1

theorem pure_bind {a a' : α} {f f' : α → Parser β} (h : Agrees (f a) (f' a') s s' post) :
    Agrees (Pure.pure a >>= f) (Pure.pure a' >>= f') s s' post := h

theorem current {f f' : Token → Parser β} (h : Agrees (f s.current) (f' s'.current) s s' post) :
    Agrees (Parse.current >>= f) (Parse.current >>= f') s s' post := h

theorem peek {f f' : Token → Parser β} (h : Agrees (f s.peek) (f' s'.peek) s s' post) :
    Agrees (Parse.peek >>= f) (Parse.peek >>= f') s s' post := h

theorem advance {f f' : Unit → Parser β} (h : Agrees (f ()) (f' ()) s.next s'.next post) :
    Agrees (Parse.advance >>= f) (Parse.advance >>= f') s s' post := h

theorem declare {name : String} {f f' : Unit → Parser β}
    (h : Agrees (f ()) (f' ()) (s.declaring name) (s'.declaring name) post) :
    Agrees (Parse.declare name >>= f) (Parse.declare name >>= f') s s' post := h

theorem isDeclared {name : String} {f f' : Bool → Parser β} (hs : s.Alike s')
    (h : Agrees (f (s.scope.contains name)) (f' (s.scope.contains name)) s s' post) :
    Agrees (Parse.isDeclared name >>= f) (Parse.isDeclared name >>= f') s s' post := by
  have hscope : Agrees (f (s.scope.contains name)) (f' (s'.scope.contains name)) s s' post := by
    rw [hs.scope]
    exact h
  exact hscope

theorem opensArguments {f f' : Bool → Parser β} (hs : s.Alike s')
    (h : Agrees (f s.opensArguments) (f' s.opensArguments) s s' post) :
    Agrees (Parse.opensArguments >>= f) (Parse.opensArguments >>= f') s s' post := by
  have hopens : Agrees (f s.opensArguments) (f' s'.opensArguments) s s' post := by
    rw [hs.opensArguments]
    exact h
  exact hopens

theorem startsArguments {f f' : Bool → Parser β} (hs : s.Alike s')
    (h : Agrees (f s.startsArguments) (f' s.startsArguments) s s' post) :
    Agrees (Parse.startsArguments >>= f) (Parse.startsArguments >>= f') s s' post := by
  have hstarts : Agrees (f s.startsArguments) (f' s'.startsArguments) s s' post := by
    rw [hs.startsArguments]
    exact h
  exact hstarts

/-- The same fault in two places. -/
theorem report {pos pos' : Pos} {cause : Cause} {f f' : Unit → Parser β} (hs : s.Alike s')
    (h : ∀ t t', t.Alike t' → Agrees (f ()) (f' ()) t t' post) :
    Agrees (Parse.report pos cause >>= f) (Parse.report pos' cause >>= f') s s' post := by
  refine h _ _ ⟨hs.layout, hs.scope, ?_⟩
  simp [hs.issues]

theorem reportExpected {token token' : Token} {what : Expectation} {f f' : Unit → Parser β}
    (hs : s.Alike s') (hkind : token'.kind = token.kind)
    (h : ∀ t t', t.Alike t' → Agrees (f ()) (f' ()) t t' post) :
    Agrees (Parse.reportExpected token what >>= f) (Parse.reportExpected token' what >>= f') s s'
      post := by
  unfold Parse.reportExpected
  rw [hkind]
  exact report hs h

theorem reportUnexpected {f f' : Unit → Parser β} (hs : s.Alike s')
    (h : ∀ t t', t.Alike t' → Agrees (f ()) (f' ()) t t' post) :
    Agrees (Parse.reportUnexpected >>= f) (Parse.reportUnexpected >>= f') s s' post := by
  have hreport : Agrees
      (Parse.report s.current.pos (if s.current.kind = .illegal then
        .invalidToken s.current.literal else .unexpected s.current.kind) >>= f)
      (Parse.report s'.current.pos (if s'.current.kind = .illegal then
        .invalidToken s'.current.literal else .unexpected s'.current.kind) >>= f') s s' post := by
    rw [hs.kind, hs.literal]
    exact report hs h
  exact hreport

/-- The token that is asked for is there on both sides, or a fault is noted on both. -/
theorem expectNext {kind : Token.Kind} {f f' : Bool → Parser β} (hs : s.Alike s')
    (hfound : s.peek.kind = kind → Agrees (f true) (f' true) s.next s'.next post)
    (hother : ∀ t t', t.Alike t' → Agrees (f false) (f' false) t t' post) :
    Agrees (Parse.expectNext kind >>= f) (Parse.expectNext kind >>= f') s s' post := by
  have hexpect : Agrees
      ((if s.peek.kind = kind then (do Parse.advance; return true)
        else (do Parse.reportExpected s.peek (.token kind); return false) : Parser Bool) >>= f)
      ((if s'.peek.kind = kind then (do Parse.advance; return true)
        else (do Parse.reportExpected s'.peek (.token kind); return false) : Parser Bool) >>= f')
      s s' post := by
    rw [hs.peek_kind]
    split
    next h => exact hfound h
    next h =>
      have hreport : Agrees (Parse.reportExpected s.peek (.token kind) >>= fun _ => f false)
          (Parse.reportExpected s'.peek (.token kind) >>= fun _ => f' false) s s' post :=
        reportExpected hs hs.peek_kind hother
      exact hreport
  exact hexpect

/-- The scopes around are the same, so they are the same again in the end. -/
theorem inScope {names : List String} {p p' : Parser α} {f f' : α → Parser β}
    {mid : α → α → Prop} (hs : s.Alike s')
    (hp : Agrees p p' (s.within names) (s'.within names) mid)
    (hf : ∀ a a' t t', mid a a' → t.Alike t' → Agrees (f a) (f' a') t t' post) :
    Agrees (Parse.inScope names p >>= f) (Parse.inScope names p' >>= f') s s' post := by
  refine hf _ _ _ _ hp.2 ⟨hp.1.layout, ?_, hp.1.issues⟩
  exact hs.scope

end Agrees

/-! ### Trees -/

/-- Optional trees that differ in places only. -/
def SameTree (found found' : Option Node) : Prop :=
  found'.map Node.erase = found.map Node.erase

/-- Lists of trees that differ in places only. -/
def SameTrees (found found' : List Node) : Prop :=
  found'.map Node.erase = found.map Node.erase

/-- Lists of optional trees that differ in places only. -/
def SameParts (found found' : List (Option Node)) : Prop :=
  found'.map (Option.map Node.erase) = found.map (Option.map Node.erase)

/-- Optional lists of trees that differ in places only. -/
def SameList (found found' : Option (List Node)) : Prop :=
  found'.map (List.map Node.erase) = found.map (List.map Node.erase)

section Trees

variable {found found' : Option Node} {nodes nodes' : List Node} {pos pos' : Pos}

theorem SameTree.cases (h : SameTree found found') : found = none ∧ found' = none ∨
    ∃ node node', found = some node ∧ found' = some node' ∧ node'.erase = node.erase := by
  cases found with
  | none =>
    cases found' with
    | none => exact .inl ⟨rfl, rfl⟩
    | some node' => cases h
  | some node =>
    cases found' with
    | none => cases h
    | some node' => exact .inr ⟨node, node', rfl, rfl, Option.some.inj h⟩

theorem SameList.cases {found found' : Option (List Node)} (h : SameList found found') :
    found = none ∧ found' = none ∨
      ∃ nodes nodes', found = some nodes ∧ found' = some nodes' ∧ SameTrees nodes nodes' := by
  cases found with
  | none =>
    cases found' with
    | none => exact .inl ⟨rfl, rfl⟩
    | some nodes' => cases h
  | some nodes =>
    cases found' with
    | none => cases h
    | some nodes' => exact .inr ⟨nodes, nodes', rfl, rfl, Option.some.inj h⟩

theorem SameTree.some {node node' : Node} (h : node'.erase = node.erase) :
    SameTree (some node) (some node') :=
  congrArg Option.some h

theorem SameTree.ofNode? (h : SameTree found found') :
    (Child.ofNode? found').erase = (Child.ofNode? found).erase :=
  (Child.mapPos_ofNode? _ found').trans
    ((congrArg Child.ofNode? h).trans (Child.mapPos_ofNode? _ found).symm)

theorem SameTrees.cons {node node' : Node} (h : node'.erase = node.erase)
    (hnodes : SameTrees nodes nodes') : SameTrees (node :: nodes) (node' :: nodes') :=
  List.cons_eq_cons.2 ⟨h, hnodes⟩

theorem SameParts.cons {parts parts' : List (Option Node)} (h : SameTree found found')
    (hparts : SameParts parts parts') : SameParts (found :: parts) (found' :: parts') :=
  List.cons_eq_cons.2 ⟨h, hparts⟩

/-- A node with the same kind and the same children in another place. -/
theorem erase_mk {kind : Node.Kind} {children children' : List Child}
    (h : Child.eraseAll children' = Child.eraseAll children) :
    (Node.mk kind children' pos').erase = (Node.mk kind children pos).erase :=
  congrArg (Node.mk kind · .unknown) h

theorem eraseAll_cons {child child' : Child} {rest rest' : List Child}
    (h : child'.erase = child.erase) (hrest : Child.eraseAll rest' = Child.eraseAll rest) :
    Child.eraseAll (child' :: rest') = Child.eraseAll (child :: rest) :=
  List.cons_eq_cons.2 ⟨h, hrest⟩

theorem SameTrees.children (h : SameTrees nodes nodes') :
    Child.eraseAll (nodes'.map .node) = Child.eraseAll (nodes.map .node) :=
  (Child.mapPosAll_map_node _ nodes').trans
    ((congrArg (List.map Child.node) h).trans (Child.mapPosAll_map_node _ nodes).symm)

theorem SameTrees.wrapBody (h : SameTrees nodes nodes') :
    SameTree (wrapBody nodes) (wrapBody nodes') :=
  (map_wrapBody _ nodes').trans ((congrArg Parse.wrapBody h).trans (map_wrapBody _ nodes).symm)

theorem SameTrees.declaredNames (h : SameTrees nodes nodes') :
    declaredNames nodes' = declaredNames nodes :=
  (declaredNames_map _ nodes').symm.trans
    ((congrArg Parse.declaredNames h).trans (declaredNames_map _ nodes))

theorem SameTree.send {args args' : List (Option Node)} (h : SameTree found found')
    (hargs : SameParts args args') (name : String) :
    (sendNode pos' found' name args').erase = (sendNode pos found name args).erase := by
  have herase (pos : Pos) (found : Option Node) (args : List (Option Node)) :
      (sendNode pos found name args).erase =
        sendNode .unknown (found.map Node.erase) name (args.map (Option.map Node.erase)) :=
    mapPos_sendNode _ pos found name args
  rw [herase, herase, h, hargs]

end Trees

/-! ### Parameters and class paths -/

theorem paramNames_agrees (depth : Nat) {s s' : State} (hs : s.Alike s') :
    Agrees (paramNames depth) (paramNames depth) s s' SameList := by
  induction depth generalizing s s' with
  | zero => exact .reportUnexpected hs fun _ _ ht => .pure ht rfl
  | succ depth ih =>
    rw [paramNames]
    refine .expectNext hs (fun hname => ?_) fun _ _ ht => .pure ht rfl
    refine .current (.peek ?_)
    rw [hs.next.peek_kind, hs.next.literal]
    have hparam : (Node.mk .param [.sym s.next.current.literal] s'.next.current.pos).erase =
        (Node.mk .param [.sym s.next.current.literal] s.next.current.pos).erase := rfl
    split
    next => exact .pure hs.next rfl
    next =>
      refine .advance (.bind (ih hs.next.next) fun found found' t t' hfound ht => .pure ht ?_)
      rcases hfound.cases with ⟨rfl, rfl⟩ | ⟨nodes, nodes', rfl, rfl, hnodes⟩
      · rfl
      · exact congrArg some (SameTrees.cons hparam hnodes)

theorem params_agrees (depth : Nat) {s s' : State} (hs : s.Alike s') :
    Agrees (params depth) (params depth) s s' SameList := by
  rw [params]
  refine .peek (.current ?_)
  change Agrees (if s.opensArguments then _ else _) (if s'.opensArguments then _ else _) s s' _
  rw [hs.opensArguments]
  split
  next hparen =>
    refine .advance (.peek ?_)
    rw [hs.next.peek_kind]
    split
    next => exact .advance (.pure hs.next.next rfl)
    next =>
      refine .bind (paramNames_agrees depth hs.next) fun found found' t t' hfound ht => ?_
      rcases hfound.cases with ⟨rfl, rfl⟩ | ⟨nodes, nodes', rfl, rfl, hnodes⟩
      · exact .pure ht rfl
      · exact .expectNext ht (fun _ => .pure ht.next hfound) fun _ _ hu => .pure hu rfl
  next =>
    rw [hs.follows (fun kind => decide (kind = .ident)) rfl]
    split
    next => exact paramNames_agrees depth hs
    next => exact .pure hs rfl

theorem classPath_agrees (depth : Nat) {outer outer' : Node} (houter : outer'.erase = outer.erase)
    {s s' : State} (hs : s.Alike s') :
    Agrees (classPath depth outer) (classPath depth outer') s s' SameTree := by
  induction depth generalizing outer outer' s s' with
  | zero => exact .reportUnexpected hs fun _ _ ht => .pure ht rfl
  | succ depth ih =>
    rw [classPath, classPath]
    apply Agrees.peek
    rw [hs.peek_kind]
    split
    next => exact .pure hs (.some houter)
    next =>
      refine .advance (.expectNext hs.next (fun _ => ?_) fun _ _ ht => .pure ht rfl)
      refine .current (ih ?_ hs.next.next)
      rw [hs.next.next.literal]
      exact erase_mk (eraseAll_cons (congrArg Child.node houter) rfl)

/-! ### Statements and expressions -/

/-- The line that a statement ended on is that of the token the parser stands on, on both sides or
on none. At the end of the text nobody asks. -/
def SameEnding (s s' : State) (previous previous' : Option Int) : Prop :=
  s.current.kind ≠ .eof →
    (previous' = some s'.current.pos.line ↔ previous = some s.current.pos.line)

theorem SameEnding.next {s s' : State} (hs : s.Alike s') :
    SameEnding s.next s'.next (some s.current.pos.line) (some s'.current.pos.line) := by
  intro hkind
  have hline := hs.sameLine hkind
  rw [Bool.eq_iff_iff, sameLine, sameLine, beq_iff_eq, beq_iff_eq] at hline
  rw [Option.some.injEq, Option.some.injEq]
  exact hline

/-- What the rules do on both sides, for a given bound on their nesting. -/
structure Lockstep (depth : Nat) : Prop where
  statements (stop : Option Token.Kind) {previous previous' : Option Int} {s s' : State}
    (hs : s.Alike s') (hprevious : SameEnding s s' previous previous') :
    Agrees (statements stop depth previous) (statements stop depth previous') s s' SameTrees
  statement {s s' : State} (hs : s.Alike s') :
    Agrees (statement depth) (statement depth) s s' SameTree
  classStatement {s s' : State} (hs : s.Alike s') :
    Agrees (classStatement depth) (classStatement depth) s s' SameTree
  defStatement {s s' : State} (hs : s.Alike s') :
    Agrees (defStatement depth) (defStatement depth) s s' SameTree
  expression (least : Nat) {s s' : State} (hs : s.Alike s') :
    Agrees (expression depth least) (expression depth least) s s' SameTree
  continuation (least : Nat) {left left' : Option Node} (hleft : SameTree left left')
    {s s' : State} (hs : s.Alike s') :
    Agrees (continuation depth least left) (continuation depth least left') s s' SameTree
  member {receiver receiver' : Option Node} (hreceiver : SameTree receiver receiver')
    {s s' : State} (hs : s.Alike s') :
    Agrees (member depth receiver) (member depth receiver') s s' SameTree
  primary {s s' : State} (hs : s.Alike s') : Agrees (primary depth) (primary depth) s s' SameTree
  callArguments {s s' : State} (hs : s.Alike s') :
    Agrees (callArguments depth) (callArguments depth) s s' SameParts
  argumentList {s s' : State} (hs : s.Alike s') :
    Agrees (argumentList depth) (argumentList depth) s s' SameParts

theorem literalNode_agrees {kind : Node.Kind} {child : α → Child} {value : Option α}
    {otherwise : Cause} {s s' : State} (hs : s.Alike s') :
    Agrees (literalNode kind child value otherwise) (literalNode kind child value otherwise) s s'
      SameTree := by
  apply Agrees.current
  cases value with
  | none => exact .report hs fun _ _ ht => .pure ht rfl
  | some a => exact .pure hs rfl

namespace Lockstep

variable {depth : Nat} {s s' : State}

theorem statements_succ (rules : Lockstep depth) (stop : Option Token.Kind)
    {previous previous' : Option Int} (hs : s.Alike s')
    (hprevious : SameEnding s s' previous previous') :
    Agrees (Parse.statements stop (depth + 1) previous)
      (Parse.statements stop (depth + 1) previous') s s' SameTrees := by
  rw [Parse.statements, Parse.statements]
  apply Agrees.current
  rw [hs.kind]
  split
  next =>
    refine .advance (rules.statements stop hs.next ?_)
    exact fun _ => by simp
  next =>
    split
    next => exact .pure hs rfl
    next hend =>
      have heof : s.current.kind ≠ .eof := by
        intro heof
        exact hend (by simp [heof])
      -- What follows is the same with and without a fault.
      have hrest {t t' : State} (ht : t.Alike t') : Agrees
          (do
            let statement ← Parse.statement depth
            let line := (← current).pos.line
            advance
            let rest ← Parse.statements stop depth (some line)
            return statement.toList ++ rest)
          (do
            let statement ← Parse.statement depth
            let line := (← current).pos.line
            advance
            let rest ← Parse.statements stop depth (some line)
            return statement.toList ++ rest) t t' SameTrees := by
        refine .bind (rules.statement ht) fun found found' u u' hfound hu => ?_
        refine .current (.advance ?_)
        have hstatements := rules.statements stop hu.next (.next hu)
        refine .bind hstatements fun nodes nodes' v v' hnodes hv => ?_
        refine .pure hv ?_
        rcases hfound.cases with ⟨rfl, rfl⟩ | ⟨node, node', rfl, rfl, hnode⟩
        · exact hnodes
        · exact .cons hnode hnodes
      by_cases hline : previous = some s.current.pos.line
      · rw [if_pos hline, if_pos ((hprevious heof).2 hline)]
        exact .report hs fun t t' ht => hrest ht
      · rw [if_neg hline, if_neg (mt (hprevious heof).1 hline)]
        exact hrest hs

theorem statement_succ (rules : Lockstep depth) (hs : s.Alike s') :
    Agrees (Parse.statement (depth + 1)) (Parse.statement (depth + 1)) s s' SameTree := by
  rw [Parse.statement]
  apply Agrees.current
  rw [hs.kind]
  split
  next => exact rules.classStatement hs
  next => exact rules.defStatement hs
  next => exact rules.expression 0 hs

theorem expression_succ (rules : Lockstep depth) (least : Nat) (hs : s.Alike s') :
    Agrees (Parse.expression (depth + 1) least) (Parse.expression (depth + 1) least) s s'
      SameTree := by
  rw [Parse.expression]
  apply Agrees.current
  rw [hs.kind]
  split
  next =>
    exact .bind (rules.primary hs) fun left left' t t' hleft ht => rules.continuation least hleft ht
  next => exact .reportUnexpected hs fun _ _ ht => .pure ht rfl

theorem argumentList_succ (rules : Lockstep depth) (hs : s.Alike s') :
    Agrees (Parse.argumentList (depth + 1)) (Parse.argumentList (depth + 1)) s s' SameParts := by
  rw [Parse.argumentList]
  refine .bind (rules.expression 0 hs) fun first first' t t' hfirst ht => .peek ?_
  rw [ht.peek_kind]
  split
  next =>
    refine .advance (.advance (.bind (rules.argumentList ht.next.next) ?_))
    intro rest rest' u u' hrest hu
    exact .pure hu (.cons hfirst hrest)
  next => exact .pure ht (.cons hfirst rfl)

theorem callArguments_succ (rules : Lockstep depth) (hs : s.Alike s') :
    Agrees (Parse.callArguments (depth + 1)) (Parse.callArguments (depth + 1)) s s' SameParts := by
  rw [Parse.callArguments]
  apply Agrees.opensArguments hs
  split
  next =>
    refine .advance (.advance (.current ?_))
    rw [hs.next.next.kind]
    split
    next => exact .pure hs.next.next rfl
    next =>
      refine .bind (rules.argumentList hs.next.next) fun args args' t t' hargs ht => ?_
      exact .expectNext ht (fun _ => .pure ht.next hargs) fun _ _ hu => .pure hu hargs
  next =>
    apply Agrees.startsArguments hs
    split
    next => exact .advance (rules.argumentList hs.next)
    next => exact .pure hs rfl

theorem member_succ (rules : Lockstep depth) {receiver receiver' : Option Node}
    (hreceiver : SameTree receiver receiver') (hs : s.Alike s') :
    Agrees (Parse.member (depth + 1) receiver) (Parse.member (depth + 1) receiver') s s'
      SameTree := by
  rw [Parse.member, Parse.member]
  refine .advance (.current ?_)
  rw [hs.next.kind, hs.next.literal]
  split
  next => exact .reportExpected hs.next hs.next.kind fun _ _ ht => .pure ht rfl
  next =>
    apply Agrees.peek
    rw [hs.next.peek_kind]
    split
    next =>
      refine .advance (.advance (.bind (rules.expression 0 hs.next.next.next) ?_))
      intro value value' t t' hvalue ht
      exact .pure ht (.some (hreceiver.send (.cons hvalue rfl) _))
    next =>
      refine .bind (rules.callArguments hs.next) fun args args' t t' hargs ht => ?_
      exact .pure ht (.some (hreceiver.send hargs _))

theorem continuation_succ (rules : Lockstep depth) (least : Nat) {left left' : Option Node}
    (hleft : SameTree left left') (hs : s.Alike s') :
    Agrees (Parse.continuation (depth + 1) least left) (Parse.continuation (depth + 1) least left')
      s s' SameTree := by
  rw [Parse.continuation, Parse.continuation]
  apply Agrees.peek
  rw [hs.peek_kind]
  split
  next => exact .pure hs hleft
  next hleast =>
    -- The end of the text binds nothing, so there is a token on both sides.
    have hkind : s.peek.kind ≠ .eof := by
      intro heof
      rw [heof] at hleast
      exact hleast (Nat.zero_le least)
    apply Agrees.current
    rw [hs.sameLine hkind]
    split
    next => exact .pure hs hleft
    next =>
      apply Agrees.advance
      split
      next operator _ =>
        refine .advance (.bind (rules.expression operator.precedence hs.next.next) ?_)
        intro right right' t t' hright ht
        exact .pure_bind (rules.continuation least (.some (hleft.send (.cons hright rfl) _)) ht)
      next =>
        refine .bind (rules.member hleft hs.next) fun inner inner' t t' hinner ht => ?_
        exact rules.continuation least hinner ht
      next =>
        refine .expectNext hs.next (fun _ => ?_) fun t t' ht => ?_
        · apply Agrees.current
          rw [hs.next.next.literal]
          refine .pure_bind (rules.continuation least (.some (erase_mk ?_)) hs.next.next)
          exact eraseAll_cons hleft.ofNode? rfl
        · exact .pure_bind (rules.continuation least rfl ht)

theorem primary_succ (rules : Lockstep depth) (hs : s.Alike s') :
    Agrees (Parse.primary (depth + 1)) (Parse.primary (depth + 1)) s s' SameTree := by
  rw [Parse.primary]
  refine .current (.peek ?_)
  dsimp only
  rw [hs.kind, hs.peek_kind, hs.literal]
  have hassigned := rules.expression 0 hs.next.next
  split
  next =>
    split
    next =>
      refine .bind (.advance (.advance hassigned)) fun value value' t t' hvalue ht => ?_
      refine .declare (.pure (ht.declaring _) (.some (erase_mk ?_)))
      exact eraseAll_cons rfl (eraseAll_cons hvalue.ofNode? rfl)
    next =>
      refine .isDeclared hs (.opensArguments hs ?_)
      split
      next => exact .pure hs rfl
      next =>
        refine .bind (rules.callArguments hs) fun args args' t t' hargs ht => ?_
        exact .pure ht (.some (SameTree.send rfl hargs _))
  next =>
    split
    next =>
      refine .bind (.advance (.advance hassigned)) fun value value' t t' hvalue ht => ?_
      refine .pure ht (.some (erase_mk ?_))
      exact eraseAll_cons rfl (eraseAll_cons rfl (eraseAll_cons hvalue.ofNode? rfl))
    next => exact .pure hs rfl
  next =>
    split
    next =>
      refine .bind (.advance (.advance hassigned)) fun value value' t t' hvalue ht => ?_
      refine .pure ht (.some (erase_mk ?_))
      exact eraseAll_cons rfl (eraseAll_cons hvalue.ofNode? rfl)
    next => exact .pure hs rfl
  next => exact literalNode_agrees hs
  next => exact literalNode_agrees hs
  next => exact .pure hs rfl
  next => exact .pure hs rfl
  next => exact .pure hs rfl
  next => exact .pure hs rfl
  next => exact .pure hs rfl
  next => exact .pure hs rfl
  next =>
    refine .advance (.bind (rules.statements _ hs.next fun _ => by simp) ?_)
    intro nodes nodes' t t' hnodes ht
    apply Agrees.current
    rw [ht.kind]
    split
    next => exact .reportExpected ht ht.kind fun _ _ hu => .pure hu rfl
    next => exact .pure ht (.some (erase_mk hnodes.children))
  next => exact .reportUnexpected hs fun _ _ ht => .pure ht rfl

theorem classStatement_succ (rules : Lockstep depth) (hs : s.Alike s') :
    Agrees (Parse.classStatement (depth + 1)) (Parse.classStatement (depth + 1)) s s'
      SameTree := by
  rw [Parse.classStatement]
  refine .current (.expectNext hs (fun hname => ?_) fun _ _ ht => .pure ht rfl)
  apply Agrees.current
  rw [hs.next.literal]
  refine .bind (classPath_agrees depth (erase_mk rfl) hs.next) fun found found' t t' hfound ht => ?_
  rcases hfound.cases with ⟨rfl, rfl⟩ | ⟨path, path', rfl, rfl, hpath⟩
  · exact .pure ht rfl
  · apply Agrees.peek
    rw [ht.peek_kind]
    extract_lets rest rest'
    -- What follows is the same with and without a superclass.
    have hrest {parent parent' : Option Node} (hparent : SameTree parent parent') {u u' : State}
        (hu : u.Alike u') : Agrees (rest parent) (rest' parent') u u' SameTree := by
      refine .advance (.inScope hu.next (rules.statements _ (hu.next.within _) ?_) ?_)
      · exact fun _ => by simp
      · intro body body' v v' hbody hv
        apply Agrees.current
        rw [hv.kind]
        split
        next => exact .reportExpected hv hv.kind fun _ _ hw => .pure hw rfl
        next =>
          refine .pure hv (.some (erase_mk ?_))
          exact eraseAll_cons (congrArg Child.node hpath) (eraseAll_cons hparent.ofNode?
            (eraseAll_cons hbody.wrapBody.ofNode? rfl))
    split
    next =>
      refine .advance (.advance (.bind (rules.expression 0 ht.next.next) ?_))
      exact fun parent parent' u u' hparent hu => hrest hparent hu
    next => exact .pure_bind (hrest rfl ht)

theorem defStatement_succ (rules : Lockstep depth) (hs : s.Alike s') :
    Agrees (Parse.defStatement (depth + 1)) (Parse.defStatement (depth + 1)) s s' SameTree := by
  rw [Parse.defStatement]
  refine .current (.advance (.current (.peek ?_)))
  rw [hs.next.kind, hs.next.peek_kind]
  extract_lets named named'
  have hnamed {owner owner' : Option Node} (howner : SameTree owner owner') {t t' : State}
      (ht : t.Alike t') : Agrees (named owner) (named' owner') t t' SameTree := by
    apply Agrees.current
    rw [ht.kind, ht.literal]
    split
    next => exact .reportExpected ht ht.kind fun _ _ hu => .pure hu rfl
    next =>
      refine .peek (.peek ?_)
      extract_lets setter name rest setter' name' rest'
      have hsetter : setter' = setter := ht.namesSetter
      have hname : name' = name := by
        simp only [name, name', hsetter]
      -- What follows is the same with and without the mark of a setter.
      have hrest {u u' : State} (hu : u.Alike u') : Agrees (rest ()) (rest' ()) u u' SameTree := by
        refine .peek (.bind (params_agrees depth hu) fun found found' v v' hfound hv => ?_)
        rcases hfound.cases with ⟨rfl, rfl⟩ | ⟨nodes, nodes', rfl, rfl, hnodes⟩
        · exact .pure hv rfl
        · dsimp only
          rw [hnodes.declaredNames]
          refine .advance (.inScope hv.next (rules.statements _ (hv.next.within _) ?_) ?_)
          · exact fun _ => by simp
          · intro body body' w w' hbody hw
            apply Agrees.current
            rw [hw.kind]
            split
            next => exact .reportExpected hw hw.kind fun _ _ hx => .pure hx rfl
            next =>
              have hparts : Child.eraseAll [.sym name',
                    .node (.mk .params (nodes'.map .node) u'.peek.pos),
                    Child.ofNode? (wrapBody body')] =
                  Child.eraseAll [.sym name, .node (.mk .params (nodes.map .node) u.peek.pos),
                    Child.ofNode? (wrapBody body)] := by
                rw [hname]
                exact eraseAll_cons rfl (eraseAll_cons
                  (congrArg Child.node (erase_mk hnodes.children))
                  (eraseAll_cons hbody.wrapBody.ofNode? rfl))
              refine .pure hw (.some ?_)
              rcases howner.cases with ⟨rfl, rfl⟩ | ⟨node, node', rfl, rfl, hnode⟩
              · exact erase_mk hparts
              · exact erase_mk (eraseAll_cons (congrArg Child.node hnode) hparts)
      rw [hsetter]
      split
      next => exact .advance (hrest ht.next)
      next => exact hrest ht
  clear_value named named'
  split
  next =>
    refine .current (.advance (.advance (.pure_bind (hnamed ?_ hs.next.next.next))))
    exact .some rfl
  next => exact .pure_bind (hnamed rfl hs.next)

end Lockstep

theorem lockstep (depth : Nat) : Lockstep depth := by
  induction depth with
  | zero =>
    constructor
    -- At the bound every rule reports a fault, on both sides.
    all_goals
      intros
      exact .reportUnexpected ‹_› fun _ _ ht => .pure ht rfl
  | succ depth ih =>
    exact
      { statements := fun stop _ _ _ _ hs hprevious => ih.statements_succ stop hs hprevious
        statement := ih.statement_succ
        classStatement := ih.classStatement_succ
        defStatement := ih.defStatement_succ
        expression := fun least _ _ hs => ih.expression_succ least hs
        continuation := fun least _ _ hleft _ _ hs => ih.continuation_succ least hleft hs
        member := fun hreceiver _ _ hs => ih.member_succ hreceiver hs
        primary := ih.primary_succ
        callArguments := ih.callArguments_succ
        argumentList := ih.argumentList_succ }

/-- Programs with the same layout have the same tree and the same faults, up to places. -/
theorem program_agrees {stream stream' : Token.Stream} {locals locals' : List String}
    (hlayout : Token.layout stream'.tokens = Token.layout stream.tokens)
    (hlocals : ∀ name, locals'.contains name = locals.contains name) :
    SameTree (program stream locals).1 (program stream' locals').1 ∧
      (program stream' locals').2.map Issue.cause = (program stream locals).2.map Issue.cause := by
  have hlength : stream'.tokens.length = stream.tokens.length := by
    rw [← Token.length_layout, hlayout, Token.length_layout]
  have hs : (State.initial stream locals).Alike (State.initial stream' locals') :=
    ⟨hlayout, hlocals, rfl⟩
  have hnone : SameEnding (State.initial stream locals) (State.initial stream' locals') none none :=
    fun _ => by simp
  have hreads := (lockstep (depthBound stream.tokens.length)).statements none hs hnone
  unfold program
  rw [hlength]
  exact ⟨hreads.2.wrapBody, hreads.1.issues⟩

end Garnet.Parse

namespace Garnet

open Parse

/-- A text with the layout of an accepted one is accepted, with the same tree up to places. -/
theorem parse_of_layout {source source' : String} {locals : List String} {tree : Option Node}
    (hlayout : Token.layout (Token.Stream.ofSource source').tokens =
      Token.layout (Token.Stream.ofSource source).tokens)
    (h : parse source locals = .ok tree) :
    ∃ tree', parse source' locals = .ok tree' ∧ SameTree tree tree' := by
  have hlocals (name : String) : locals.contains name = locals.contains name := rfl
  obtain ⟨htree, hcauses⟩ := program_agrees hlayout hlocals
  rw [parse_eq_ok_iff] at h
  rw [h] at htree hcauses
  refine ⟨_, parse_eq_ok_iff.2 (Prod.ext rfl ?_), htree⟩
  exact List.map_eq_nil_iff.1 hcauses

/-- Results of parsing that differ in places only: the same tree, or faults with the same messages
in the same order. -/
inductive Parse.SameResult :
    Except ParseError (Option Node) → Except ParseError (Option Node) → Prop
  | accepted {tree tree' : Option Node} (htree : SameTree tree tree') :
    SameResult (.ok tree) (.ok tree')
  | refused {error error' : ParseError}
    (hmessages : error'.issues.map (·.cause.message) = error.issues.map (·.cause.message)) :
    SameResult (.error error) (.error error')

/-- A text is refused if there are faults, whatever tree was found, and the faults are the same. -/
theorem Parse.SameResult.of_layout {source source' : String} {locals locals' : List String}
    (hlayout : Token.layout (Token.Stream.ofSource source').tokens =
      Token.layout (Token.Stream.ofSource source).tokens)
    (hlocals : ∀ name, locals'.contains name = locals.contains name) :
    SameResult (parse source locals) (parse source' locals') := by
  obtain ⟨htree, hcauses⟩ := program_agrees hlayout hlocals
  have hempty : (program (.ofSource source') locals').2.isEmpty =
      (program (.ofSource source) locals).2.isEmpty := by
    rw [← List.isEmpty_map, hcauses, List.isEmpty_map]
  unfold parse
  dsimp only
  rw [hempty]
  by_cases hclean : (program (.ofSource source) locals).2.isEmpty = true
  · rw [if_pos hclean, if_pos hclean]
    exact .accepted htree
  · rw [if_neg hclean, if_neg hclean]
    apply SameResult.refused
    have hmessages := congrArg (List.map Cause.message) hcauses
    rwa [List.map_map, List.map_map] at hmessages

/-- Texts with the same layout are both accepted, with the same tree up to places, or both refused
with the same messages, if the same names count as assigned from the start. -/
theorem parse_sameResult {source source' : String} {locals locals' : List String}
    (hlayout : Token.layout (Token.Stream.ofSource source').tokens =
      Token.layout (Token.Stream.ofSource source).tokens)
    (hlocals : ∀ name, name ∈ locals' ↔ name ∈ locals) :
    SameResult (parse source locals) (parse source' locals') := by
  refine .of_layout hlayout fun name => ?_
  rw [Bool.eq_iff_iff, List.contains_iff_mem, List.contains_iff_mem]
  exact hlocals name

/-- A text that is accepted and one that is refused, each with other blanks and comments. -/
theorem parse_sameResult_reindented :
    SameResult (parse "a.b c, x\n\n (d)" ["x", "y"])
        (parse " a . b c ,x # y\n(\td )\n" ["y", "x", "x"]) ∧
      SameResult (parse "x = (1 2\n\n\ty )) @" [])
        (parse "\n  x  =( 1   2 # c\ny\r)  ) @" []) := by
  constructor
  · exact parse_sameResult (by decide +kernel) (by simp [or_comm])
  · exact parse_sameResult (by decide +kernel) (by simp)

end Garnet

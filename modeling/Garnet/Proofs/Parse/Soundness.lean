import Garnet.Proofs.Parse.Derivation

/-! # Faultless runs are derivations

A rule of the parser never takes a fault back. If a run notes none, every node it built on the way
is there, and the run is a derivation of the grammar. A missing node always comes with a fault, so
the bound on the nesting of rules, which is a fault when it is reached, needs no separate treatment.
-/

namespace Garnet.Parse

variable {α β : Type}

/-- A run of `p` from `s` keeps the faults noted so far, and if it notes no other, its result and
the state it ends in satisfy `post`. -/
def Reads (p : Parser α) (s : State) (post : α → State → Prop) : Prop :=
  s.issues.size ≤ (Prod.snd (p s)).issues.size ∧
    ((Prod.snd (p s)).issues.size = s.issues.size → post (Prod.fst (p s)) (Prod.snd (p s)))

namespace Reads

theorem pure {a : α} {s : State} {post : α → State → Prop} (h : post a s) :
    Reads (Pure.pure a) s post :=
  ⟨Nat.le_refl _, fun _ => h⟩

/-- What the first step promises may be used for what the second one owes. -/
theorem bind {p : Parser α} {f : α → Parser β} {s : State} {mid : α → State → Prop}
    {post : β → State → Prop} (hp : Reads p s mid)
    (hf : ∀ a t, Reads (f a) t fun b u => mid a t → post b u) : Reads (p >>= f) s post := by
  obtain ⟨hle, hmid⟩ := hp
  obtain ⟨hle', hpost⟩ := hf (Prod.fst (p s)) (Prod.snd (p s))
  refine ⟨Nat.le_trans hle hle', fun hsame => ?_⟩
  change (Prod.snd (f (Prod.fst (p s)) (Prod.snd (p s)))).issues.size = s.issues.size at hsame
  exact hpost (by omega) (hmid (by omega))

theorem pure_bind {a : α} {f : α → Parser β} {s : State} {post : β → State → Prop}
    (h : Reads (f a) s post) : Reads (Pure.pure a >>= f) s post := h

theorem weaken {p : Parser α} {s : State} {post post' : α → State → Prop} (hp : Reads p s post)
    (h : ∀ a t, post a t → post' a t) : Reads p s post' :=
  ⟨hp.1, fun hsame => h _ _ (hp.2 hsame)⟩

theorem current {f : Token → Parser β} {s : State} {post : β → State → Prop}
    (h : Reads (f s.current) s post) : Reads (Parse.current >>= f) s post := h

theorem peek {f : Token → Parser β} {s : State} {post : β → State → Prop}
    (h : Reads (f s.peek) s post) : Reads (Parse.peek >>= f) s post := h

theorem advance {f : Unit → Parser β} {s : State} {post : β → State → Prop}
    (h : Reads (f ()) s.next post) : Reads (Parse.advance >>= f) s post := h

theorem declare {name : String} {f : Unit → Parser β} {s : State} {post : β → State → Prop}
    (h : Reads (f ()) (s.declaring name) post) : Reads (Parse.declare name >>= f) s post := h

theorem isDeclared {name : String} {f : Bool → Parser β} {s : State} {post : β → State → Prop}
    (h : Reads (f (s.scope.contains name)) s post) : Reads (Parse.isDeclared name >>= f) s post := h

theorem opensArguments {f : Bool → Parser β} {s : State} {post : β → State → Prop}
    (h : Reads (f s.opensArguments) s post) : Reads (Parse.opensArguments >>= f) s post := h

theorem startsArguments {f : Bool → Parser β} {s : State} {post : β → State → Prop}
    (h : Reads (f s.startsArguments) s post) : Reads (Parse.startsArguments >>= f) s post := h

/-- After a fault nothing is owed but that it is kept. -/
theorem report {pos : Pos} {cause : Cause} {f : Unit → Parser β} {s : State}
    {post : β → State → Prop} (h : ∀ t, Reads (f ()) t fun _ _ => True) :
    Reads (Parse.report pos cause >>= f) s post := by
  have hle := (h { s with issues := s.issues.push ⟨pos, cause⟩ }).1
  rw [Array.size_push] at hle
  refine ⟨?_, fun hsame => ?_⟩
  · exact Nat.le_trans (Nat.le_succ _) hle
  · exact absurd (Nat.le_trans hle (Nat.le_of_eq hsame)) (Nat.not_succ_le_self _)

theorem reportExpected {token : Token} {what : Expectation} {f : Unit → Parser β} {s : State}
    {post : β → State → Prop} (h : ∀ t, Reads (f ()) t fun _ _ => True) :
    Reads (Parse.reportExpected token what >>= f) s post :=
  report h

theorem reportUnexpected {f : Unit → Parser β} {s : State} {post : β → State → Prop}
    (h : ∀ t, Reads (f ()) t fun _ _ => True) : Reads (Parse.reportUnexpected >>= f) s post :=
  report (s := s) h

/-- Either the next token is of the wanted kind and the parser goes there, or a fault is noted. -/
theorem expectNext {kind : Token.Kind} {f : Bool → Parser β} {s : State}
    {post : β → State → Prop} (hfound : s.peek.kind = kind → Reads (f true) s.next post)
    (hother : ∀ t, Reads (f false) t fun _ _ => True) :
    Reads (Parse.expectNext kind >>= f) s post := by
  by_cases h : s.peek.kind = kind
  · have hrun : (Parse.expectNext kind >>= f) s = f true s.next := by
      change ((if s.peek.kind = kind then _ else _ : Parser Bool) >>= f) s = _
      rw [if_pos h]
      rfl
    have hgo := hfound h
    rw [Reads] at hgo ⊢
    rw [hrun]
    exact hgo
  · have hrun : (Parse.expectNext kind >>= f) s =
        (Parse.reportExpected s.peek (.token kind) >>= fun _ => f false) s := by
      change ((if s.peek.kind = kind then _ else _ : Parser Bool) >>= f) s = _
      rw [if_neg h]
      rfl
    have hgo : Reads (Parse.reportExpected s.peek (.token kind) >>= fun _ => f false) s post :=
      reportExpected hother
    rw [Reads] at hgo ⊢
    rw [hrun]
    exact hgo

/-- A scope of its own is left in the end, whatever was declared in it. -/
theorem inScope {names : List String} {p : Parser α} {f : α → Parser β} {s : State}
    {mid : α → State → Prop} {post : β → State → Prop} (hp : Reads p (s.within names) mid)
    (hf : ∀ a t, Reads (f a) (t.within s.scope) fun b u => mid a t → post b u) :
    Reads (Parse.inScope names p >>= f) s post :=
  bind (p := p) (f := fun a t => f a (t.within s.scope)) (s := s.within names) hp hf

end Reads

/-- A rule found a node, and the grammar derives it. -/
def Finds (phrase : Node → Phrase) (s : State) (found : Option Node) (t : State) : Prop :=
  ∃ node, found = some node ∧ Derives (phrase node) s t

/-- A rule found nodes without a gap between them, and the grammar derives them. -/
def FindsAll (phrase : List Node → Phrase) (s : State) (found : List (Option Node)) (t : State) :
    Prop :=
  ∃ nodes, found = nodes.map some ∧ Derives (phrase nodes) s t

/-! ### Parameters and class paths -/

theorem paramNames_reads (depth : Nat) (s : State) :
    Reads (paramNames depth) s fun found t =>
      ∃ nodes, found = some nodes ∧ Derives (.paramNames nodes) s t := by
  induction depth generalizing s with
  | zero => exact .reportUnexpected fun _ => .pure trivial
  | succ depth ih =>
    rw [paramNames]
    refine .expectNext (fun hname => ?_) fun _ => .pure trivial
    refine .current (.peek ?_)
    split
    next hcomma => exact .pure ⟨_, rfl, .lastParam hname hcomma⟩
    next hcomma =>
      refine .advance (.bind (ih s.next.next) fun found t => .pure ?_)
      rintro ⟨nodes, rfl, rest⟩
      exact ⟨_, rfl, .nextParam hname (Decidable.not_not.1 hcomma) rest⟩

theorem params_reads (depth : Nat) (s : State) :
    Reads (params depth) s fun found t =>
      ∃ nodes, found = some nodes ∧ Derives (.params nodes) s t := by
  rw [params]
  refine .peek (.current ?_)
  change Reads (if s.opensArguments then _ else _) s _
  split
  next hparen =>
    refine .advance (.peek ?_)
    split
    next hclose => exact .advance (.pure ⟨_, rfl, .emptyParams hparen hclose⟩)
    next hopen =>
      apply Reads.bind (paramNames_reads depth s.next)
      intro found t
      cases found with
      | none =>
        apply Reads.pure
        rintro ⟨nodes, hnone, _⟩
        exact absurd hnone (by simp)
      | some nodes =>
        refine .expectNext (fun hclose => .pure ?_) fun _ => .pure trivial
        rintro ⟨_, hnodes, names⟩
        cases hnodes
        exact ⟨_, rfl, .closedParams hparen hopen names hclose⟩
  next hparen =>
    have hparen : s.opensArguments = false := by simpa using hparen
    split
    next hname =>
      have ⟨hkind, hclose⟩ : s.peek.kind = .ident ∧ s.nextIsClose = true := by
        simpa [State.nextIsClose] using hname
      refine (paramNames_reads depth s).weaken ?_
      rintro _ t ⟨nodes, rfl, names⟩
      exact ⟨_, rfl, .openParams hparen hkind hclose names⟩
    next hname =>
      have hname : s.peek.kind ≠ .ident ∨ s.nextIsClose = false := by
        simpa [Decidable.or_iff_not_imp_left, State.nextIsClose] using hname
      exact .pure ⟨_, rfl, .noParams hparen hname⟩

theorem classPath_reads (depth : Nat) (outer : Node) (s : State) :
    Reads (classPath depth outer) s (Finds (.classPath outer) s) := by
  induction depth generalizing outer s with
  | zero => exact .reportUnexpected fun _ => .pure trivial
  | succ depth ih =>
    rw [classPath]
    apply Reads.peek
    split
    next hkind => exact .pure ⟨_, rfl, .pathEnd hkind⟩
    next hkind =>
      refine .advance (.expectNext (fun hname => ?_) fun _ => .pure trivial)
      refine .current ((ih _ s.next.next).weaken ?_)
      rintro _ t ⟨path, rfl, steps⟩
      exact ⟨_, rfl, .pathStep (Decidable.not_not.1 hkind) hname steps⟩

/-! ### Statements and expressions -/

/-- What the rules promise for a given bound on their nesting. -/
structure Rules (depth : Nat) : Prop where
  statements (stop : Option Token.Kind) (previous : Option Int) (s : State) :
    Reads (statements stop depth previous) s fun nodes =>
      Derives (.statements stop previous nodes) s
  statement (s : State) : Reads (statement depth) s (Finds .statement s)
  classStatement (s : State) : Reads (classStatement depth) s (Finds .classStatement s)
  defStatement (s : State) : Reads (defStatement depth) s (Finds .defStatement s)
  expression (least : Nat) (s : State) :
    Reads (expression depth least) s (Finds (.expression least) s)
  continuation (least : Nat) (left : Option Node) (s : State) :
    Reads (continuation depth least left) s fun found t =>
      ∀ node, left = some node → Finds (.continuation least node) s found t
  member (receiver : Option Node) (s : State) :
    Reads (member depth receiver) s fun found t =>
      ∀ node, receiver = some node → Finds (.member node) s found t
  primary (s : State) : Reads (primary depth) s (Finds .primary s)
  callArguments (s : State) : Reads (callArguments depth) s (FindsAll .callArguments s)
  argumentList (s : State) : Reads (argumentList depth) s (FindsAll .argumentList s)

/-- Besides operators and the dot, only the scope resolution binds an expression. -/
theorem eq_scope_of_precedence {kind : Token.Kind} (hpos : 0 < precedence kind)
    (hop : ∀ operator, kind ≠ .op operator) (hdot : kind ≠ .dot) : kind = .scope := by
  cases kind with
  | op operator => exact absurd rfl (hop operator)
  | dot => exact absurd rfl hdot
  | scope => rfl
  | _ => exact absurd hpos (Nat.lt_irrefl 0)

/-- A literal is the leaf of its token, unless it denotes nothing, which is a fault. -/
theorem literalNode_reads {kind : Node.Kind} {child : α → Child} {value : Option α}
    {otherwise : Cause} {s : State}
    (hleaf : leaf? s.current = value.map fun v => .mk kind [child v] s.current.pos) :
    Reads (literalNode kind child value otherwise) s (Finds .primary s) := by
  apply Reads.current
  cases value with
  | none => exact .report fun _ => .pure trivial
  | some v => exact .pure ⟨_, rfl, .leaf hleaf⟩

namespace Rules

variable {depth : Nat}

theorem statements_succ (rules : Rules depth) (stop : Option Token.Kind) (previous : Option Int)
    (s : State) :
    Reads (Parse.statements stop (depth + 1) previous) s fun nodes =>
      Derives (.statements stop previous nodes) s := by
  rw [Parse.statements]
  apply Reads.current
  split
  next hkind =>
    refine .advance ((rules.statements stop none s.next).weaken ?_)
    intro nodes t rest
    exact .semicolon hkind rest
  next hkind =>
    split
    next hend => exact .pure (.noStatement hkind (by simpa using hend))
    next hend =>
      have ⟨heof, hstop⟩ : s.current.kind ≠ .eof ∧ some s.current.kind ≠ stop := by
        simpa using hend
      split
      next hline =>
        -- Two statements on one line are a fault, so nothing has to be derived.
        refine .report fun t => .bind (rules.statement t) fun _ u => .current (.advance ?_)
        exact .bind (rules.statements stop _ u.next) fun _ _ => .pure fun _ _ => trivial
      next hline =>
        refine .bind (rules.statement s) fun found t => .current (.advance ?_)
        refine .bind (rules.statements stop _ t.next) fun nodes u => .pure ?_
        rintro rest ⟨node, rfl, first⟩
        exact .nextStatement hkind heof hstop hline first rest

theorem statement_succ (rules : Rules depth) (s : State) :
    Reads (Parse.statement (depth + 1)) s (Finds .statement s) := by
  rw [Parse.statement]
  apply Reads.current
  split
  next hkind =>
    refine (rules.classStatement s).weaken ?_
    rintro _ t ⟨node, rfl, inner⟩
    exact ⟨_, rfl, .classStatement hkind inner⟩
  next hkind =>
    refine (rules.defStatement s).weaken ?_
    rintro _ t ⟨node, rfl, inner⟩
    exact ⟨_, rfl, .defStatement hkind inner⟩
  next hclass hdef =>
    refine (rules.expression 0 s).weaken ?_
    rintro _ t ⟨node, rfl, inner⟩
    exact ⟨_, rfl, .simple hclass hdef inner⟩

theorem classStatement_succ (rules : Rules depth) (s : State) :
    Reads (Parse.classStatement (depth + 1)) s (Finds .classStatement s) := by
  rw [Parse.classStatement]
  refine .current (.expectNext (fun hname => ?_) fun _ => .pure trivial)
  refine .current (.bind (classPath_reads depth _ s.next) fun found t => ?_)
  cases found with
  | none =>
    apply Reads.pure
    rintro ⟨_, hnone, _⟩
    exact absurd hnone (by simp)
  | some path =>
    apply Reads.peek
    extract_lets rest
    -- What follows is the same with and without a superclass.
    have rest_reads (parent : Option Node) (u : State) : Reads (rest parent) u fun found v =>
        Derives (.superclass parent) t u →
          Derives (.classPath (.mk .const [.absent, .sym s.peek.literal] s.peek.pos) path)
            s.next t →
          Finds .classStatement s found v := by
      refine .advance (.inScope (rules.statements _ none (u.next.within [])) fun body v => ?_)
      apply Reads.current
      split
      next hend => exact .reportExpected fun _ => .pure trivial
      next hend =>
        apply Reads.pure
        intro inner above steps
        exact ⟨_, rfl, .classDef (u := u) hname steps above inner (Decidable.not_not.1 hend)⟩
    split
    next hkind =>
      refine .advance (.advance (.bind (rules.expression 0 t.next.next) fun parent u => ?_))
      refine (rest_reads parent u).weaken ?_
      rintro found v hrest ⟨node, rfl, inner⟩ ⟨_, hpath, steps⟩
      cases hpath
      exact hrest (.superclass hkind inner) steps
    next hkind =>
      refine .pure_bind ((rest_reads none t).weaken ?_)
      rintro found v hrest ⟨_, hpath, steps⟩
      cases hpath
      exact hrest (.noSuperclass hkind) steps

theorem defStatement_succ (rules : Rules depth) (s : State) :
    Reads (Parse.defStatement (depth + 1)) s (Finds .defStatement s) := by
  rw [Parse.defStatement]
  refine .current (.advance (.current (.peek ?_)))
  extract_lets named
  -- First what follows the owner, then the owner: both ways to write it lead to the name.
  have named_reads : ∀ {singleton t}, Derives (.owner singleton) s.next t →
      Reads (named singleton) t (Finds .defStatement s) := by
    intro singleton t front
    apply Reads.current
    split
    next hname => exact .reportExpected fun _ => .pure trivial
    next hname =>
      have hname : namesMethod t.current.kind = true := by simpa using hname
      refine .peek (.peek ?_)
      extract_lets setter name rest
      have rest_reads {u : State} (found : Derives (.methodName name) t u) :
          Reads (rest ()) u (Finds .defStatement s) := by
        refine .peek (.bind (params_reads depth u) fun listed v => ?_)
        cases listed with
        | none =>
          apply Reads.pure
          rintro ⟨_, hnone, _⟩
          exact absurd hnone (by simp)
        | some parameters =>
          refine .advance (.inScope (rules.statements _ none _) fun body w => .current ?_)
          split
          next hend => exact .reportExpected fun _ => .pure trivial
          next hend =>
            apply Reads.pure
            rintro inner ⟨_, hparameters, listed⟩
            cases hparameters
            exact ⟨_, rfl, .methodDef (v := v) front found listed inner (Decidable.not_not.1 hend)⟩
      split
      next hsetter =>
        refine .advance (rest_reads ?_)
        rw [show name = t.current.literal ++ "=" from if_pos hsetter]
        exact .setterName hname hsetter
      next hsetter =>
        apply rest_reads
        rw [show name = t.current.literal from if_neg hsetter]
        exact .plainName hname (Bool.eq_false_iff.2 hsetter)
  clear_value named
  split
  next hself =>
    have ⟨hself, hdot⟩ : s.next.current.kind = .keyword .selfWord ∧ s.next.peek.kind = .dot := by
      simpa using hself
    refine .current (.advance (.advance (.pure_bind ?_)))
    exact named_reads (.selfOwner hself hdot)
  next hself => exact .pure_bind (named_reads (.noOwner (by simpa using hself)))

theorem expression_succ (rules : Rules depth) (least : Nat) (s : State) :
    Reads (Parse.expression (depth + 1) least) s (Finds (.expression least) s) := by
  rw [Parse.expression]
  apply Reads.current
  split
  next hkind =>
    refine .bind (rules.primary s) fun left t => (rules.continuation least left t).weaken ?_
    rintro found u hrest ⟨left, rfl, first⟩
    obtain ⟨node, rfl, rest⟩ := hrest left rfl
    exact ⟨_, rfl, .expression hkind first rest⟩
  next hkind => exact .reportUnexpected fun _ => .pure trivial

theorem continuation_succ (rules : Rules depth) (least : Nat) (left : Option Node) (s : State) :
    Reads (Parse.continuation (depth + 1) least left) s fun found t =>
      ∀ node, left = some node → Finds (.continuation least node) s found t := by
  rw [Parse.continuation]
  apply Reads.peek
  split
  next hleast =>
    have hstop : s.continues least = false :=
      Bool.eq_false_iff.2 fun hgo => absurd (State.continues_iff.1 hgo).1 (Nat.not_lt_of_le hleast)
    exact .pure fun node hleft => ⟨node, hleft, .done hstop⟩
  next hleast =>
    apply Reads.current
    split
    next hline =>
      have ⟨hfar, hdot⟩ : s.nextIsClose = false ∧ s.peek.kind ≠ .dot := by
        simpa [State.nextIsClose] using hline
      have hstop : s.continues least = false := by
        simp [State.continues, hfar, hdot]
      exact .pure fun node hleft => ⟨node, hleft, .done hstop⟩
    next hline =>
      have hclose : s.nextIsClose = true ∨ s.peek.kind = .dot := by
        simpa [State.nextIsClose, Decidable.imp_iff_not_or] using hline
      have hgo : s.continues least = true :=
        State.continues_iff.2 ⟨Nat.lt_of_not_le hleast, hclose⟩
      apply Reads.advance
      split
      next operator hkind =>
        refine .advance (.bind (rules.expression operator.precedence s.next.next) fun right t => ?_)
        refine (rules.continuation least _ t).weaken ?_
        rintro found u hrest ⟨right, rfl, operand⟩ node rfl
        obtain ⟨result, rfl, rest⟩ := hrest _ rfl
        exact ⟨_, rfl, .operation hgo hkind operand rest⟩
      next hkind =>
        apply Reads.bind (rules.member left s.next)
        intro inner t
        refine (rules.continuation least inner t).weaken ?_
        rintro found u hrest hnamed node rfl
        obtain ⟨inner, rfl, named⟩ := hnamed node rfl
        obtain ⟨result, rfl, rest⟩ := hrest inner rfl
        exact ⟨_, rfl, .access hgo hkind named rest⟩
      next hop hdot =>
        have hkind : s.peek.kind = .scope := eq_scope_of_precedence (by omega) hop hdot
        refine .expectNext (fun hname => ?_) fun t => ?_
        · refine .current ((rules.continuation least _ s.next.next).weaken ?_)
          rintro found u hrest node rfl
          obtain ⟨result, rfl, rest⟩ := hrest _ rfl
          exact ⟨_, rfl, .resolution hgo hkind hname rest⟩
        · exact (rules.continuation least none t).weaken fun _ _ _ => trivial

theorem member_succ (rules : Rules depth) (receiver : Option Node) (s : State) :
    Reads (Parse.member (depth + 1) receiver) s fun found t =>
      ∀ node, receiver = some node → Finds (.member node) s found t := by
  rw [Parse.member]
  refine .advance (.current ?_)
  split
  next hname => exact .reportExpected fun _ => .pure trivial
  next hname =>
    have hname : namesMethod s.peek.kind = true := by simpa [State.current_next] using hname
    apply Reads.peek
    split
    next hassign =>
      refine .advance (.advance (.bind (rules.expression 0 _) fun value t => .pure ?_))
      rintro ⟨value, rfl, inner⟩ node rfl
      exact ⟨_, rfl, .memberAssign hname hassign inner⟩
    next hassign =>
      refine .bind (rules.callArguments s.next) fun args t => .pure ?_
      rintro ⟨nodes, rfl, inner⟩ node rfl
      exact ⟨_, rfl, .memberCall hname hassign inner⟩

theorem primary_succ (rules : Rules depth) (s : State) :
    Reads (Parse.primary (depth + 1)) s (Finds .primary s) := by
  rw [Parse.primary]
  refine .current (.peek ?_)
  dsimp only
  split
  next hkind =>
    split
    next hassign =>
      apply Reads.bind (.advance (.advance (rules.expression 0 s.next.next)))
      intro value t
      refine .declare (.pure ?_)
      rintro ⟨value, rfl, inner⟩
      exact ⟨_, rfl, .localAssign hkind hassign inner⟩
    next hassign =>
      refine .isDeclared (.opensArguments ?_)
      split
      next hlocal =>
        have ⟨hknown, hparen⟩ : s.current.literal ∈ s.scope ∧ s.opensArguments = false := by
          simpa using hlocal
        exact .pure ⟨_, rfl, .localRef hkind hassign hknown hparen⟩
      next hlocal =>
        have hcall : s.current.literal ∉ s.scope ∨ s.opensArguments = true := by
          simpa [Decidable.or_iff_not_imp_left] using hlocal
        refine .bind (rules.callArguments s) fun args t => .pure ?_
        rintro ⟨nodes, rfl, inner⟩
        exact ⟨_, rfl, .call hkind hassign hcall inner⟩
  next hkind =>
    split
    next hassign =>
      refine .bind (.advance (.advance (rules.expression 0 s.next.next))) fun value t => .pure ?_
      rintro ⟨value, rfl, inner⟩
      exact ⟨_, rfl, .constAssign hkind hassign inner⟩
    next hassign => exact .pure ⟨_, rfl, .const hkind hassign⟩
  next hkind =>
    split
    next hassign =>
      refine .bind (.advance (.advance (rules.expression 0 s.next.next))) fun value t => .pure ?_
      rintro ⟨value, rfl, inner⟩
      exact ⟨_, rfl, .ivarAssign hkind hassign inner⟩
    next hassign => exact .pure ⟨_, rfl, .ivarRef hkind hassign⟩
  next hkind => exact literalNode_reads (by simp [leaf?, hkind])
  next hkind => exact literalNode_reads (by simp [leaf?, hkind])
  next hkind => exact .pure ⟨_, rfl, .leaf (by simp [leaf?, hkind])⟩
  next hkind => exact .pure ⟨_, rfl, .leaf (by simp [leaf?, hkind])⟩
  next hkind => exact .pure ⟨_, rfl, .leaf (by simp [leaf?, hkind])⟩
  next hkind => exact .pure ⟨_, rfl, .leaf (by simp [leaf?, hkind])⟩
  next hkind => exact .pure ⟨_, rfl, .leaf (by simp [leaf?, hkind])⟩
  next hkind => exact .pure ⟨_, rfl, .leaf (by simp [leaf?, hkind])⟩
  next hkind =>
    refine .advance (.bind (rules.statements _ none s.next) fun nodes t => .current ?_)
    split
    next hclose => exact .reportExpected fun _ => .pure trivial
    next hclose =>
      apply Reads.pure
      intro inner
      exact ⟨_, rfl, .group hkind inner (Decidable.not_not.1 hclose)⟩
  next => exact .reportUnexpected fun _ => .pure trivial

theorem callArguments_succ (rules : Rules depth) (s : State) :
    Reads (Parse.callArguments (depth + 1)) s (FindsAll .callArguments s) := by
  rw [Parse.callArguments]
  apply Reads.opensArguments
  split
  next hparen =>
    refine .advance (.advance (.current ?_))
    split
    next hclose => exact .pure ⟨[], rfl, .emptyArguments hparen hclose⟩
    next hopen =>
      apply Reads.bind (rules.argumentList s.next.next)
      intro args t
      refine .expectNext (fun hclose => .pure ?_) fun _ => .pure trivial
      rintro ⟨nodes, rfl, inner⟩
      exact ⟨_, rfl, .closedArguments hparen hopen inner hclose⟩
  next hparen =>
    have hparen : s.opensArguments = false := by simpa using hparen
    apply Reads.startsArguments
    split
    next hstart =>
      refine .advance ((rules.argumentList s.next).weaken ?_)
      rintro _ t ⟨nodes, rfl, inner⟩
      exact ⟨_, rfl, .openArguments hparen hstart inner⟩
    next hstart => exact .pure ⟨[], rfl, .noArguments hparen (by simpa using hstart)⟩

theorem argumentList_succ (rules : Rules depth) (s : State) :
    Reads (Parse.argumentList (depth + 1)) s (FindsAll .argumentList s) := by
  rw [Parse.argumentList]
  refine .bind (rules.expression 0 s) fun first t => .peek ?_
  split
  next hcomma =>
    refine .advance (.advance (.bind (rules.argumentList t.next.next) fun args u => .pure ?_))
    rintro ⟨nodes, rfl, rest⟩ ⟨node, rfl, inner⟩
    exact ⟨_ :: _, rfl, .nextArgument inner hcomma rest⟩
  next hcomma =>
    apply Reads.pure
    rintro ⟨node, rfl, inner⟩
    exact ⟨[_], rfl, .lastArgument inner hcomma⟩

end Rules

/-- Whatever the bound on the nesting of rules, a faultless run is a derivation. -/
theorem rules (depth : Nat) : Rules depth := by
  induction depth with
  | zero =>
    constructor
    -- At the bound every rule reports a fault.
    all_goals
      intros
      exact .reportUnexpected fun _ => .pure trivial
  | succ depth ih =>
    exact
      { statements := ih.statements_succ
        statement := ih.statement_succ
        classStatement := ih.classStatement_succ
        defStatement := ih.defStatement_succ
        expression := ih.expression_succ
        continuation := ih.continuation_succ
        member := ih.member_succ
        primary := ih.primary_succ
        callArguments := ih.callArguments_succ
        argumentList := ih.argumentList_succ }

/-- The tree of an accepted program is the body of statements that the grammar derives. -/
theorem derives_of_program {stream : Token.Stream} {locals : List String}
    (h : (program stream locals).2 = []) :
    ∃ nodes t, (program stream locals).1 = wrapBody nodes ∧
      Derives (.statements none none nodes) (State.initial stream locals) t := by
  have hreads := (rules (depthBound stream.tokens.length)).statements none none
    (State.initial stream locals)
  refine ⟨_, _, rfl, hreads.2 ?_⟩
  have hissues : (Prod.snd (statements none (depthBound stream.tokens.length) none
      (State.initial stream locals))).issues.toList = [] := h
  rw [Array.toList_eq_nil_iff.1 hissues]
  rfl

end Garnet.Parse

namespace Garnet

open Parse

/-- An accepted source text has a derivation. -/
theorem derives_of_parse {source : String} {locals : List String} {tree : Option Node}
    (h : parse source locals = .ok tree) :
    ∃ nodes t, tree = wrapBody nodes ∧
      Derives (.statements none none nodes) (State.initial (.ofSource source) locals) t := by
  rw [parse_eq_ok_iff] at h
  obtain ⟨nodes, t, hbody, hderives⟩ := derives_of_program (congrArg Prod.snd h)
  rw [h] at hbody
  exact ⟨nodes, t, hbody, hderives⟩

end Garnet

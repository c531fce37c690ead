import Garnet.Proofs.Parse.Soundness

/-! # Derivations are faultless runs

What the grammar derives, the parser reads without a fault and with the same nodes. The bound on the
nesting of rules has to be large enough for this. Every rule has a rank, and a rule that is used
before the parser moves on has a smaller rank than the one that uses it; each token therefore pays
for the ranks of the rules between it and the next one.
-/

namespace Garnet.Parse

variable {α β : Type}

/-! ### What derivations do to the state -/

theorem State.length_next (s : State) : s.next.tokens.length = s.tokens.length - 1 :=
  List.length_tail

/-- Reading moves on and never back. -/
theorem Derives.length_le {phrase : Phrase} {s t : State} (h : Derives phrase s t) :
    t.tokens.length ≤ s.tokens.length := by
  induction h <;> grind [State.length_next, State.within_tokens, State.declaring_tokens]

theorem Derives.issues_eq {phrase : Phrase} {s t : State} (h : Derives phrase s t) :
    t.issues = s.issues := by
  induction h <;> simp_all

/-- Only the end of a text lies behind its last token. -/
theorem State.one_le_length {s : State} (h : s.current.kind ≠ .eof) : 1 ≤ s.tokens.length := by
  unfold State.current at h
  cases htokens : s.tokens with
  | nil =>
    rw [htokens] at h
    exact absurd rfl h
  | cons => simp

theorem State.two_le_length {s : State} (h : s.peek.kind ≠ .eof) : 2 ≤ s.tokens.length := by
  have hnext := State.one_le_length (s := s.next) h
  rw [State.length_next] at hnext
  omega

/-! ### Runs with a known outcome -/

/-- A run of `p` from `s` ends with `a` in `t`. -/
def Yields (p : Parser α) (s : State) (a : α) (t : State) : Prop :=
  p s = (a, t)

namespace Yields

variable {s t u : State} {a : α} {b : β}

theorem pure : Yields (Pure.pure a) s a s := rfl

theorem bind {p : Parser α} {f : α → Parser β} (hp : Yields p s a t) (hf : Yields (f a) t b u) :
    Yields (p >>= f) s b u := by
  unfold Yields at *
  change (f (Prod.fst (p s)) (Prod.snd (p s))) = _
  rw [hp]
  exact hf

theorem ite_pos {c : Prop} [Decidable c] {p q : Parser α} (hc : c) (hp : Yields p s a t) :
    Yields (if c then p else q) s a t := by
  rw [if_pos hc]
  exact hp

theorem ite_neg {c : Prop} [Decidable c] {p q : Parser α} (hc : ¬ c) (hq : Yields q s a t) :
    Yields (if c then p else q) s a t := by
  rw [if_neg hc]
  exact hq

theorem current {f : Token → Parser β} (h : Yields (f s.current) s b t) :
    Yields (Parse.current >>= f) s b t := h

theorem peek {f : Token → Parser β} (h : Yields (f s.peek) s b t) :
    Yields (Parse.peek >>= f) s b t := h

theorem advance {f : Unit → Parser β} (h : Yields (f ()) s.next b t) :
    Yields (Parse.advance >>= f) s b t := h

theorem declare {name : String} {f : Unit → Parser β} (h : Yields (f ()) (s.declaring name) b t) :
    Yields (Parse.declare name >>= f) s b t := h

theorem isDeclared {name : String} {f : Bool → Parser β}
    (h : Yields (f (s.scope.contains name)) s b t) :
    Yields (Parse.isDeclared name >>= f) s b t := h

theorem opensArguments {f : Bool → Parser β} (h : Yields (f s.opensArguments) s b t) :
    Yields (Parse.opensArguments >>= f) s b t := h

theorem startsArguments {f : Bool → Parser β} (h : Yields (f s.startsArguments) s b t) :
    Yields (Parse.startsArguments >>= f) s b t := h

theorem expectNext {kind : Token.Kind} {f : Bool → Parser β} (hkind : s.peek.kind = kind)
    (h : Yields (f true) s.next b t) : Yields (Parse.expectNext kind >>= f) s b t := by
  change ((if s.peek.kind = kind then _ else _ : Parser Bool) >>= f) s = _
  rw [if_pos hkind]
  exact h

theorem inScope {names : List String} {p : Parser α} {f : α → Parser β}
    (hp : Yields p (s.within names) a t) (hf : Yields (f a) (t.within s.scope) b u) :
    Yields (Parse.inScope names p >>= f) s b u :=
  bind (f := fun a t => f a (t.within s.scope)) hp hf

end Yields

/-! ### The phrases as runs -/

/-- How many rules may be used in each other, with this one, before the parser moves on. -/
def Phrase.rank : Phrase → Nat
  | .statements .. => 5
  | .statement _ => 4
  | .argumentList _ => 4
  | .expression .. => 3
  | .primary _ => 2
  | .classStatement _ | .classPath .. | .superclass _ | .defStatement _ | .owner _ | .methodName _
  | .params _ | .paramNames _ | .continuation .. | .member .. | .callArguments _ => 1

/-- The parser reads a phrase as it is derived. The parts of a definition that are no rules of their
own are read by the rule for the definition. -/
def Phrase.IsRead (depth : Nat) (s t : State) : Phrase → Prop
  | .statements stop previous found => Yields (Parse.statements stop depth previous) s found t
  | .statement found => Yields (Parse.statement depth) s (some found) t
  | .classStatement found => Yields (Parse.classStatement depth) s (some found) t
  | .classPath outer found => Yields (Parse.classPath depth outer) s (some found) t
  | .superclass found => ∀ node ∈ found, Yields (Parse.expression depth 0) s.next.next (some node) t
  | .defStatement found => Yields (Parse.defStatement depth) s (some found) t
  | .owner _ => True
  | .methodName _ => True
  | .params found => Yields (Parse.params depth) s (some found) t
  | .paramNames found => Yields (Parse.paramNames depth) s (some found) t
  | .expression least found => Yields (Parse.expression depth least) s (some found) t
  | .continuation least left found =>
    Yields (Parse.continuation depth least (some left)) s (some found) t
  | .member receiver found => Yields (Parse.member depth (some receiver)) s (some found) t
  | .primary found => Yields (Parse.primary depth) s (some found) t
  | .callArguments found => Yields (Parse.callArguments depth) s (found.map some) t
  | .argumentList found => Yields (Parse.argumentList depth) s (found.map some) t

/-! ### Single rules -/

section Rules

variable {depth : Nat} {s t u v : State}

theorem classStatement_yields {path : Node} {parent : Option Node} {body : List Node}
    (hname : s.peek.kind = .constant)
    (steps : Yields (classPath depth (.mk .const [.absent, .sym s.peek.literal] s.peek.pos)) s.next
      (some path) t)
    (above : Derives (.superclass parent) t u)
    (hparent : ∀ node ∈ parent, Yields (expression depth 0) t.next.next (some node) u)
    (inner : Yields (statements (some (.keyword .endWord)) depth none) (u.next.within []) body v)
    (hend : v.current.kind = .keyword .endWord) :
    Yields (classStatement (depth + 1)) s (some (.mk .classDef
      [.node path, Child.ofNode? parent, Child.ofNode? (wrapBody body)] s.current.pos))
      (v.within u.scope) := by
  rw [classStatement]
  refine .current (.expectNext hname (.current (.bind steps (.peek ?_))))
  extract_lets rest
  have hrest : Yields (rest parent) u (some (.mk .classDef
      [.node path, Child.ofNode? parent, Child.ofNode? (wrapBody body)] s.current.pos))
      (v.within u.scope) := by
    exact .advance (.inScope inner (.current (.ite_neg (not_not_intro hend) .pure)))
  clear_value rest
  cases above with
  | noSuperclass hkind => exact .ite_neg hkind (.bind .pure hrest)
  | superclass hkind => exact .ite_pos hkind (.advance (.advance (.bind (hparent _ rfl) hrest)))

theorem defStatement_yields {singleton : Option Node} {name : String} {parameters body : List Node}
    {w : State} (front : Derives (.owner singleton) s.next t)
    (named : Derives (.methodName name) t u)
    (listed : Yields (params depth) u (some parameters) v)
    (inner : Yields (statements (some (.keyword .endWord)) depth none)
      (v.next.within (declaredNames parameters)) body w)
    (hend : w.current.kind = .keyword .endWord) :
    Yields (defStatement (depth + 1)) s (some (defNode s.current.pos singleton
      [.sym name, .node (.mk .params (parameters.map .node) u.peek.pos),
        Child.ofNode? (wrapBody body)])) (w.within v.scope) := by
  rw [defStatement]
  refine .current (.advance (.current (.peek ?_)))
  extract_lets rest
  have hrest : Yields (rest singleton) t (some (defNode s.current.pos singleton
      [.sym name, .node (.mk .params (parameters.map .node) u.peek.pos),
        Child.ofNode? (wrapBody body)])) (w.within v.scope) := by
    have hname : namesMethod t.current.kind = true := by cases named <;> assumption
    refine .current (.ite_neg (by simp [hname]) (.peek (.peek ?_)))
    extract_lets setter found tail
    have htail (hfound : found = name) : Yields (tail ()) u (some (defNode s.current.pos singleton
        [.sym name, .node (.mk .params (parameters.map .node) u.peek.pos),
          Child.ofNode? (wrapBody body)])) (w.within v.scope) := by
      rw [← hfound]
      refine .peek (.bind listed (.advance (.inScope inner (.current ?_))))
      refine .ite_neg (not_not_intro hend) ?_
      cases singleton with
      | none => exact .pure
      | some owner => exact .pure
    clear_value tail
    cases named with
    | plainName _ hsetter =>
      have hset : ¬ setter = true := Bool.eq_false_iff.1 hsetter
      exact .ite_neg hset (htail (if_neg hset))
    | setterName _ hsetter => exact .ite_pos hsetter (.advance (htail (if_pos hsetter)))
  clear_value rest
  cases front with
  | noOwner hkind => exact .ite_neg (by simpa using hkind) (.bind .pure hrest)
  | selfOwner hself hdot =>
    exact .ite_pos (by simp [hself, hdot]) (.current (.advance (.advance (.bind .pure hrest))))

/-- An expression that goes on, by what comes next. -/
theorem continuation_yields {least : Nat} {left node : Node} (hgo : s.continues least = true)
    (h : Yields (match s.peek.kind with
      | .op operator => do
        advance
        let right ← expression depth operator.precedence
        let left ← pure (some (sendNode s.peek.pos (some left) operator.text [right]))
        continuation depth least left
      | .dot => do
        let left ← member depth (some left)
        continuation depth least left
      | _ => do
        if ← expectNext .constant then
          let name := (← current).literal
          let left ← pure (some (.mk .const [Child.ofNode? (some left), .sym name] s.peek.pos))
          continuation depth least left
        else
          let left ← pure none
          continuation depth least left) s.next (some node) t) :
    Yields (continuation (depth + 1) least (some left)) s (some node) t := by
  obtain ⟨hleast, hclose⟩ := State.continues_iff.1 hgo
  rw [continuation]
  refine .peek (.ite_neg (Nat.not_le_of_lt hleast) (.current (.ite_neg ?_ (.advance h))))
  simpa [State.nextIsClose, Decidable.imp_iff_not_or] using hclose

theorem literalNode_yields {kind : Node.Kind} {child : α → Child} {value : Option α}
    {otherwise : Cause} {found : α} (hvalue : value = some found) :
    Yields (literalNode kind child value otherwise) s
      (some (.mk kind [child found] s.current.pos)) s := by
  rw [hvalue]
  exact .current .pure

theorem primary_yields_leaf {node : Node} (hleaf : leaf? s.current = some node) :
    Yields (primary (depth + 1)) s (some node) s := by
  rw [primary]
  refine .current (.peek ?_)
  unfold leaf? at hleaf
  split at hleaf
  next hkind =>
    obtain ⟨value, hvalue, rfl⟩ := Option.map_eq_some_iff.1 hleaf
    rw [hkind]
    exact literalNode_yields hvalue
  next hkind =>
    obtain ⟨value, hvalue, rfl⟩ := Option.map_eq_some_iff.1 hleaf
    rw [hkind]
    exact literalNode_yields hvalue
  next hkind =>
    cases hleaf
    rw [hkind]
    exact .pure
  next hkind =>
    cases hleaf
    rw [hkind]
    exact .pure
  next hkind =>
    cases hleaf
    rw [hkind]
    exact .pure
  next hkind =>
    cases hleaf
    rw [hkind]
    exact .pure
  next hkind =>
    cases hleaf
    rw [hkind]
    exact .pure
  next hkind =>
    cases hleaf
    rw [hkind]
    exact .pure
  next => exact absurd hleaf (by simp)

end Rules

theorem Phrase.exists_succ {phrase : Phrase} {length depth : Nat}
    (h : phrase.rank + 8 * length ≤ depth) : ∃ below, depth = below + 1 := by
  have hrank : 1 ≤ phrase.rank := by cases phrase <;> simp [Phrase.rank]
  exact ⟨depth - 1, by omega⟩

/-- With enough depth, what is derived is read. -/
theorem Derives.isRead {phrase : Phrase} {s t : State} (h : Derives phrase s t) {depth : Nat}
    (hdepth : phrase.rank + 8 * s.tokens.length ≤ depth) : phrase.IsRead depth s t := by
  -- The bound is spent on the rank of the phrase and on the tokens in front of the parser: a rule
  -- used at the same token has a smaller rank, and one used later has a token less to pay for.
  induction h generalizing depth with
    (obtain ⟨below, rfl⟩ := Phrase.exists_succ hdepth; simp only [Phrase.rank] at hdepth)
  | noStatement hkind hend =>
    rw [Phrase.IsRead, statements]
    exact .current (.ite_neg hkind (.ite_pos (by simpa using hend) .pure))
  | @semicolon stop previous nodes s t hkind rest ih =>
    have hlength := s.one_le_length (by simp [hkind])
    rw [Phrase.IsRead, statements]
    refine .current (.ite_pos hkind (.advance (ih ?_)))
    rw [s.length_next, Phrase.rank]
    omega
  | @nextStatement stop previous node nodes s t u hkind heof hstop hline first rest ihfirst
      ihrest =>
    have hlength := s.one_le_length heof
    have hafter := first.length_le
    have hend :
        ¬ (decide (s.current.kind = .eof) || decide (some s.current.kind = stop)) = true := by
      simp [heof, hstop]
    rw [Phrase.IsRead, statements]
    refine .current (.ite_neg hkind (.ite_neg hend (.ite_neg hline (.bind (ihfirst ?_)
      (.current (.advance (.bind (ihrest ?_) .pure)))))))
    · rw [Phrase.rank]
      omega
    · rw [t.length_next, Phrase.rank]
      omega
  | @classStatement node s t hkind inner ih =>
    rw [Phrase.IsRead, statement]
    apply Yields.current
    rw [hkind]
    apply ih
    rw [Phrase.rank]
    omega
  | @defStatement node s t hkind inner ih =>
    rw [Phrase.IsRead, statement]
    apply Yields.current
    rw [hkind]
    apply ih
    rw [Phrase.rank]
    omega
  | @simple node s t hclass hdef inner ih =>
    rw [Phrase.IsRead, statement]
    apply Yields.current
    split
    next hkind => exact absurd hkind hclass
    next hkind => exact absurd hkind hdef
    next =>
      apply ih
      rw [Phrase.rank]
      omega
  | @classDef path parent body s t u v hname steps above inner hend ihsteps ihabove ihinner =>
    have hlength := s.two_le_length (by simp [hname])
    have hsteps := steps.length_le
    have habove := above.length_le
    rw [s.length_next] at hsteps
    refine classStatement_yields hname (ihsteps ?_) above (ihabove ?_) (ihinner ?_) hend
    · rw [s.length_next, Phrase.rank]
      omega
    · rw [Phrase.rank]
      omega
    · rw [State.within_tokens, u.length_next, Phrase.rank]
      omega
  | pathEnd hkind =>
    rw [Phrase.IsRead, classPath]
    exact .peek (.ite_pos hkind .pure)
  | @pathStep outer path s t hkind hname steps ih =>
    have hlength := s.two_le_length (by simp [hkind])
    rw [Phrase.IsRead, classPath]
    refine .peek (.ite_neg (not_not_intro hkind) (.advance (.expectNext hname (.current (ih ?_)))))
    rw [State.length_next, State.length_next, Phrase.rank]
    omega
  | noSuperclass => exact fun _ hnode => absurd hnode (by simp)
  | @superclass node s t hkind inner ih =>
    have hlength := s.two_le_length (by simp [hkind])
    intro found hfound
    cases hfound
    apply ih
    rw [State.length_next, State.length_next, Phrase.rank]
    omega
  | @methodDef singleton name parameters body s t u v w front named listed inner hend _ _ ihlisted
      ihinner =>
    have hfront := front.length_le
    have hnamed := named.length_le
    have hlisted := listed.length_le
    have hinner := inner.length_le
    have hlast := w.one_le_length (by simp [hend])
    rw [s.length_next] at hfront
    rw [State.within_tokens, v.length_next] at hinner
    refine defStatement_yields front named (ihlisted ?_) (ihinner ?_) hend
    · rw [Phrase.rank]
      omega
    · rw [State.within_tokens, v.length_next, Phrase.rank]
      omega
  | noOwner => trivial
  | selfOwner => trivial
  | plainName => trivial
  | setterName => trivial
  | noParams hparen hname =>
    rw [Phrase.IsRead, params]
    refine .peek (.current (.ite_neg ?_ (.ite_neg ?_ .pure)))
    · exact Bool.eq_false_iff.1 hparen
    · simpa [Decidable.or_iff_not_imp_left, State.nextIsClose] using hname
  | emptyParams hparen hclose =>
    rw [Phrase.IsRead, params]
    exact .peek (.current (.ite_pos hparen (.advance (.peek (.ite_pos hclose (.advance .pure))))))
  | @closedParams nodes s t hparen hopen names hclose ih =>
    rw [Phrase.IsRead, params]
    refine .peek (.current (.ite_pos hparen (.advance (.peek (.ite_neg hopen (.bind (ih ?_) ?_))))))
    · rw [s.length_next, Phrase.rank]
      omega
    · exact .expectNext hclose .pure
  | @openParams nodes s t hparen hname hclose names ih =>
    rw [Phrase.IsRead, params]
    refine .peek (.current (.ite_neg (Bool.eq_false_iff.1 hparen) (.ite_pos ?_ (ih ?_))))
    · simpa [State.nextIsClose, hname] using hclose
    · rw [Phrase.rank]
      omega
  | lastParam hname hcomma =>
    rw [Phrase.IsRead, paramNames]
    exact .expectNext hname (.current (.peek (.ite_pos hcomma .pure)))
  | @nextParam nodes s t hname hcomma rest ih =>
    have hlength := s.two_le_length (by simp [hname])
    rw [Phrase.IsRead, paramNames]
    refine .expectNext hname (.current (.peek (.ite_neg (not_not_intro hcomma) (.advance
      (.bind (ih ?_) .pure)))))
    rw [State.length_next, State.length_next, Phrase.rank]
    omega
  | @expression least left node s t u hkind first rest ihfirst ihrest =>
    have hafter := first.length_le
    rw [Phrase.IsRead, Parse.expression]
    refine .current (.ite_pos hkind (.bind (ihfirst ?_) (ihrest ?_)))
    · rw [Phrase.rank]
      omega
    · rw [Phrase.rank]
      omega
  | @done least left s hstop =>
    rw [Phrase.IsRead, continuation]
    apply Yields.peek
    by_cases hleast : precedence s.peek.kind ≤ least
    · exact .ite_pos hleast .pure
    · refine .ite_neg hleast (.current (.ite_pos ?_ .pure))
      simpa [State.continues, State.nextIsClose, Nat.lt_of_not_le hleast] using hstop
  | @operation least operator left right node s t u hgo hkind operand rest ihoperand ihrest =>
    have hlength := s.two_le_length (by simp [hkind])
    have hafter := operand.length_le
    rw [State.length_next, State.length_next] at hafter
    apply continuation_yields hgo
    rw [hkind]
    refine .advance (.bind (ihoperand ?_) (.bind .pure (ihrest ?_)))
    · rw [State.length_next, State.length_next, Phrase.rank]
      omega
    · rw [Phrase.rank]
      omega
  | @access least left inner node s t u hgo hkind named rest ihnamed ihrest =>
    have hlength := s.two_le_length (by simp [hkind])
    have hafter := named.length_le
    rw [State.length_next] at hafter
    apply continuation_yields hgo
    rw [hkind]
    refine .bind (ihnamed ?_) (ihrest ?_)
    · rw [State.length_next, Phrase.rank]
      omega
    · rw [Phrase.rank]
      omega
  | @resolution least left node s t hgo hkind hname rest ih =>
    have hlength := s.two_le_length (by simp [hkind])
    apply continuation_yields hgo
    rw [hkind]
    refine .expectNext hname (.current (.bind .pure (ih ?_)))
    rw [State.length_next, State.length_next, Phrase.rank]
    omega
  | @memberAssign receiver value s t hname hassign inner ih =>
    have hlength := s.next.two_le_length (by simp [hassign])
    rw [State.length_next] at hlength
    have hnamed : ¬ (!namesMethod s.next.current.kind) = true := by
      simpa [State.current_next] using hname
    rw [Phrase.IsRead, Parse.member]
    refine .advance (.current (.ite_neg hnamed (.peek (.ite_pos hassign ?_))))
    refine .advance (.advance (.bind (ih ?_) .pure))
    rw [State.length_next, State.length_next, State.length_next, Phrase.rank]
    omega
  | @memberCall receiver args s t hname hassign inner ih =>
    have hlength := s.two_le_length (by intro heof; rw [heof] at hname; cases hname)
    have hnamed : ¬ (!namesMethod s.next.current.kind) = true := by
      simpa [State.current_next] using hname
    rw [Phrase.IsRead, Parse.member]
    refine .advance (.current (.ite_neg hnamed (.peek (.ite_neg hassign ?_))))
    refine .bind (ih ?_) .pure
    rw [State.length_next, Phrase.rank]
    omega
  | leaf hleaf => exact primary_yields_leaf hleaf
  | @localAssign value s t hkind hassign inner ih =>
    have hlength := s.two_le_length (by simp [hassign])
    rw [Phrase.IsRead, Parse.primary]
    refine .current (.peek ?_)
    rw [hkind]
    refine .ite_pos hassign (.bind (.advance (.advance (ih ?_))) (.declare .pure))
    rw [State.length_next, State.length_next, Phrase.rank]
    omega
  | @localRef s hkind hassign hknown hparen =>
    rw [Phrase.IsRead, Parse.primary]
    refine .current (.peek ?_)
    rw [hkind]
    refine .ite_neg hassign (.isDeclared (.opensArguments ?_))
    exact .ite_pos (by simp [hknown, hparen]) .pure
  | @call args s t hkind hassign hcall inner ih =>
    rw [Phrase.IsRead, Parse.primary]
    refine .current (.peek ?_)
    rw [hkind]
    refine .ite_neg hassign (.isDeclared (.opensArguments (.ite_neg ?_ (.bind (ih ?_) .pure))))
    · simpa [Decidable.or_iff_not_imp_left] using hcall
    · rw [Phrase.rank]
      omega
  | @constAssign value s t hkind hassign inner ih =>
    have hlength := s.two_le_length (by simp [hassign])
    rw [Phrase.IsRead, Parse.primary]
    refine .current (.peek ?_)
    rw [hkind]
    refine .ite_pos hassign (.bind (.advance (.advance (ih ?_))) .pure)
    rw [State.length_next, State.length_next, Phrase.rank]
    omega
  | @const s hkind hassign =>
    rw [Phrase.IsRead, Parse.primary]
    refine .current (.peek ?_)
    rw [hkind]
    exact .ite_neg hassign .pure
  | @ivarAssign value s t hkind hassign inner ih =>
    have hlength := s.two_le_length (by simp [hassign])
    rw [Phrase.IsRead, Parse.primary]
    refine .current (.peek ?_)
    rw [hkind]
    refine .ite_pos hassign (.bind (.advance (.advance (ih ?_))) .pure)
    rw [State.length_next, State.length_next, Phrase.rank]
    omega
  | @ivarRef s hkind hassign =>
    rw [Phrase.IsRead, Parse.primary]
    refine .current (.peek ?_)
    rw [hkind]
    exact .ite_neg hassign .pure
  | @group nodes s t hkind inner hclose ih =>
    have hlength := s.one_le_length (by simp [hkind])
    rw [Phrase.IsRead, Parse.primary]
    refine .current (.peek ?_)
    rw [hkind]
    refine .advance (.bind (ih ?_) (.current (.ite_neg (not_not_intro hclose) .pure)))
    rw [State.length_next, Phrase.rank]
    omega
  | noArguments hparen hstart =>
    rw [Phrase.IsRead, Parse.callArguments]
    exact .opensArguments (.ite_neg (Bool.eq_false_iff.1 hparen)
      (.startsArguments (.ite_neg (Bool.eq_false_iff.1 hstart) .pure)))
  | emptyArguments hparen hclose =>
    rw [Phrase.IsRead, Parse.callArguments]
    exact .opensArguments (.ite_pos hparen (.advance (.advance (.current (.ite_pos hclose .pure)))))
  | @closedArguments args s t hparen hopen inner hclose ih =>
    have hlength := s.two_le_length (by intro heof; simp [State.opensArguments, heof] at hparen)
    rw [Phrase.IsRead, Parse.callArguments]
    refine .opensArguments (.ite_pos hparen (.advance (.advance (.current (.ite_neg hopen
      (.bind (ih ?_) (.expectNext hclose .pure)))))))
    rw [State.length_next, State.length_next, Phrase.rank]
    omega
  | @openArguments args s t hparen hstart inner ih =>
    have hlength := s.two_le_length (by
      intro heof
      simp [State.startsArguments, heof, beginsArgument, beginsExpression] at hstart)
    rw [Phrase.IsRead, Parse.callArguments]
    refine .opensArguments (.ite_neg (Bool.eq_false_iff.1 hparen)
      (.startsArguments (.ite_pos hstart (.advance (ih ?_)))))
    rw [State.length_next, Phrase.rank]
    omega
  | @lastArgument node s t inner hcomma ih =>
    rw [Phrase.IsRead, Parse.argumentList]
    refine .bind (ih ?_) (.peek (.ite_neg hcomma .pure))
    rw [Phrase.rank]
    omega
  | @nextArgument node nodes s t u inner hcomma rest ihinner ihrest =>
    have hafter := inner.length_le
    have hlength := t.two_le_length (by simp [hcomma])
    rw [Phrase.IsRead, Parse.argumentList]
    refine .bind (ihinner ?_) (.peek (.ite_pos hcomma (.advance (.advance (.bind (ihrest ?_)
      .pure)))))
    · rw [Phrase.rank]
      omega
    · rw [State.length_next, State.length_next, Phrase.rank]
      omega

end Garnet.Parse

namespace Garnet

open Parse

/-- A source text with a derivation is accepted, with the body of its statements as tree. -/
theorem parse_of_derives {source : String} {locals : List String} {nodes : List Node} {t : State}
    (h : Derives (.statements none none nodes) (State.initial (.ofSource source) locals) t) :
    parse source locals = .ok (wrapBody nodes) := by
  have hdepth : Phrase.rank (.statements none none nodes) +
      8 * (State.initial (.ofSource source) locals).tokens.length ≤
        depthBound (Token.Stream.ofSource source).tokens.length := by
    change 5 + 8 * (Token.Stream.ofSource source).tokens.length ≤ depthBound _
    rw [depthBound]
    omega
  have hread : statements none (depthBound (Token.Stream.ofSource source).tokens.length) none
      (State.initial (.ofSource source) locals) = (nodes, t) := h.isRead hdepth
  have hissues : t.issues = #[] := h.issues_eq
  have hprogram : program (.ofSource source) locals = (wrapBody nodes, []) := by
    unfold program
    dsimp only [StateT.run]
    rw [hread]
    dsimp only
    rw [hissues]
  exact parse_eq_ok_iff.2 hprogram

end Garnet

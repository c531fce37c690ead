import Garnet.Proofs.Parse.Completeness
import Garnet.Proofs.Token.Joining
import Garnet.Proofs.Tree.Places

/-! # Derivations in a longer text

A phrase that ends before the end of its text is derived from a longer text as well, if what follows
stands on a line of its own and begins a statement. The rules look one token ahead, and a token on a
new line that begins a statement says to them what the end of the text says. In the longer text the
phrase may stand some lines further down, and the known names may be listed in another way.
-/

namespace Garnet

namespace Parse

theorem sameLine_down (k : Int) (first second : Token) :
    sameLine (first.down k) (second.down k) = sameLine first second := by
  rw [Bool.eq_iff_iff]
  simp [sameLine, Token.down, Pos.down]

/-- Whether a token may stand at the beginning of a list of statements that is not empty. -/
def beginsStatement : Token.Kind → Bool
  | .semicolon | .keyword .classWord | .keyword .defWord => true
  | kind => beginsExpression kind

/-- The phrase a number of lines further down. -/
def Phrase.down (k : Int) : Phrase → Phrase
  | .statements stop previous found =>
    .statements stop (previous.map (· + k)) (found.map (Node.mapPos (Pos.down k)))
  | .statement found => .statement (found.mapPos (Pos.down k))
  | .classStatement found => .classStatement (found.mapPos (Pos.down k))
  | .classPath outer found => .classPath (outer.mapPos (Pos.down k)) (found.mapPos (Pos.down k))
  | .superclass found => .superclass (found.map (Node.mapPos (Pos.down k)))
  | .defStatement found => .defStatement (found.mapPos (Pos.down k))
  | .owner found => .owner (found.map (Node.mapPos (Pos.down k)))
  | .methodName found => .methodName found
  | .params found => .params (found.map (Node.mapPos (Pos.down k)))
  | .paramNames found => .paramNames (found.map (Node.mapPos (Pos.down k)))
  | .expression least found => .expression least (found.mapPos (Pos.down k))
  | .continuation least left found =>
    .continuation least (left.mapPos (Pos.down k)) (found.mapPos (Pos.down k))
  | .member receiver found => .member (receiver.mapPos (Pos.down k)) (found.mapPos (Pos.down k))
  | .primary found => .primary (found.mapPos (Pos.down k))
  | .callArguments found => .callArguments (found.map (Node.mapPos (Pos.down k)))
  | .argumentList found => .argumentList (found.map (Node.mapPos (Pos.down k)))

/-- The state `s'` has the tokens of `s` some lines further down and further tokens after them,
which begin a statement on a line of their own. -/
structure State.Carried (k : Int) (extra : List Token) (s s' : State) : Prop where
  tokens : s'.tokens = s.tokens.map (Token.down k) ++ extra
  endPos : extra = [] → s'.endPos = s.endPos.down k
  scope (name : String) : name ∈ s'.scope ↔ name ∈ s.scope
  begins : ∀ next ∈ extra.head?, beginsStatement next.kind = true
  apart : ∀ next ∈ extra.head?, ∀ token ∈ s.tokens, token.pos.line + k ≠ next.pos.line

namespace State.Carried

variable {k : Int} {extra : List Token} {s s' : State}

theorem current (h : Carried k extra s s')
    (hleft : extra.length = 0 ∨ 1 ≤ s.tokens.length) : s'.current = s.current.down k := by
  rw [State.current, h.tokens, State.current]
  cases htokens : s.tokens with
  | nil =>
    have hextra : extra = [] := by
      rw [htokens] at hleft
      simpa using hleft
    rw [hextra, h.endPos hextra]
    rfl
  | cons token rest => rfl

theorem next (h : Carried k extra s s') (hleft : extra.length = 0 ∨ 1 ≤ s.tokens.length) :
    Carried k extra s.next s'.next := by
  refine ⟨?_, h.endPos, h.scope, h.begins, ?_⟩
  · rw [State.next_tokens, h.tokens, State.next_tokens]
    cases htokens : s.tokens with
    | nil =>
      have hextra : extra = [] := by
        rw [htokens] at hleft
        simpa using hleft
      rw [hextra]
      rfl
    | cons token rest => rfl
  · intro next hnext token htoken
    exact h.apart next hnext token (List.mem_of_mem_tail htoken)

theorem next_next (h : Carried k extra s s') (hleft : extra.length = 0 ∨ 2 ≤ s.tokens.length) :
    Carried k extra s.next.next s'.next.next := by
  have hnext := h.next (by omega)
  apply hnext.next
  rw [State.length_next]
  omega

theorem declaring (h : Carried k extra s s') (name : String) :
    Carried k extra (s.declaring name) (s'.declaring name) := by
  refine ⟨h.tokens, h.endPos, ?_, h.begins, h.apart⟩
  intro other
  simp [h.scope]

theorem within (h : Carried k extra s s') {names names' : List String}
    (hnames : ∀ name, name ∈ names' ↔ name ∈ names) :
    Carried k extra (s.within names) (s'.within names') :=
  ⟨h.tokens, h.endPos, hnames, h.begins, h.apart⟩

theorem peek (h : Carried k extra s s') (hleft : extra.length = 0 ∨ 2 ≤ s.tokens.length) :
    s'.peek = s.peek.down k := by
  have hnext := h.next (by omega)
  apply hnext.current
  rw [State.length_next]
  omega

/-- What comes next is known already, or it is the first of the further tokens. -/
theorem peek_or (h : Carried k extra s s') (hleft : extra.length = 0 ∨ 1 ≤ s.tokens.length) :
    s'.peek = s.peek.down k ∨
      s.peek.kind = .eof ∧ beginsStatement s'.peek.kind = true ∧ s'.nextIsClose = false := by
  by_cases hmore : extra.length = 0 ∨ 2 ≤ s.tokens.length
  · exact .inl (h.peek hmore)
  -- The parser stands on the last token of its own text.
  · obtain ⟨token, htokens⟩ : ∃ token, s.tokens = [token] := List.length_eq_one_iff.1 (by omega)
    obtain ⟨next, more, rfl⟩ := List.exists_cons_of_ne_nil (l := extra) (by
      rintro rfl
      exact hmore (.inl rfl))
    have hpeek : s'.peek = next := by
      rw [State.peek, h.tokens, htokens]
      rfl
    have hcurrent : s'.current = token.down k := by
      rw [State.current, h.tokens, htokens]
      rfl
    refine .inr ⟨?_, ?_, ?_⟩
    · rw [State.peek, htokens]
      rfl
    · rw [hpeek]
      exact h.begins next rfl
    · have hapart := h.apart next rfl token (by simp [htokens])
      rw [State.nextIsClose, hpeek, hcurrent, sameLine]
      exact beq_eq_false_iff_ne.2 hapart

theorem current_of_kind (h : Carried k extra s s') {kind : Token.Kind}
    (hkind : s.current.kind = kind) (heof : kind ≠ .eof) : s'.current = s.current.down k :=
  h.current (.inr (s.one_le_length (hkind ▸ heof)))

theorem peek_of_kind (h : Carried k extra s s') {kind : Token.Kind} (hkind : s.peek.kind = kind)
    (heof : kind ≠ .eof) : s'.peek = s.peek.down k :=
  h.peek (.inr (s.two_le_length (hkind ▸ heof)))

theorem peek_kind_ne (h : Carried k extra s s')
    (hleft : extra.length = 0 ∨ 1 ≤ s.tokens.length) {kind : Token.Kind}
    (hbegins : beginsStatement kind = false) (hkind : s.peek.kind ≠ kind) :
    s'.peek.kind ≠ kind := by
  rcases h.peek_or hleft with hpeek | ⟨-, hbegin, -⟩
  · rw [hpeek]
    exact hkind
  · rintro rfl
    rw [hbegins] at hbegin
    exact absurd hbegin (by simp)

theorem nextIsClose (h : Carried k extra s s')
    (hleft : extra.length = 0 ∨ 1 ≤ s.tokens.length) (hpeek : s'.peek = s.peek.down k) :
    s'.nextIsClose = s.nextIsClose := by
  rw [State.nextIsClose, h.current hleft, hpeek, sameLine_down]
  rfl

theorem opensArguments (h : Carried k extra s s')
    (hleft : extra.length = 0 ∨ 1 ≤ s.tokens.length) : s'.opensArguments = s.opensArguments := by
  rw [State.opensArguments, State.opensArguments]
  rcases h.peek_or hleft with hpeek | ⟨heof, -, hfar⟩
  · rw [h.nextIsClose hleft hpeek, hpeek]
    rfl
  · simp [heof, hfar]

theorem startsArguments (h : Carried k extra s s')
    (hleft : extra.length = 0 ∨ 1 ≤ s.tokens.length) :
    s'.startsArguments = s.startsArguments := by
  rw [State.startsArguments, State.startsArguments]
  rcases h.peek_or hleft with hpeek | ⟨heof, -, hfar⟩
  · rw [h.nextIsClose hleft hpeek, hpeek]
    rfl
  · simp [heof, hfar, beginsArgument, beginsExpression]

theorem namesSetter (h : Carried k extra s s')
    (hleft : extra.length = 0 ∨ 1 ≤ s.tokens.length) : s'.namesSetter = s.namesSetter := by
  rw [State.namesSetter, State.namesSetter]
  rcases h.peek_or hleft with hpeek | ⟨heof, -, hfar⟩
  · rw [h.nextIsClose hleft hpeek, hpeek]
    rfl
  · simp [heof, hfar]

theorem continues (h : Carried k extra s s')
    (hleft : extra.length = 0 ∨ 1 ≤ s.tokens.length) (least : Nat) :
    s'.continues least = s.continues least := by
  rw [State.continues, State.continues]
  rcases h.peek_or hleft with hpeek | ⟨heof, hbegins, hfar⟩
  · rw [h.nextIsClose hleft hpeek, hpeek]
    rfl
  · have hdot : s'.peek.kind ≠ .dot := by
      intro hdot
      rw [hdot] at hbegins
      exact absurd hbegins (by decide)
    simp [heof, hfar, hdot, precedence]

end State.Carried

/-! ### Moved nodes -/

theorem leaf?_down (token : Token) (k : Int) :
    leaf? (token.down k) = (leaf? token).map (Node.mapPos (Pos.down k)) := by
  obtain ⟨kind, literal, pos⟩ := token
  cases kind with
  | int =>
    simp only [leaf?, Token.down, Option.map_map]
    rfl
  | float =>
    simp only [leaf?, Token.down, Option.map_map]
    rfl
  | keyword word => cases word <;> rfl
  | _ => rfl

section Moved

variable (f : Pos → Pos)

theorem mapPos_call (pos : Pos) (receiver : Option Node) (name : String) (args : List Node) :
    (sendNode pos receiver name (args.map some)).mapPos f =
      sendNode (f pos) (receiver.map (Node.mapPos f)) name
        ((args.map (Node.mapPos f)).map some) := by
  rw [mapPos_sendNode, List.map_map, List.map_map]
  rfl

theorem mapPos_classDef (path : Node) (parent : Option Node) (body : List Node) (pos : Pos) :
    (Node.mk .classDef
      [.node path, Child.ofNode? parent, Child.ofNode? (wrapBody body)] pos).mapPos f =
      .mk .classDef [.node (path.mapPos f), Child.ofNode? (parent.map (Node.mapPos f)),
        Child.ofNode? (wrapBody (body.map (Node.mapPos f)))] (f pos) := by
  simp [Node.mapPos, Child.mapPosAll, Child.mapPos, map_wrapBody]

theorem mapPos_defNode (pos : Pos) (singleton : Option Node) (name : String)
    (parameters body : List Node) (place : Pos) :
    (defNode pos singleton [.sym name, .node (.mk .params (parameters.map .node) place),
      Child.ofNode? (wrapBody body)]).mapPos f =
    defNode (f pos) (singleton.map (Node.mapPos f)) [.sym name,
      .node (.mk .params ((parameters.map (Node.mapPos f)).map .node) (f place)),
      Child.ofNode? (wrapBody (body.map (Node.mapPos f)))] := by
  have hparams := Child.mapPosAll_map_node f parameters
  cases singleton with
  | none => simp [defNode, Node.mapPos, Child.mapPosAll, Child.mapPos, map_wrapBody, hparams]
  | some owner => simp [defNode, Node.mapPos, Child.mapPosAll, Child.mapPos, map_wrapBody, hparams]

end Moved

/-! ### Derivations -/

/-- A phrase is derived from a longer text as it is from its own. -/
theorem Derives.transport {phrase : Phrase} {s t s' : State} {k : Int} {extra : List Token}
    (h : Derives phrase s t) (hstate : s.Carried k extra s')
    (hleft : extra.length = 0 ∨ 1 ≤ t.tokens.length) :
    ∃ t', t.Carried k extra t' ∧ Derives (phrase.down k) s' t' := by
  -- In each case the parts are carried over from left to right. No part leaves fewer tokens than
  -- the whole phrase, so what is known of the end of the phrase is known of the end of each part.
  induction h generalizing s' with
  | @noStatement stop previous s hkind hend =>
    have hcurrent := hstate.current hleft
    refine ⟨s', hstate, .noStatement ?_ ?_⟩
    · rw [hcurrent]
      exact hkind
    · rw [hcurrent]
      exact hend
  | @semicolon stop previous nodes s t hkind rest ih =>
    have hlength := s.one_le_length (by simp [hkind])
    obtain ⟨t', ht, rest'⟩ := ih (hstate.next (.inr hlength)) hleft
    refine ⟨t', ht, .semicolon ?_ rest'⟩
    rw [hstate.current (.inr hlength)]
    exact hkind
  | @nextStatement stop previous node nodes s t u hkind heof hstop hline first rest ihfirst
      ihrest =>
    have hlength := rest.length_le
    rw [State.length_next] at hlength
    have hcurrent := hstate.current (.inr (s.one_le_length heof))
    obtain ⟨t', ht, first'⟩ := ihfirst hstate (by omega)
    obtain ⟨u', hu, rest'⟩ := ihrest (ht.next (by omega)) hleft
    refine ⟨u', hu, .nextStatement (t := t') ?_ ?_ ?_ ?_ first' ?_⟩
    · rw [hcurrent]
      exact hkind
    · rw [hcurrent]
      exact heof
    · rw [hcurrent]
      exact hstop
    · rw [hcurrent]
      -- The statement before has moved by the same number of lines.
      intro hprevious
      obtain ⟨line, rfl, hsum⟩ := Option.map_eq_some_iff.1 hprevious
      exact hline (congrArg some (by simpa [Token.down, Pos.down] using hsum))
    · rw [ht.current (by omega)]
      exact rest'
  | @classStatement node s t hkind inner ih =>
    obtain ⟨t', ht, inner'⟩ := ih hstate hleft
    refine ⟨t', ht, .classStatement ?_ inner'⟩
    rw [hstate.current_of_kind hkind (by simp)]
    exact hkind
  | @defStatement node s t hkind inner ih =>
    obtain ⟨t', ht, inner'⟩ := ih hstate hleft
    refine ⟨t', ht, .defStatement ?_ inner'⟩
    rw [hstate.current_of_kind hkind (by simp)]
    exact hkind
  | @simple node s t hclass hdef inner ih =>
    have hlength := inner.length_le
    have hcurrent := hstate.current (by omega)
    obtain ⟨t', ht, inner'⟩ := ih hstate hleft
    refine ⟨t', ht, .simple ?_ ?_ inner'⟩
    · rw [hcurrent]
      exact hclass
    · rw [hcurrent]
      exact hdef
  | @classDef path parent body s t u v hname steps above inner hend ihsteps ihabove ihinner =>
    have hlast := v.one_le_length (by simp [hend])
    have hlength := s.two_le_length (by simp [hname])
    have hinner := inner.length_le
    have habove := above.length_le
    rw [State.within_tokens, State.length_next] at hinner
    have hpeek := hstate.peek (.inr hlength)
    obtain ⟨t', ht, steps'⟩ := ihsteps (hstate.next (by omega)) (by omega)
    obtain ⟨u', hu, above'⟩ := ihabove ht (by omega)
    obtain ⟨v', hv, inner'⟩ := ihinner ((hu.next (by omega)).within fun _ => Iff.rfl) (.inr hlast)
    refine ⟨v'.within u'.scope, hv.within hu.scope, ?_⟩
    rw [Phrase.down, mapPos_classDef, ← show s'.current.pos = s.current.pos.down k from
      congrArg Token.pos (hstate.current (by omega))]
    refine .classDef (u := u') ?_ ?_ above' inner' ?_
    · rw [hpeek]
      exact hname
    · rw [hpeek]
      exact steps'
    · rw [hv.current (.inr hlast)]
      exact hend
  | @pathEnd outer s hkind =>
    exact ⟨s', hstate, .pathEnd (hstate.peek_kind_ne hleft rfl hkind)⟩
  | @pathStep outer path s t hkind hname steps ih =>
    have hlength := s.two_le_length (by simp [hkind])
    have hstate' := hstate.next (by omega)
    have hpeek := hstate'.peek_of_kind hname (by simp)
    obtain ⟨t', ht, steps'⟩ := ih (hstate.next_next (by omega)) hleft
    refine ⟨t', ht, .pathStep ?_ ?_ ?_⟩
    · rw [hstate.peek (.inr hlength)]
      exact hkind
    · rw [hpeek]
      exact hname
    · rw [hpeek]
      exact steps'
  | @noSuperclass s hkind =>
    exact ⟨s', hstate, .noSuperclass (hstate.peek_kind_ne hleft rfl hkind)⟩
  | @superclass node s t hkind inner ih =>
    have hlength := s.two_le_length (by simp [hkind])
    obtain ⟨t', ht, inner'⟩ := ih (hstate.next_next (by omega)) hleft
    refine ⟨t', ht, .superclass ?_ inner'⟩
    rw [hstate.peek (.inr hlength)]
    exact hkind
  | @methodDef singleton name parameters body s t u v w front named listed inner hend ihfront
      ihnamed ihlisted ihinner =>
    have hlast := w.one_le_length (by simp [hend])
    have hinner := inner.length_le
    have hlisted := listed.length_le
    have hnamed := named.length_le
    have hfront := front.length_le
    rw [State.within_tokens, State.length_next] at hinner
    rw [State.length_next] at hfront
    obtain ⟨t', ht, front'⟩ := ihfront (hstate.next (by omega)) (by omega)
    obtain ⟨u', hu, named'⟩ := ihnamed ht (by omega)
    obtain ⟨v', hv, listed'⟩ := ihlisted hu (by omega)
    obtain ⟨w', hw, inner'⟩ := ihinner ((hv.next (by omega)).within fun _ => Iff.rfl) (.inr hlast)
    refine ⟨w'.within v'.scope, hw.within hv.scope, ?_⟩
    rw [Phrase.down, mapPos_defNode, ← show s'.current.pos = s.current.pos.down k from
      congrArg Token.pos (hstate.current (by omega)), ← show u'.peek.pos = u.peek.pos.down k from
      congrArg Token.pos (hu.peek (by omega))]
    refine .methodDef front' named' listed' ?_ ?_
    · rw [declaredNames_map]
      exact inner'
    · rw [hw.current (.inr hlast)]
      exact hend
  | @noOwner s hkind =>
    refine ⟨s', hstate, .noOwner ?_⟩
    rintro ⟨hself, hdot⟩
    rw [hstate.current hleft] at hself
    -- No statement begins with a dot, so it cannot be the first of the further tokens either.
    exact hstate.peek_kind_ne hleft rfl (fun h => hkind ⟨hself, h⟩) hdot
  | @selfOwner s hself hdot =>
    have hlength := s.two_le_length (by simp [hdot])
    have hcurrent := hstate.current (by omega)
    refine ⟨s'.next.next, hstate.next_next (by omega), ?_⟩
    have howner : Derives (.owner (some (.mk .selfRef [] s'.current.pos))) s' s'.next.next := by
      refine .selfOwner ?_ ?_
      · rw [hcurrent]
        exact hself
      · rw [hstate.peek (.inr hlength)]
        exact hdot
    rw [hcurrent] at howner
    exact howner
  | @plainName s hname hsetter =>
    have hcurrent := hstate.current hleft
    have hplain : Derives (.methodName s'.current.literal) s' s' := by
      refine .plainName ?_ ?_
      · rw [hcurrent]
        exact hname
      · rw [hstate.namesSetter hleft]
        exact hsetter
    rw [hcurrent] at hplain
    exact ⟨s', hstate, hplain⟩
  | @setterName s hname hsetter =>
    rw [State.length_next] at hleft
    have hcurrent := hstate.current (by omega)
    have hset : Derives (.methodName (s'.current.literal ++ "=")) s' s'.next := by
      refine .setterName ?_ ?_
      · rw [hcurrent]
        exact hname
      · rw [hstate.namesSetter (by omega)]
        exact hsetter
    rw [hcurrent] at hset
    exact ⟨s'.next, hstate.next (by omega), hset⟩
  | @noParams s hparen hname =>
    refine ⟨s', hstate, .noParams ?_ ?_⟩
    · rw [hstate.opensArguments hleft]
      exact hparen
    · rcases hstate.peek_or hleft with hpeek | ⟨-, -, hfar⟩
      · rw [hstate.nextIsClose hleft hpeek, hpeek]
        exact hname
      · exact .inr hfar
  | @emptyParams s hparen hclose =>
    have hlength := s.next.two_le_length (by simp [hclose])
    rw [State.length_next] at hlength
    have hstate' := hstate.next (by omega)
    refine ⟨s'.next.next, hstate.next_next (by omega), .emptyParams ?_ ?_⟩
    · rw [hstate.opensArguments (by omega)]
      exact hparen
    · rw [hstate'.peek_of_kind hclose (by simp)]
      exact hclose
  | @closedParams nodes s t hparen hopen names hclose ih =>
    have hlength := t.two_le_length (by simp [hclose])
    have hnames := names.length_le
    rw [State.length_next] at hnames
    have hstate' := hstate.next (by omega)
    obtain ⟨t', ht, names'⟩ := ih hstate' (by omega)
    refine ⟨t'.next, ht.next (by omega), .closedParams ?_ ?_ names' ?_⟩
    · rw [hstate.opensArguments (by omega)]
      exact hparen
    · exact hstate'.peek_kind_ne (by rw [State.length_next]; omega) rfl hopen
    · rw [ht.peek_of_kind hclose (by simp)]
      exact hclose
  | @openParams nodes s t hparen hname hclose names ih =>
    have hlength := s.two_le_length (by simp [hname])
    have hpeek := hstate.peek (.inr hlength)
    obtain ⟨t', ht, names'⟩ := ih hstate hleft
    refine ⟨t', ht, .openParams ?_ ?_ ?_ names'⟩
    · rw [hstate.opensArguments (by omega)]
      exact hparen
    · rw [hpeek]
      exact hname
    · rw [hstate.nextIsClose (by omega) hpeek]
      exact hclose
  | @lastParam s hname hcomma =>
    have hlength := s.two_le_length (by simp [hname])
    have hpeek := hstate.peek (.inr hlength)
    have hstate' := hstate.next (by omega)
    have hparam : Derives (.paramNames [.mk .param [.sym s'.peek.literal] s'.peek.pos]) s'
        s'.next := by
      refine .lastParam ?_ (hstate'.peek_kind_ne (by rw [State.length_next]; omega) rfl hcomma)
      rw [hpeek]
      exact hname
    rw [hpeek] at hparam
    exact ⟨s'.next, hstate', hparam⟩
  | @nextParam nodes s t hname hcomma rest ih =>
    have hlength := s.next.two_le_length (by simp [hcomma])
    rw [State.length_next] at hlength
    have hpeek := hstate.peek (.inr (by omega))
    have hstate' := hstate.next (by omega)
    obtain ⟨t', ht, rest'⟩ := ih (hstate.next_next (by omega)) hleft
    have hparam : Derives (.paramNames (.mk .param [.sym s'.peek.literal] s'.peek.pos ::
        nodes.map (Node.mapPos (Pos.down k)))) s' t' := by
      refine .nextParam ?_ ?_ rest'
      · rw [hpeek]
        exact hname
      · rw [hstate'.peek_of_kind hcomma (by simp)]
        exact hcomma
    rw [hpeek] at hparam
    exact ⟨t', ht, hparam⟩
  | @expression least left node s t u hkind first rest ihfirst ihrest =>
    have hrest := rest.length_le
    have hfirst := first.length_le
    obtain ⟨t', ht, first'⟩ := ihfirst hstate (by omega)
    obtain ⟨u', hu, rest'⟩ := ihrest ht hleft
    refine ⟨u', hu, .expression ?_ first' rest'⟩
    rw [hstate.current (by omega)]
    exact hkind
  | @done least left s hstop =>
    refine ⟨s', hstate, .done ?_⟩
    rw [hstate.continues hleft]
    exact hstop
  | @operation least operator left right node s t u hgo hkind operand rest ihoperand ihrest =>
    have hlength := s.two_le_length (by simp [hkind])
    have hrest := rest.length_le
    have hpeek := hstate.peek (.inr hlength)
    have hstate' := hstate.next_next (by omega)
    obtain ⟨t', ht, operand'⟩ := ihoperand hstate' (by omega)
    obtain ⟨u', hu, rest'⟩ := ihrest ht hleft
    have hkind' : s'.peek.kind = .op operator := by
      rw [hpeek]
      exact hkind
    refine ⟨u', hu, .operation ?_ hkind' operand' ?_⟩
    · rw [hstate.continues (by omega)]
      exact hgo
    · rw [hpeek]
      exact rest'
  | @access least left inner node s t u hgo hkind named rest ihnamed ihrest =>
    have hlength := s.two_le_length (by simp [hkind])
    have hrest := rest.length_le
    obtain ⟨t', ht, named'⟩ := ihnamed (hstate.next (by omega)) (by omega)
    obtain ⟨u', hu, rest'⟩ := ihrest ht hleft
    refine ⟨u', hu, .access ?_ ?_ named' rest'⟩
    · rw [hstate.continues (by omega)]
      exact hgo
    · rw [hstate.peek (.inr hlength)]
      exact hkind
  | @resolution least left node s t hgo hkind hname rest ih =>
    have hlength := s.two_le_length (by simp [hkind])
    have hpeek := hstate.peek (.inr hlength)
    have hstate' := hstate.next (by omega)
    have hpeek' := hstate'.peek_of_kind hname (by simp)
    obtain ⟨t', ht, rest'⟩ := ih (hstate.next_next (by omega)) hleft
    refine ⟨t', ht, .resolution ?_ ?_ ?_ ?_⟩
    · rw [hstate.continues (by omega)]
      exact hgo
    · rw [hpeek]
      exact hkind
    · rw [hpeek']
      exact hname
    · rw [hpeek, hpeek']
      exact rest'
  | @memberAssign receiver value s t hname hassign inner ih =>
    have hlength := s.next.two_le_length (by simp [hassign])
    rw [State.length_next] at hlength
    have hpeek := hstate.peek (.inr (by omega))
    have hstate' := hstate.next (by omega)
    obtain ⟨t', ht, inner'⟩ := ih (hstate'.next_next (by rw [State.length_next]; omega)) hleft
    have hmember : Derives (.member (receiver.mapPos (Pos.down k)) (sendNode s'.peek.pos
        (some (receiver.mapPos (Pos.down k))) (s'.peek.literal ++ "=")
        [some (value.mapPos (Pos.down k))])) s' t' := by
      refine .memberAssign ?_ ?_ inner'
      · rw [hpeek]
        exact hname
      · rw [hstate'.peek_of_kind hassign (by simp)]
        exact hassign
    rw [hpeek] at hmember
    exact ⟨t', ht, hmember⟩
  | @memberCall receiver args s t hname hassign inner ih =>
    have hlength := s.two_le_length (by intro heof; rw [heof] at hname; cases hname)
    have hinner := inner.length_le
    have hpeek := hstate.peek (.inr hlength)
    have hstate' := hstate.next (by omega)
    obtain ⟨t', ht, inner'⟩ := ih hstate' hleft
    have hmember : Derives (.member (receiver.mapPos (Pos.down k)) (sendNode s'.peek.pos
        (some (receiver.mapPos (Pos.down k))) s'.peek.literal
        ((args.map (Node.mapPos (Pos.down k))).map some))) s' t' := by
      refine .memberCall ?_ (hstate'.peek_kind_ne (by omega) rfl hassign) inner'
      rw [hpeek]
      exact hname
    refine ⟨t', ht, ?_⟩
    rw [hpeek] at hmember
    rw [Phrase.down, mapPos_call]
    exact hmember
  | @leaf node s hleaf =>
    refine ⟨s', hstate, .leaf ?_⟩
    rw [hstate.current hleft, leaf?_down, hleaf]
    rfl
  | @localAssign value s t hkind hassign inner ih =>
    have hlength := s.two_le_length (by simp [hassign])
    have hcurrent := hstate.current (by omega)
    have hstate' := hstate.next_next (by omega)
    obtain ⟨t', ht, inner'⟩ := ih hstate' hleft
    have hassign' : Derives (.primary (.mk .localAssign [.sym s'.current.literal,
        .node (value.mapPos (Pos.down k))] s'.current.pos)) s'
        (t'.declaring s'.current.literal) := by
      refine .localAssign ?_ ?_ inner'
      · rw [hcurrent]
        exact hkind
      · rw [hstate.peek (.inr hlength)]
        exact hassign
    rw [hcurrent] at hassign'
    exact ⟨_, ht.declaring s.current.literal, hassign'⟩
  | @localRef s hkind hassign hknown hparen =>
    have hcurrent := hstate.current hleft
    have href : Derives (.primary (.mk .localRef [.sym s'.current.literal] s'.current.pos)) s'
        s' := by
      refine .localRef ?_ (hstate.peek_kind_ne hleft rfl hassign) ?_ ?_
      · rw [hcurrent]
        exact hkind
      · rw [hcurrent, hstate.scope]
        exact hknown
      · rw [hstate.opensArguments hleft]
        exact hparen
    rw [hcurrent] at href
    exact ⟨s', hstate, href⟩
  | @call args s t hkind hassign hcall inner ih =>
    have hlength := s.one_le_length (by simp [hkind])
    have hcurrent := hstate.current (.inr hlength)
    obtain ⟨t', ht, inner'⟩ := ih hstate hleft
    have hcalled : Derives (.primary (sendNode s'.current.pos none s'.current.literal
        ((args.map (Node.mapPos (Pos.down k))).map some))) s' t' := by
      refine .call ?_ (hstate.peek_kind_ne (.inr hlength) rfl hassign) ?_ inner'
      · rw [hcurrent]
        exact hkind
      · rw [hcurrent, hstate.scope, hstate.opensArguments (.inr hlength)]
        exact hcall
    refine ⟨t', ht, ?_⟩
    rw [hcurrent] at hcalled
    rw [Phrase.down, mapPos_call]
    exact hcalled
  | @constAssign value s t hkind hassign inner ih =>
    have hlength := s.two_le_length (by simp [hassign])
    have hcurrent := hstate.current (by omega)
    have hstate' := hstate.next_next (by omega)
    obtain ⟨t', ht, inner'⟩ := ih hstate' hleft
    have hassign' : Derives (.primary (.mk .constAssign [.absent, .sym s'.current.literal,
        .node (value.mapPos (Pos.down k))] s'.current.pos)) s' t' := by
      refine .constAssign ?_ ?_ inner'
      · rw [hcurrent]
        exact hkind
      · rw [hstate.peek (.inr hlength)]
        exact hassign
    rw [hcurrent] at hassign'
    exact ⟨t', ht, hassign'⟩
  | @const s hkind hassign =>
    have hcurrent := hstate.current hleft
    have hconst : Derives (.primary (.mk .const [.absent, .sym s'.current.literal] s'.current.pos))
        s' s' := by
      refine .const ?_ (hstate.peek_kind_ne hleft rfl hassign)
      rw [hcurrent]
      exact hkind
    rw [hcurrent] at hconst
    exact ⟨s', hstate, hconst⟩
  | @ivarAssign value s t hkind hassign inner ih =>
    have hlength := s.two_le_length (by simp [hassign])
    have hcurrent := hstate.current (by omega)
    have hstate' := hstate.next_next (by omega)
    obtain ⟨t', ht, inner'⟩ := ih hstate' hleft
    have hassign' : Derives (.primary (.mk .ivarAssign [.sym s'.current.literal,
        .node (value.mapPos (Pos.down k))] s'.current.pos)) s' t' := by
      refine .ivarAssign ?_ ?_ inner'
      · rw [hcurrent]
        exact hkind
      · rw [hstate.peek (.inr hlength)]
        exact hassign
    rw [hcurrent] at hassign'
    exact ⟨t', ht, hassign'⟩
  | @ivarRef s hkind hassign =>
    have hcurrent := hstate.current hleft
    have href :
        Derives (.primary (.mk .ivarRef [.sym s'.current.literal] s'.current.pos)) s' s' := by
      refine .ivarRef ?_ (hstate.peek_kind_ne hleft rfl hassign)
      rw [hcurrent]
      exact hkind
    rw [hcurrent] at href
    exact ⟨s', hstate, href⟩
  | @group nodes s t hkind inner hclose ih =>
    have hlength := s.one_le_length (by simp [hkind])
    have hlast := t.one_le_length (by simp [hclose])
    have hcurrent := hstate.current (.inr hlength)
    obtain ⟨t', ht, inner'⟩ := ih (hstate.next (.inr hlength)) hleft
    have hgroup : Derives (.primary (.mk .begin
        ((nodes.map (Node.mapPos (Pos.down k))).map .node) s'.current.pos)) s' t' := by
      refine .group ?_ inner' ?_
      · rw [hcurrent]
        exact hkind
      · rw [ht.current (.inr hlast)]
        exact hclose
    rw [hcurrent, ← Child.mapPosAll_map_node] at hgroup
    exact ⟨t', ht, hgroup⟩
  | @noArguments s hparen hstart =>
    refine ⟨s', hstate, .noArguments ?_ ?_⟩
    · rw [hstate.opensArguments hleft]
      exact hparen
    · rw [hstate.startsArguments hleft]
      exact hstart
  | @emptyArguments s hparen hclose =>
    have hlength := s.next.two_le_length (by simp [hclose])
    rw [State.length_next] at hlength
    have hstate' := hstate.next (by omega)
    refine ⟨s'.next.next, hstate.next_next (by omega), .emptyArguments ?_ ?_⟩
    · rw [hstate.opensArguments (by omega)]
      exact hparen
    · rw [hstate'.peek_of_kind hclose (by simp)]
      exact hclose
  | @closedArguments args s t hparen hopen inner hclose ih =>
    have hlength := t.two_le_length (by simp [hclose])
    have hinner := inner.length_le
    rw [State.length_next, State.length_next] at hinner
    have hstate' := hstate.next (by omega)
    obtain ⟨t', ht, inner'⟩ := ih (hstate.next_next (by omega)) (by omega)
    refine ⟨t'.next, ht.next (by omega), .closedArguments ?_ ?_ inner' ?_⟩
    · rw [hstate.opensArguments (by omega)]
      exact hparen
    · exact hstate'.peek_kind_ne (by rw [State.length_next]; omega) rfl hopen
    · rw [ht.peek_of_kind hclose (by simp)]
      exact hclose
  | @openArguments args s t hparen hstart inner ih =>
    have hinner := inner.length_le
    rw [State.length_next] at hinner
    obtain ⟨t', ht, inner'⟩ := ih (hstate.next (by omega)) hleft
    refine ⟨t', ht, .openArguments ?_ ?_ inner'⟩
    · rw [hstate.opensArguments (by omega)]
      exact hparen
    · rw [hstate.startsArguments (by omega)]
      exact hstart
  | @lastArgument node s t inner hcomma ih =>
    obtain ⟨t', ht, inner'⟩ := ih hstate hleft
    exact ⟨t', ht, .lastArgument inner' (ht.peek_kind_ne hleft rfl hcomma)⟩
  | @nextArgument node nodes s t u inner hcomma rest ihinner ihrest =>
    have hlength := t.two_le_length (by simp [hcomma])
    obtain ⟨t', ht, inner'⟩ := ihinner hstate (by omega)
    have ht' := ht.next_next (by omega)
    obtain ⟨u', hu, rest'⟩ := ihrest ht' hleft
    refine ⟨u', hu, .nextArgument inner' ?_ rest'⟩
    rw [ht.peek (.inr hlength)]
    exact hcomma

end Parse

end Garnet

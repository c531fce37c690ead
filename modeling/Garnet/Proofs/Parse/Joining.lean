import Garnet.Proofs.Parse.Scope
import Garnet.Proofs.Parse.Transport

/-! # Programs one after the other

The statements of two programs make one program if the second one begins on a new line. A derivation
of the first one reads all of its tokens, none of which is illegal, and then it goes on with the
second one where it would have ended.
-/

namespace Garnet.Parse

/-! ### The tokens of a derivation -/

/-- The parser stands on a token of the language. -/
structure State.Proper (s : State) : Prop where
  ne_eof : s.current.kind ≠ .eof
  ne_illegal : s.current.kind ≠ .illegal

/-- Between two states there are only tokens of the language. -/
def State.Clear (s t : State) : Prop :=
  ∃ front, s.tokens = front ++ t.tokens ∧ ∀ token ∈ front, token.kind ≠ .illegal

namespace State

variable {s t u : State}

theorem Proper.of_kind {kind : Token.Kind} (h : s.current.kind = kind) (heof : kind ≠ .eof)
    (hillegal : kind ≠ .illegal) : s.Proper :=
  ⟨h ▸ heof, h ▸ hillegal⟩

theorem Proper.within (h : s.Proper) (names : List String) : (s.within names).Proper :=
  ⟨h.ne_eof, h.ne_illegal⟩

theorem Clear.refl (s : State) : s.Clear s :=
  ⟨[], rfl, fun _ h => absurd h List.not_mem_nil⟩

theorem Clear.trans (h : s.Clear t) (h' : t.Clear u) : s.Clear u := by
  obtain ⟨front, htokens, hfront⟩ := h
  obtain ⟨front', htokens', hfront'⟩ := h'
  refine ⟨front ++ front', ?_, ?_⟩
  · rw [htokens, htokens', List.append_assoc]
  · intro token htoken
    rcases List.mem_append.1 htoken with hmem | hmem
    · exact hfront token hmem
    · exact hfront' token hmem

theorem Proper.next (h : s.Proper) : s.Clear s.next := by
  obtain ⟨token, rest, htokens⟩ := List.exists_cons_of_ne_nil
    (List.length_pos_iff.1 (s.one_le_length h.ne_eof))
  have hcurrent : s.current = token := by
    rw [State.current, htokens]
    rfl
  refine ⟨[token], ?_, ?_⟩
  · rw [State.next_tokens, htokens]
    rfl
  · intro other hother
    rw [List.mem_singleton.1 hother, ← hcurrent]
    exact h.ne_illegal

/-- Going on from a token of the language. -/
theorem Clear.step (h : s.Proper) (h' : s.next.Clear t) : s.Clear t :=
  h.next.trans h'

end State

theorem proper_of_namesMethod {s : State} (h : namesMethod s.current.kind = true) : s.Proper := by
  constructor
  · intro heof
    rw [heof] at h
    cases h
  · intro hillegal
    rw [hillegal] at h
    cases h

theorem proper_of_opensArguments {s : State} (h : s.opensArguments = true) : s.next.Proper := by
  simp only [State.opensArguments, Bool.and_eq_true, decide_eq_true_eq] at h
  exact .of_kind h.1 (by simp) (by simp)

theorem proper_of_leaf {s : State} {node : Node} (h : leaf? s.current = some node) : s.Proper := by
  constructor
  · intro heof
    rw [leaf?, heof] at h
    cases h
  · intro hillegal
    rw [leaf?, hillegal] at h
    cases h

/-- The tokens of a phrase are tokens of the language. A phrase that begins behind the token the
parser stands on says nothing about that one. -/
def Phrase.Clean (s t : State) : Phrase → Prop
  | .statements .. | .owner _ => s.Clear t
  | .statement _ | .methodName _ | .expression .. | .primary _ | .argumentList _ =>
    s.Clear t ∧ t.Proper
  | .classStatement _ | .classPath .. | .superclass _ | .defStatement _ | .params _ | .paramNames _
  | .continuation .. | .member .. | .callArguments _ => s.Proper → s.Clear t ∧ t.Proper

theorem Derives.clean {phrase : Phrase} {s t : State} (h : Derives phrase s t) :
    phrase.Clean s t := by
  -- A rule looks at each token it moves on from, and no rule goes on at an illegal one.
  induction h with
  | noStatement => exact .refl _
  | semicolon hkind _ ih => exact .step (.of_kind hkind (by simp) (by simp)) ih
  | nextStatement _ _ _ _ _ _ ihfirst ihrest => exact ihfirst.1.trans (.step ihfirst.2 ihrest)
  | classStatement hkind _ ih => exact ih (.of_kind hkind (by simp) (by simp))
  | defStatement hkind _ ih => exact ih (.of_kind hkind (by simp) (by simp))
  | simple _ _ _ ih => exact ih
  | @classDef _ _ _ s t u v hname _ _ _ hend ihsteps ihabove ihinner =>
    intro hs
    obtain ⟨hpath, ht⟩ := ihsteps (.of_kind hname (by simp) (by simp))
    obtain ⟨habove, hu⟩ := ihabove ht
    have hv : v.Proper := .of_kind hend (by simp) (by simp)
    exact ⟨.step hs (hpath.trans (habove.trans (.step hu ihinner))), hv.within _⟩
  | pathEnd => exact fun hs => ⟨.refl _, hs⟩
  | @pathStep _ _ s _ hkind hname _ ih =>
    intro hs
    have hs' : s.next.Proper := .of_kind hkind (by simp) (by simp)
    have hs'' : s.next.next.Proper := .of_kind hname (by simp) (by simp)
    exact ⟨.step hs (.step hs' (ih hs'').1), (ih hs'').2⟩
  | noSuperclass => exact fun hs => ⟨.refl _, hs⟩
  | @superclass _ s _ hkind _ ih =>
    intro hs
    have hs' : s.next.Proper := .of_kind hkind (by simp) (by simp)
    exact ⟨.step hs (.step hs' ih.1), ih.2⟩
  | @methodDef _ _ _ _ s t u v w _ _ _ _ hend ihfront ihnamed ihlisted ihinner =>
    intro hs
    obtain ⟨hnamed, hu⟩ := ihnamed
    obtain ⟨hlisted, hv⟩ := ihlisted hu
    have hw : w.Proper := .of_kind hend (by simp) (by simp)
    exact ⟨.step hs (ihfront.trans (hnamed.trans (hlisted.trans (.step hv ihinner)))), hw.within _⟩
  | noOwner => exact .refl _
  | @selfOwner s hself hdot =>
    have hs : s.Proper := .of_kind hself (by simp) (by simp)
    have hs' : s.next.Proper := .of_kind hdot (by simp) (by simp)
    exact .step hs hs'.next
  | plainName hname => exact ⟨.refl _, proper_of_namesMethod hname⟩
  | @setterName s hname hsetter =>
    have hassign : s.next.current.kind = .assign := by
      simp only [State.namesSetter, Bool.and_eq_true, decide_eq_true_eq] at hsetter
      exact hsetter.1
    exact ⟨(proper_of_namesMethod hname).next, .of_kind hassign (by simp) (by simp)⟩
  | noParams => exact fun hs => ⟨.refl _, hs⟩
  | @emptyParams s hparen hclose =>
    intro hs
    exact ⟨.step hs (proper_of_opensArguments hparen).next, .of_kind hclose (by simp) (by simp)⟩
  | @closedParams _ s t hparen _ _ hclose ih =>
    intro hs
    obtain ⟨hnames, ht⟩ := ih (proper_of_opensArguments hparen)
    exact ⟨.step hs (hnames.trans ht.next), .of_kind hclose (by simp) (by simp)⟩
  | openParams _ _ _ _ ih => exact ih
  | @lastParam s hname _ => exact fun hs => ⟨hs.next, .of_kind hname (by simp) (by simp)⟩
  | @nextParam _ s _ hname hcomma _ ih =>
    intro hs
    have hs' : s.next.Proper := .of_kind hname (by simp) (by simp)
    obtain ⟨hrest, ht⟩ := ih (.of_kind hcomma (by simp) (by simp))
    exact ⟨.step hs (.step hs' hrest), ht⟩
  | expression _ _ _ ihfirst ihrest =>
    obtain ⟨hrest, hu⟩ := ihrest ihfirst.2
    exact ⟨ihfirst.1.trans hrest, hu⟩
  | done => exact fun hs => ⟨.refl _, hs⟩
  | @operation _ _ _ _ _ s _ _ _ hkind _ _ ihoperand ihrest =>
    intro hs
    have hs' : s.next.Proper := .of_kind hkind (by simp) (by simp)
    obtain ⟨hrest, hu⟩ := ihrest ihoperand.2
    exact ⟨.step hs (.step hs' (ihoperand.1.trans hrest)), hu⟩
  | @access _ _ _ _ s _ _ _ hkind _ _ ihnamed ihrest =>
    intro hs
    obtain ⟨hnamed, ht⟩ := ihnamed (.of_kind hkind (by simp) (by simp))
    obtain ⟨hrest, hu⟩ := ihrest ht
    exact ⟨.step hs (hnamed.trans hrest), hu⟩
  | @resolution _ _ _ s _ _ hkind hname _ ih =>
    intro hs
    have hs' : s.next.Proper := .of_kind hkind (by simp) (by simp)
    obtain ⟨hrest, ht⟩ := ih (.of_kind hname (by simp) (by simp))
    exact ⟨.step hs (.step hs' hrest), ht⟩
  | @memberAssign _ _ s _ hname hassign _ ih =>
    intro hs
    have hs' : s.next.Proper := proper_of_namesMethod hname
    have hs'' : s.next.next.Proper := .of_kind hassign (by simp) (by simp)
    exact ⟨.step hs (.step hs' (.step hs'' ih.1)), ih.2⟩
  | @memberCall _ _ s _ hname _ _ ih =>
    intro hs
    have hs' : s.next.Proper := proper_of_namesMethod hname
    exact ⟨.step hs (ih hs').1, (ih hs').2⟩
  | leaf hleaf => exact ⟨.refl _, proper_of_leaf hleaf⟩
  | @localAssign _ s t hkind hassign _ ih =>
    have hs : s.Proper := .of_kind hkind (by simp) (by simp)
    have hs' : s.next.Proper := .of_kind hassign (by simp) (by simp)
    exact ⟨.step hs (.step hs' ih.1), ⟨ih.2.ne_eof, ih.2.ne_illegal⟩⟩
  | localRef hkind => exact ⟨.refl _, .of_kind hkind (by simp) (by simp)⟩
  | call hkind _ _ _ ih => exact ih (.of_kind hkind (by simp) (by simp))
  | @constAssign _ s _ hkind hassign _ ih =>
    have hs : s.Proper := .of_kind hkind (by simp) (by simp)
    have hs' : s.next.Proper := .of_kind hassign (by simp) (by simp)
    exact ⟨.step hs (.step hs' ih.1), ih.2⟩
  | const hkind => exact ⟨.refl _, .of_kind hkind (by simp) (by simp)⟩
  | @ivarAssign _ s _ hkind hassign _ ih =>
    have hs : s.Proper := .of_kind hkind (by simp) (by simp)
    have hs' : s.next.Proper := .of_kind hassign (by simp) (by simp)
    exact ⟨.step hs (.step hs' ih.1), ih.2⟩
  | ivarRef hkind => exact ⟨.refl _, .of_kind hkind (by simp) (by simp)⟩
  | group hkind _ hclose ih =>
    exact ⟨.step (.of_kind hkind (by simp) (by simp)) ih, .of_kind hclose (by simp) (by simp)⟩
  | noArguments => exact fun hs => ⟨.refl _, hs⟩
  | @emptyArguments s hparen hclose =>
    intro hs
    exact ⟨.step hs (proper_of_opensArguments hparen).next, .of_kind hclose (by simp) (by simp)⟩
  | @closedArguments _ s t hparen _ _ hclose ih =>
    intro hs
    have hinner := ih.1.trans ih.2.next
    exact ⟨.step hs (.step (proper_of_opensArguments hparen) hinner),
      .of_kind hclose (by simp) (by simp)⟩
  | openArguments _ _ _ ih => exact fun hs => ⟨.step hs ih.1, ih.2⟩
  | lastArgument _ _ ih => exact ih
  | @nextArgument _ _ s t _ _ hcomma _ ihinner ihrest =>
    have ht' : t.next.Proper := .of_kind hcomma (by simp) (by simp)
    exact ⟨ihinner.1.trans (.step ihinner.2 (.step ht' ihrest.1)), ihrest.2⟩

/-! ### Where lists of statements begin and end -/

theorem Derives.endPos_eq {phrase : Phrase} {s t : State} (h : Derives phrase s t) :
    t.endPos = s.endPos := by
  induction h <;> simp_all [State.next, State.within, State.declaring]

theorem Derives.current_of_statements {stop : Option Token.Kind} {previous : Option Int}
    {nodes : List Node} {s t : State} (h : Derives (.statements stop previous nodes) s t) :
    t.current.kind = .eof ∨ some t.current.kind = stop := by
  generalize hphrase : Phrase.statements stop previous nodes = phrase at h
  induction h generalizing previous nodes with
  | noStatement _ hend =>
    cases hphrase
    exact hend
  | semicolon _ _ ih =>
    cases hphrase
    exact ih rfl
  | nextStatement _ _ _ _ _ _ _ ihrest =>
    cases hphrase
    exact ihrest rfl
  | _ => cases hphrase

/-- The tokens of an accepted program are all read, and all of them are tokens of the language. -/
theorem Derives.tokens_of_program {previous : Option Int} {nodes : List Node} {s t : State}
    (h : Derives (.statements none previous nodes) s t)
    (heof : ∀ token ∈ s.tokens, token.kind ≠ .eof) :
    t.tokens = [] ∧ ∀ token ∈ s.tokens, token.kind ≠ .illegal := by
  obtain ⟨front, htokens, hfront⟩ : s.Clear t := h.clean
  have hend : t.tokens = [] := by
    cases hlast : t.tokens with
    | nil => rfl
    | cons token rest =>
      have hcurrent : t.current = token := by
        rw [State.current, hlast]
        rfl
      rcases h.current_of_statements with hkind | hstop
      · rw [hcurrent] at hkind
        exact absurd hkind (heof token (by simp [htokens, hlast]))
      · exact absurd hstop (by simp)
  refine ⟨hend, ?_⟩
  rw [htokens, hend, List.append_nil]
  exact hfront

theorem beginsStatement_of_beginsExpression {kind : Token.Kind}
    (h : beginsExpression kind = true) : beginsStatement kind = true := by
  unfold beginsStatement
  split
  · rfl
  · rfl
  · rfl
  · exact h

/-- The first token of a program that is not empty. -/
theorem Derives.beginsStatement {stop : Option Token.Kind} {previous : Option Int}
    {nodes : List Node} {s t : State} (h : Derives (.statements stop previous nodes) s t)
    (hnodes : nodes ≠ []) : Parse.beginsStatement s.current.kind = true := by
  cases h with
  | noStatement => exact absurd rfl hnodes
  | semicolon hkind =>
    rw [hkind]
    rfl
  | nextStatement _ _ _ _ first =>
    cases first with
    | classStatement hkind =>
      rw [hkind]
      rfl
    | defStatement hkind =>
      rw [hkind]
      rfl
    | simple _ _ inner =>
      cases inner with
      | expression hkind => exact beginsStatement_of_beginsExpression hkind

/-- A list of statements may follow any statement that ended on another line. -/
theorem Derives.after_line {stop : Option Token.Kind} {nodes : List Node} {s t : State}
    (h : Derives (.statements stop none nodes) s t) {previous : Option Int}
    (hline : previous ≠ some s.current.pos.line) :
    Derives (.statements stop previous nodes) s t := by
  cases h with
  | noStatement hkind hend => exact .noStatement hkind hend
  | semicolon hkind rest => exact .semicolon hkind rest
  | nextStatement hkind heof hstop _ first rest =>
    exact .nextStatement hkind heof hstop hline first rest

/-! ### Joining -/

theorem Phrase.down_zero (phrase : Phrase) : phrase.down 0 = phrase := by
  have hmap : Node.mapPos (Pos.down 0) = id := by
    funext node
    rw [Pos.down_zero, Node.mapPos_id]
    rfl
  cases phrase <;> simp [Phrase.down, hmap]

/-- The statements of a program are followed by those of another one that begins on a new line and
knows the names that the first one leaves. -/
theorem Derives.append {previous : Option Int} {nodes more : List Node} {s t s' : State}
    {extra : List Token} (h : Derives (.statements none previous nodes) s t)
    (hstate : s.Carried 0 extra s') (hextra : extra ≠ []) (hend : t.tokens = [])
    (hprevious : ∀ line ∈ previous, ∀ next ∈ extra.head?, line ≠ next.pos.line)
    (hmore : ∀ e : State, e.tokens = extra → e.endPos = s'.endPos →
      (∀ name, name ∈ e.scope ↔ name ∈ t.scope) →
      ∃ u, Derives (.statements none none more) e u) :
    ∃ u, Derives (.statements none previous (nodes ++ more)) s' u := by
  generalize hphrase : Phrase.statements none previous nodes = phrase at h
  induction h generalizing previous nodes s' with
  | @noStatement stop _ s hkind hend' =>
    cases hphrase
    -- Here the first program ends, and the second one goes on in its place.
    have htokens : s'.tokens = extra := by
      rw [hstate.tokens, hend]
      rfl
    obtain ⟨u, hu⟩ := hmore s' htokens rfl hstate.scope
    refine ⟨u, hu.after_line ?_⟩
    intro hline
    obtain ⟨next, rest, rfl⟩ := List.exists_cons_of_ne_nil hextra
    have hcurrent : s'.current = next := by
      rw [State.current, htokens]
      rfl
    rw [hcurrent] at hline
    exact hprevious _ hline next rfl rfl
  | @semicolon stop _ _ s t hkind rest ih =>
    cases hphrase
    have hlength := s.one_le_length (by simp [hkind])
    obtain ⟨u, hu⟩ := ih (hstate.next (.inr hlength)) hend (fun _ h => absurd h (by simp)) hmore rfl
    refine ⟨u, .semicolon ?_ hu⟩
    rw [hstate.current (.inr hlength)]
    exact hkind
  | @nextStatement stop _ node _ s t u hkind heof hstop hline first rest _ ihrest =>
    cases hphrase
    have ht : t.Proper := first.clean.2
    have hlength := t.one_le_length ht.ne_eof
    have hcurrent := hstate.current (.inr (s.one_le_length heof))
    obtain ⟨t', ht', first'⟩ := first.transport hstate (.inr hlength)
    rw [Phrase.down_zero] at first'
    have hline' : t'.current.pos.line = t.current.pos.line := by
      rw [ht'.current (.inr hlength)]
      simp [Token.down, Pos.down]
    -- The statement ends on a line of the first text, on which the second one has no token.
    have hmem : t.current ∈ t.tokens := by
      obtain ⟨token, tokens, htokens⟩ := List.exists_cons_of_ne_nil (List.length_pos_iff.1 hlength)
      rw [State.current, htokens]
      exact List.mem_cons_self
    have hapart : ∀ line ∈ some t.current.pos.line, ∀ next ∈ extra.head?, line ≠ next.pos.line := by
      intro line hmem' next hnext
      obtain rfl := Option.some.inj hmem'
      have hne := ht'.apart next hnext t.current hmem
      rwa [Int.add_zero] at hne
    obtain ⟨v, hv⟩ := ihrest (ht'.next (.inr hlength)) hend hapart
      (fun e htokens hpos => hmore e htokens (hpos.trans first'.endPos_eq)) rfl
    refine ⟨v, .nextStatement (t := t') ?_ ?_ (by simp) ?_ first' ?_⟩
    · rw [hcurrent]
      exact hkind
    · rw [hcurrent]
      exact heof
    · rw [hcurrent]
      simpa [Token.down, Pos.down] using hline
    · rw [hline']
      exact hv
  | _ => cases hphrase

end Garnet.Parse

namespace Garnet

open Parse

/-- The joined text has the tokens of the first one, and then those of the second one on lines of
their own. -/
theorem carried_joined {first second : String} {locals names : List String}
    (htokens : (Token.Stream.ofSource (first ++ "\n" ++ second)).tokens =
      (Token.Stream.ofSource first).tokens ++
        (Token.Stream.ofSource second).tokens.map (Token.down (Token.lastLine first)))
    (hbegins : beginsStatement (State.initial (.ofSource second) names).current.kind = true) :
    (State.initial (.ofSource first) locals).Carried 0
      ((Token.Stream.ofSource second).tokens.map (Token.down (Token.lastLine first)))
      (State.initial (.ofSource (first ++ "\n" ++ second)) locals) := by
  have hzero : Token.down 0 = id := by
    funext token
    rw [Token.down, Pos.down_zero]
    rfl
  cases hlist : (Token.Stream.ofSource second).tokens with
  | nil =>
    rw [State.current, State.initial, hlist] at hbegins
    exact absurd (show beginsStatement .eof = true from hbegins) (by decide)
  | cons token rest =>
    rw [State.current, State.initial, hlist] at hbegins
    refine ⟨?_, fun hempty => absurd hempty (by simp), fun _ => Iff.rfl, ?_, ?_⟩
    · rw [hzero, List.map_id, ← hlist]
      exact htokens
    · intro next hnext
      cases hnext
      exact hbegins
    · intro next hnext other hother
      cases hnext
      have htoken : token ∈ (Token.Stream.ofSource second).tokens := by simp [hlist]
      have hlow := Token.one_le_line htoken
      have hhigh := Token.line_le_lastLine hother
      change other.pos.line + 0 ≠ token.pos.line + Token.lastLine first
      omega

/-- Two accepted programs, the second of which is not empty and was read with the names that the
first one leaves, are accepted as one program. It has the statements of both, and those of the
second one stand further down. -/
theorem parse_joined {first second : String} {locals names : List String} {tree : Option Node}
    {tree' : Node} (hnul : Token.nul ∉ first.toList) (hfirst : parse first locals = .ok tree)
    (hsecond : parse second names = .ok (some tree'))
    (hnames : ∀ name, name ∈ names ↔ name ∈ (Child.ofNode? tree).assigned ∨ name ∈ locals) :
    ∃ nodes more, tree = wrapBody nodes ∧ more ≠ [] ∧ some tree' = wrapBody more ∧
      parse (first ++ "\n" ++ second) locals =
        .ok (wrapBody (nodes ++ more.map (Node.mapPos (Pos.down (Token.lastLine first))))) := by
  obtain ⟨nodes, t, rfl, hnodes⟩ := derives_of_parse hfirst
  obtain ⟨more, t', hmore, hmoreDerives⟩ := derives_of_parse hsecond
  have hne : more ≠ [] := by
    rintro rfl
    cases hmore
  refine ⟨nodes, more, rfl, hne, hmore, ?_⟩
  -- The first program reads all of its tokens, and none of them is illegal.
  obtain ⟨hend, hlegal⟩ := hnodes.tokens_of_program fun _ => Token.kind_ne_eof_of_mem_scan
  have hbegins := hmoreDerives.beginsStatement hne
  have htokens : (Token.Stream.ofSource second).tokens ≠ [] := by
    intro hempty
    rw [State.current, State.initial, hempty] at hbegins
    exact absurd (show beginsStatement .eof = true from hbegins) (by decide)
  have hsource : second ≠ "" := by
    rintro rfl
    exact htokens (by decide +kernel)
  obtain ⟨hjoined, hendPos⟩ := Token.ofSource_joined hnul hlegal hsource
  -- The scope at the end of the first program has the names that the second one was read with.
  have hscope := (extends_wrapBody hnodes.sound).names
  have hfollows : ∀ e : State,
      e.tokens = (Token.Stream.ofSource second).tokens.map (Token.down (Token.lastLine first)) →
      e.endPos = (Token.Stream.ofSource (first ++ "\n" ++ second)).endPos →
      (∀ name, name ∈ e.scope ↔ name ∈ t.scope) →
      ∃ u, Derives (.statements none none
        (more.map (Node.mapPos (Pos.down (Token.lastLine first))))) e u := by
    intro e he hpos hknown
    have hmoved : (State.initial (.ofSource second) names).Carried (Token.lastLine first) [] e := by
      refine ⟨?_, fun _ => hpos.trans hendPos, ?_, ?_, ?_⟩
      · rw [List.append_nil]
        exact he
      · intro name
        rw [hknown, hscope]
        exact (hnames name).symm
      · exact fun _ h => absurd h (by simp)
      · exact fun _ h => absurd h (by simp)
    obtain ⟨u, -, hu⟩ := hmoreDerives.transport hmoved (.inl rfl)
    exact ⟨u, hu⟩
  obtain ⟨u, hu⟩ := hnodes.append (carried_joined hjoined hbegins) (by simpa using htokens) hend
    (fun _ h => absurd h (by simp)) hfollows
  exact parse_of_derives hu

end Garnet

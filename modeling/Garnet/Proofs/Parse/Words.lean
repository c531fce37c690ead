import Garnet.Proofs.Parse.Joining
import Garnet.Proofs.Tree.Words
import Mathlib.Data.List.Forall2

/-! # Every word of an accepted text is in its tree

A derivation moves over the tokens of a text one by one, and every one of them that is more than
punctuation gets into the tree, in the same order. What a phrase begins with is the token the
parser stands on, or the one after it; what it ends with is the token the parser is left on.
-/

namespace Garnet.Parse

/-- All tokens are spelled as their categories ask for. -/
def State.Spelled (s : State) : Prop :=
  ∀ token ∈ s.tokens, token.kind.Spells token.literal

/-- Between two states stand the given words, and punctuation. -/
def State.Spans (s : State) (words : List Word) (t : State) : Prop :=
  s.Spelled → ∃ front, s.tokens = front ++ t.tokens ∧
    List.Forall₂ Word.Matches words (front.filter fun token => !token.kind.isPunctuation)

/-- The token of a name is found again under the name of a message, also of one that assigns. -/
theorem matches_message {token : Token} (hname : namesMethod token.kind = true)
    (hspells : token.kind.Spells token.literal) :
    (Word.message token.literal).Matches token ∧
      (Word.message (token.literal ++ "=")).Matches token := by
  obtain ⟨hliteral, hkind⟩ :
      Token.IsName token.literal ∧ Token.nameKind token.literal = token.kind := by
    cases hkind : token.kind with
    | ident | constant | keyword =>
      rw [hkind] at hspells
      exact hspells
    | _ =>
      rw [hkind] at hname
      cases hname
  rw [Word.message_name hliteral, Word.message_setter hliteral]
  exact ⟨⟨hkind.symm, rfl⟩, ⟨hkind.symm, rfl⟩⟩

namespace State.Spans

variable {s t u : State} {words more : List Word} {kind : Token.Kind}

theorem refl (s : State) : s.Spans [] s :=
  fun _ => ⟨[], rfl, .nil⟩

theorem trans (h : s.Spans words t) (h' : t.Spans more u) : s.Spans (words ++ more) u := by
  intro hs
  obtain ⟨front, htokens, hwords⟩ := h hs
  have ht : t.Spelled := fun token hmem => hs token (htokens ▸ List.mem_append_right _ hmem)
  obtain ⟨front', htokens', hmore⟩ := h' ht
  refine ⟨front ++ front', ?_, ?_⟩
  · rw [htokens, htokens', List.append_assoc]
  · rw [List.filter_append]
    exact List.rel_append hwords hmore

theorem cast (h : s.Spans words t) (heq : more = words) : s.Spans more t :=
  heq ▸ h

/-- The token the parser stands on is a word. -/
theorem word {word : Word} (hword : s.current.kind.isPunctuation = false)
    (hmatch : s.current.kind.Spells s.current.literal → word.Matches s.current) :
    s.Spans [word] s.next := by
  intro hs
  cases htokens : s.tokens with
  | nil =>
    rw [State.current, htokens] at hword
    cases hword
  | cons token rest =>
    have hcurrent : s.current = token := by
      rw [State.current, htokens]
      rfl
    rw [hcurrent] at hword hmatch
    have hfilter : [token].filter (fun token => !token.kind.isPunctuation) = [token] := by
      simp [hword]
    refine ⟨[token], ?_, ?_⟩
    · rw [State.next_tokens, htokens]
      rfl
    · rw [hfilter]
      exact .cons (hmatch (hs token (htokens ▸ List.mem_cons_self))) .nil

/-- The token the parser stands on is punctuation. -/
theorem skip (hkind : s.current.kind = kind) (hskip : kind.isPunctuation = true) :
    s.Spans [] s.next := by
  intro _
  cases htokens : s.tokens with
  | nil => exact ⟨[], by simp [htokens], .nil⟩
  | cons token rest =>
    have hcurrent : s.current = token := by
      rw [State.current, htokens]
      rfl
    have hfilter : [token].filter (fun token => !token.kind.isPunctuation) = [] := by
      simp [← hcurrent, hkind, hskip]
    refine ⟨[token], ?_, ?_⟩
    · rw [State.next_tokens, htokens]
      rfl
    · rw [hfilter]
      exact .nil

theorem token (hkind : s.current.kind = kind) (hword : kind.isPunctuation = false) :
    s.Spans [.token kind s.current.literal] s.next :=
  word (hkind ▸ hword) fun _ => ⟨hkind, rfl⟩

theorem keyword {found : Keyword} (hkind : s.current.kind = .keyword found) :
    s.Spans [.keyword found] s.next := by
  refine word (hkind ▸ rfl) fun hspells => ⟨hkind, ?_⟩
  rw [hkind] at hspells
  exact Token.text_of_nameKind hspells.2

theorem operator {found : Operator} (hkind : s.current.kind = .op found) :
    s.Spans [.operator found] s.next := by
  refine word (hkind ▸ rfl) fun hspells => ⟨hkind, ?_⟩
  rw [hkind] at hspells
  exact hspells

theorem isWord_of_namesMethod (h : namesMethod kind = true) : kind.isPunctuation = false := by
  cases kind with
  | ident | constant | keyword => rfl
  | _ => cases h

theorem message (hname : namesMethod s.current.kind = true) :
    s.Spans [.message s.current.literal] s.next :=
  word (isWord_of_namesMethod hname) fun hspells => (matches_message hname hspells).1

theorem setter (hname : namesMethod s.current.kind = true) :
    s.Spans [.message (s.current.literal ++ "=")] s.next :=
  word (isWord_of_namesMethod hname) fun hspells => (matches_message hname hspells).2

theorem leaf {node : Node} (h : leaf? s.current = some node) : s.Spans node.words s.next := by
  unfold leaf? at h
  split at h
  next hkind =>
    obtain ⟨value, hvalue, rfl⟩ := Option.map_eq_some_iff.1 h
    exact word (hkind ▸ rfl) fun _ => ⟨hkind, hvalue⟩
  next hkind =>
    obtain ⟨value, hvalue, rfl⟩ := Option.map_eq_some_iff.1 h
    exact word (hkind ▸ rfl) fun _ => ⟨hkind, hvalue⟩
  next hkind =>
    cases h
    exact token hkind rfl
  next hkind =>
    cases h
    exact token hkind rfl
  next hkind =>
    cases h
    exact keyword hkind
  next hkind =>
    cases h
    exact keyword hkind
  next hkind =>
    cases h
    exact keyword hkind
  next hkind =>
    cases h
    exact keyword hkind
  next => cases h

end State.Spans

/-- The words of what a phrase finds are the words that it reads. Of a phrase that goes on with a
tree these are the words behind those of that tree. -/
def Phrase.Yields (s t : State) : Phrase → Prop
  | .statements _ _ found => s.Spans (Node.allWords found) t
  | .statement found | .expression _ found | .primary found => s.Spans found.words t.next
  | .classStatement found => s.current.kind = .keyword .classWord → s.Spans found.words t.next
  | .defStatement found => s.current.kind = .keyword .defWord → s.Spans found.words t.next
  | .classPath left found | .continuation _ left found | .member left found =>
    ∃ more, found.words = left.words ++ more ∧ s.next.Spans more t.next
  | .superclass found => s.next.Spans (superclassWords found) t.next
  | .owner found => s.Spans (Node.wordsOf found) t
  | .methodName found => s.Spans [.message found] t.next
  | .params found | .paramNames found | .callArguments found =>
    s.next.Spans (Node.allWords found) t.next
  | .argumentList found => s.Spans (Node.allWords found) t.next

theorem opensArguments_kind {s : State} (h : s.opensArguments = true) :
    s.next.current.kind = .lparen := by
  simp only [State.opensArguments, Bool.and_eq_true, decide_eq_true_eq] at h
  exact h.1

theorem Derives.yields {phrase : Phrase} {s t : State} (h : Derives phrase s t) :
    phrase.Yields s t := by
  -- Each rule is a chain of tokens and phrases; its tree has their words in the same order.
  induction h with
  | noStatement => exact .refl _
  | semicolon hkind _ ih => exact .trans (.skip hkind rfl) ih
  | nextStatement _ _ _ _ _ _ ihfirst ihrest => exact .trans ihfirst ihrest
  | classStatement hkind _ ih => exact ih hkind
  | defStatement hkind _ ih => exact ih hkind
  | simple _ _ _ ih => exact ih
  | @classDef path parent body s t u v hname _ _ _ hend ihsteps ihabove ihinner =>
    intro hs
    obtain ⟨more, hpath, hsteps⟩ := ihsteps
    have hfirst : s.next.Spans [.token .constant s.peek.literal] s.next.next := .token hname rfl
    have hinner : u.next.Spans (Node.allWords body) v := ihinner
    have hall := (State.Spans.keyword hs).trans
      (hfirst.trans (hsteps.trans (ihabove.trans (hinner.trans (.keyword hend)))))
    refine hall.cast ?_
    rw [words_classDef, wordsOf_wrapBody, hpath]
    simp
  | pathEnd => exact ⟨[], (List.append_nil _).symm, .refl _⟩
  | @pathStep outer path s t hkind hname _ ih =>
    obtain ⟨more, hpath, hsteps⟩ := ih
    have hscope : s.next.Spans [] s.next.next := .skip hkind rfl
    have hfirst : s.next.next.Spans [.token .constant s.next.peek.literal] s.next.next.next :=
      .token hname rfl
    refine ⟨_, ?_, hscope.trans (hfirst.trans hsteps)⟩
    rw [hpath]
    simp
  | noSuperclass => exact .refl _
  | @superclass node s t hkind _ ih =>
    have hlt : s.next.Spans [.operator .lt] s.next.next := .operator hkind
    exact hlt.trans ih
  | @methodDef singleton name parameters body s t u v w _ _ _ _ hend ihfront ihnamed ihlisted
      ihinner =>
    intro hs
    have hinner : v.next.Spans (Node.allWords body) w := ihinner
    have hall := (State.Spans.keyword hs).trans
      (ihfront.trans (ihnamed.trans (ihlisted.trans (hinner.trans (.keyword hend)))))
    refine hall.cast ?_
    rw [words_defNode, wordsOf_wrapBody]
    simp
  | noOwner => exact .refl _
  | @selfOwner s hself hdot =>
    have hskip : s.next.Spans [] s.next.next := .skip hdot rfl
    exact (State.Spans.keyword hself).trans hskip
  | plainName hname => exact .message hname
  | @setterName s hname hsetter =>
    have hassign : s.next.current.kind = .assign := by
      simp only [State.namesSetter, Bool.and_eq_true, decide_eq_true_eq] at hsetter
      exact hsetter.1
    exact (State.Spans.setter hname).trans (.skip hassign rfl)
  | noParams => exact .refl _
  | @emptyParams s hparen hclose =>
    have hskip : s.next.next.Spans [] s.next.next.next := .skip hclose rfl
    exact (State.Spans.skip (opensArguments_kind hparen) rfl).trans hskip
  | @closedParams nodes s t hparen _ _ hclose ih =>
    have hskip : t.next.Spans [] t.next.next := .skip hclose rfl
    refine State.Spans.cast ((State.Spans.skip (opensArguments_kind hparen) rfl).trans
      (ih.trans hskip)) ?_
    simp
  | openParams _ _ _ _ ih => exact ih
  | @lastParam s hname _ =>
    have hfirst : s.next.Spans [.token .ident s.peek.literal] s.next.next := .token hname rfl
    exact hfirst
  | @nextParam nodes s t hname hcomma _ ih =>
    have hfirst : s.next.Spans [.token .ident s.peek.literal] s.next.next := .token hname rfl
    have hskip : s.next.next.Spans [] s.next.next.next := .skip hcomma rfl
    exact hfirst.trans (hskip.trans ih)
  | expression _ _ _ ihfirst ihrest =>
    obtain ⟨more, hnode, hrest⟩ := ihrest
    exact (ihfirst.trans hrest).cast hnode
  | done => exact ⟨[], (List.append_nil _).symm, .refl _⟩
  | @operation least operator left right node s t u _ hkind _ _ ihoperand ihrest =>
    obtain ⟨more, hnode, hrest⟩ := ihrest
    have hfound : s.next.Spans [.operator operator] s.next.next := .operator hkind
    refine ⟨_, ?_, hfound.trans (ihoperand.trans hrest)⟩
    have hsend : (sendNode s.peek.pos (some left) operator.text [some right]).words = _ :=
      words_sendNode s.peek.pos (some left) operator.text [right]
    rw [hnode, hsend, Word.message_operator]
    simp [Node.allWords]
  | @access least left inner node s t u _ hkind _ _ ihnamed ihrest =>
    obtain ⟨more, hinner, hnamed⟩ := ihnamed
    obtain ⟨more', hnode, hrest⟩ := ihrest
    have hskip : s.next.Spans [] s.next.next := .skip hkind rfl
    refine ⟨_, ?_, hskip.trans (hnamed.trans hrest)⟩
    rw [hnode, hinner]
    simp
  | @resolution least left node s t _ hkind hname _ ih =>
    obtain ⟨more, hnode, hrest⟩ := ih
    have hskip : s.next.Spans [] s.next.next := .skip hkind rfl
    have hfirst : s.next.next.Spans [.token .constant s.next.peek.literal] s.next.next.next :=
      .token hname rfl
    refine ⟨_, ?_, hskip.trans (hfirst.trans hrest)⟩
    rw [hnode]
    simp
  | @memberAssign receiver value s t hname hassign _ ih =>
    have hsetter : s.next.Spans [.message (s.peek.literal ++ "=")] s.next.next := .setter hname
    have hskip : s.next.next.Spans [] s.next.next.next := .skip hassign rfl
    refine ⟨_, ?_, hsetter.trans (hskip.trans ih)⟩
    refine (words_sendNode s.peek.pos (some receiver) (s.peek.literal ++ "=") [value]).trans ?_
    simp [Node.allWords]
  | @memberCall receiver args s t hname _ _ ih =>
    have hcall : s.next.Spans [.message s.peek.literal] s.next.next := .message hname
    refine ⟨_, ?_, hcall.trans ih⟩
    rw [words_sendNode]
    simp
  | leaf hleaf => exact .leaf hleaf
  | @localAssign value s t hkind hassign _ ih =>
    have hskip : s.next.Spans [] s.next.next := .skip hassign rfl
    have hvalue : s.next.next.Spans value.words (t.declaring s.current.literal).next := ih
    refine ((State.Spans.token hkind rfl).trans (hskip.trans hvalue)).cast ?_
    rw [Node.words_mk (by decide)]
    simp
  | localRef hkind => exact .token hkind rfl
  | @call args s t hkind _ _ _ ih =>
    have hcall : s.Spans [.message s.current.literal] s.next := .message (by rw [hkind]; rfl)
    refine (hcall.trans ih).cast ?_
    rw [words_sendNode]
    simp
  | @constAssign value s t hkind hassign _ ih =>
    have hskip : s.next.Spans [] s.next.next := .skip hassign rfl
    refine ((State.Spans.token hkind rfl).trans (hskip.trans ih)).cast ?_
    rw [Node.words_mk (by decide)]
    simp
  | const hkind => exact .token hkind rfl
  | @ivarAssign value s t hkind hassign _ ih =>
    have hskip : s.next.Spans [] s.next.next := .skip hassign rfl
    refine ((State.Spans.token hkind rfl).trans (hskip.trans ih)).cast ?_
    rw [Node.words_mk (by decide)]
    simp
  | ivarRef hkind => exact .token hkind rfl
  | @group nodes s t hkind _ hclose ih =>
    refine ((State.Spans.skip hkind rfl).trans (ih.trans (.skip hclose rfl))).cast ?_
    rw [words_begin]
    simp
  | noArguments => exact .refl _
  | @emptyArguments s hparen hclose =>
    have hskip : s.next.next.Spans [] s.next.next.next := .skip hclose rfl
    exact (State.Spans.skip (opensArguments_kind hparen) rfl).trans hskip
  | @closedArguments args s t hparen _ _ hclose ih =>
    have hskip : t.next.Spans [] t.next.next := .skip hclose rfl
    refine State.Spans.cast ((State.Spans.skip (opensArguments_kind hparen) rfl).trans
      (ih.trans hskip)) ?_
    simp
  | openArguments _ _ _ ih => exact ih
  | lastArgument _ _ ih => exact ih.cast (by simp [Node.allWords])
  | @nextArgument node nodes s t u _ hcomma _ ihinner ihrest =>
    have hskip : t.next.Spans [] t.next.next := .skip hcomma rfl
    exact ihinner.trans (hskip.trans ihrest)

end Garnet.Parse

namespace Garnet

open Parse

/-- The tree of an accepted text has the words of the text, each of them once and in order: without
its punctuation, the text consists of the words of the tree and of nothing else. Numbers are there
with their values. None of the tokens is illegal. -/
theorem parse_words {source : String} {locals : List String} {tree : Option Node}
    (h : parse source locals = .ok tree) :
    List.Forall₂ Word.Matches (Node.wordsOf tree)
      ((Token.Stream.ofSource source).listing.filter fun token => !token.kind.isPunctuation) ∧
    ∀ token ∈ (Token.Stream.ofSource source).listing, token.kind ≠ .illegal := by
  obtain ⟨nodes, t, rfl, hderives⟩ := derives_of_parse h
  obtain ⟨hend, hlegal⟩ := hderives.tokens_of_program fun _ => Token.kind_ne_eof_of_mem_scan
  have hspelled : (State.initial (.ofSource source) locals).Spelled :=
    fun _ hmem => Token.spells_of_mem_scan hmem
  obtain ⟨front, htokens, hwords⟩ := hderives.yields hspelled
  rw [hend, List.append_nil] at htokens
  have hfront : (Token.Stream.ofSource source).tokens = front := htokens
  constructor
  · rw [wordsOf_wrapBody, Token.Stream.listing, hfront, List.filter_append]
    simpa [Token.eof, Token.Kind.isPunctuation] using hwords
  · intro token hmem
    rcases List.mem_append.1 hmem with hmem | hmem
    · exact hlegal token hmem
    · rw [List.mem_singleton.1 hmem]
      exact Token.Kind.noConfusion

/-- A class with a superclass, a setter and an operator. -/
theorem parse_words_class :
    ∃ tree, parse "class A < B\n  def x=(v); @x = v + 1; end\nend" [] = .ok tree ∧
      Node.wordsOf tree =
        [.keyword .classWord, .token .constant "A", .operator .lt, .token .constant "B",
          .keyword .defWord, .token .ident "x", .token .ident "v", .token .ivar "@x",
          .token .ident "v", .operator .add, .int 1, .keyword .endWord, .keyword .endWord] ∧
      List.Forall₂ Word.Matches (Node.wordsOf tree)
        ((Token.Stream.ofSource "class A < B\n  def x=(v); @x = v + 1; end\nend").listing.filter
          fun token => !token.kind.isPunctuation) := by
  have hwords : (parse "class A < B\n  def x=(v); @x = v + 1; end\nend" []).toOption.map
      Node.wordsOf = some
        [.keyword .classWord, .token .constant "A", .operator .lt, .token .constant "B",
          .keyword .defWord, .token .ident "x", .token .ident "v", .token .ivar "@x",
          .token .ident "v", .operator .add, .int 1, .keyword .endWord, .keyword .endWord] := by
    decide +kernel
  obtain ⟨tree, hparse, htree⟩ := exists_of_parse_map hwords
  exact ⟨tree, hparse, htree, (parse_words hparse).1⟩

end Garnet

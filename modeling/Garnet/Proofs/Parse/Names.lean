import Garnet.Proofs.Parse.Words

/-! # The names in accepted texts

All names in the tree of an accepted text come from tokens. So they are made of the characters that
the lexer reads as parts of names and operators, and there are no blanks and no brackets in them.
-/

namespace Garnet

open Parse

/-! ### Tokens -/

namespace Token

/-- Characters that names and operators are made of, with the marks that names may have. -/
def isWordChar (c : Char) : Bool :=
  isNameChar c || "?!@=+-*/%<>".toList.contains c

/-- A text that is made of the characters of names and operators. -/
def Wordlike (text : String) : Prop :=
  ∀ c ∈ text.toList, isWordChar c = true

instance (text : String) : Decidable (Wordlike text) :=
  List.decidableBAll _ text.toList

theorem Wordlike.append {text more : String} (h : Wordlike text) (hmore : Wordlike more) :
    Wordlike (text ++ more) := by
  intro c hc
  rw [String.toList_append] at hc
  exact (List.mem_append.1 hc).elim (h c) (hmore c)

theorem Wordlike.cons {c : Char} {text : List Char} (h : Wordlike (String.ofList text))
    (hc : isWordChar c = true) : Wordlike (String.ofList (c :: text)) := by
  unfold Wordlike at h ⊢
  rw [String.toList_ofList] at h ⊢
  exact List.forall_mem_cons.2 ⟨hc, h⟩

theorem IsName.wordlike {text : String} (h : IsName text) : Wordlike text := by
  intro c hc
  by_contra hother
  rw [Bool.not_eq_true, isWordChar, Bool.or_eq_false_iff] at hother
  obtain ⟨hchar, hmarks⟩ := hother
  refine h.not_mem hchar ⟨?_, ?_⟩ hc
  · rintro rfl
    cases hmarks
  · rintro rfl
    cases hmarks

theorem wordlike_operator (operator : Operator) : Wordlike operator.text := by
  cases operator <;> decide +kernel

/-- The categories of tokens that give names to a tree. -/
def Kind.isNaming : Kind → Bool
  | .ident | .constant | .symbol | .ivar | .keyword _ | .op _ => true
  | _ => false

theorem isNaming_nameKind (text : String) : (nameKind text).isNaming = true := by
  unfold nameKind
  split
  next => rfl
  next => split <;> rfl

theorem wordlike_withEquals {rest : List Char} {both alone : Lexeme}
    (hboth : both.kind.isNaming = true → Wordlike both.literal)
    (halone : alone.kind.isNaming = true → Wordlike alone.literal) :
    (withEquals rest both alone).kind.isNaming = true →
      Wordlike (withEquals rest both alone).literal := by
  unfold withEquals
  split
  next => exact hboth
  next => exact halone

/-- One case for each first character. -/
theorem wordlike_lexeme (c : Char) (rest : List Char) :
    (lexeme c rest).kind.isNaming = true → Wordlike (lexeme c rest).literal := by
  have hother {kind : Kind} (hkind : kind.isNaming = false) (literal : String) :
      kind.isNaming = true → Wordlike literal :=
    fun h => absurd h (Bool.eq_false_iff.1 hkind)
  have hoperator (operator : Operator) :
      (Kind.op operator).isNaming = true → Wordlike operator.text :=
    fun _ => wordlike_operator operator
  have hname {first : Char} (hstart : isNameStart first = true) (more : List Char) :
      Wordlike (String.ofList (first :: nameTail more)) :=
    IsName.wordlike ⟨first, more, hstart, rfl⟩
  unfold lexeme
  dsimp only
  split
  case h_11 =>
    split
    next => exact hother rfl _
    next d more =>
      split
      next => exact hother rfl _
      next =>
        split
        next hstart => exact fun _ => hname hstart more
        next => exact hother rfl _
  case h_16 =>
    split
    next => exact hother rfl _
    next d more =>
      split
      next hstart => exact fun _ => (hname hstart more).cons (by decide)
      next => exact hother rfl _
  case h_17 =>
    split
    next => split <;> exact hother rfl _
    next =>
      split
      next hstart => exact fun _ => hname hstart rest
      next =>
        split
        next =>
          dsimp only
          split <;> exact hother rfl _
        next => exact hother rfl _
  case h_1 | h_2 | h_3 | h_4 | h_5 => exact hoperator _
  case h_12 => exact wordlike_withEquals (hoperator _) (hother rfl _)
  case h_13 => exact wordlike_withEquals (hoperator _) (hother rfl _)
  case h_14 | h_15 => exact wordlike_withEquals (hoperator _) (hoperator _)
  all_goals exact hother rfl _

end Token

open Token

/-! ### Words of a tree -/

namespace Word

/-- If the word may give a name to a tree, it is made of the characters of names and operators. -/
def WellSpelled : Word → Prop
  | .token kind literal => kind.isNaming = true → Wordlike literal
  | _ => True

theorem Matches.wellSpelled {word : Word} {token : Token} (h : word.Matches token)
    (htoken : token.kind.isNaming = true → Wordlike token.literal) : word.WellSpelled := by
  cases word with
  | token kind literal =>
    obtain ⟨rfl, rfl⟩ := h
    exact htoken
  | _ => trivial

theorem exists_matches {words : List Word} {tokens : List Token}
    (h : List.Forall₂ Word.Matches words tokens) :
    ∀ word ∈ words, ∃ token ∈ tokens, word.Matches token := by
  induction h with
  | nil => simp
  | @cons word token words tokens hfirst _ ih =>
    refine List.forall_mem_cons.2 ⟨⟨token, List.mem_cons_self, hfirst⟩, fun other hother => ?_⟩
    obtain ⟨found, hfound, hmatch⟩ := ih other hother
    exact ⟨found, List.mem_cons_of_mem _ hfound, hmatch⟩

theorem wordlike_of_message {text : String} (h : (message text).WellSpelled) : Wordlike text := by
  unfold message at h
  split at h
  next operator hfound =>
    have hsame : operator.text = text := by simpa using List.find?_some hfound
    exact hsame ▸ wordlike_operator operator
  next =>
    have hfront : Wordlike (withoutEquals text) := h (isNaming_nameKind _)
    unfold withoutEquals at hfront
    split at hfront
    next hlast =>
      have hequals : Wordlike "=" := by decide
      have happend := hfront.append hequals
      have hsame : String.ofList text.toList.dropLast ++ "=" = text := by
        rw [← String.toList_inj, String.toList_append, String.toList_ofList]
        exact List.dropLast_append_getLast? _ hlast
      rwa [hsame] at happend
    next => exact hfront

theorem wordlike_of_nameWord {kind : Node.Kind} {text : String}
    (h : (kind.nameWord text).WellSpelled) : Wordlike text := by
  unfold Node.Kind.nameWord at h
  split at h
  all_goals first | exact h rfl | exact wordlike_of_message h

end Word

theorem Child.words_subset_allWords (kind : Node.Kind) {child : Child} {children : List Child}
    (h : child ∈ children) : child.words kind ⊆ Child.allWords kind children := by
  induction children with
  | nil => exact absurd h List.not_mem_nil
  | cons first rest ih =>
    rcases List.mem_cons.1 h with rfl | hrest
    · exact List.subset_append_left _ _
    · exact List.subset_append_of_subset_right _ (ih hrest)

/-- The words of a part are words of the node. -/
theorem Child.words_subset {kind : Node.Kind} {child : Child} {children : List Child}
    (h : child ∈ children) (pos : Pos) :
    child.words kind ⊆ (Node.mk kind children pos).words := by
  unfold Node.words
  split
  next path parent body =>
    have hall := Child.words_subset_allWords .classDef h
    refine fun word hword => ?_
    have hmem := hall hword
    simp only [Child.allWords, Child.words, List.append_nil, List.mem_append] at hmem ⊢
    tauto
  next =>
    exact fun word hword => List.mem_append_left _
      (List.mem_append_right _ (Child.words_subset_allWords kind h hword))

/-! ### Trees -/

/-- All names in a tree are made of the characters of names and operators. -/
def Node.WellSpelled (node : Node) : Prop :=
  ∀ word ∈ node.words, word.WellSpelled

namespace Node.WellSpelled

variable {kind : Node.Kind} {children : List Child} {pos : Pos}

theorem child {inner : Node} (h : (Node.mk kind children pos).WellSpelled)
    (hchild : .node inner ∈ children) : inner.WellSpelled :=
  fun word hword => h word (Child.words_subset hchild pos hword)

theorem sym {name : String} (h : (Node.mk kind children pos).WellSpelled)
    (hname : .sym name ∈ children) : Wordlike name :=
  Word.wordlike_of_nameWord (h _ (Child.words_subset hname pos (List.mem_singleton_self _)))

end Node.WellSpelled

/-- The words of an accepted text are well spelled, because each of them is a token. -/
theorem wellSpelled_of_parse {source : String} {locals : List String} {tree : Option Node}
    (h : parse source locals = .ok tree) : ∀ node ∈ tree, node.WellSpelled := by
  obtain ⟨nodes, t, htree, hderives⟩ := derives_of_parse h
  have hspelled : (State.initial (.ofSource source) locals).Spelled :=
    fun _ hmem => Token.spells_of_mem_scan hmem
  obtain ⟨front, htokens, hmatches⟩ := hderives.yields hspelled
  intro node hnode word hword
  rw [htree, Option.mem_def] at hnode
  have hmem : word ∈ Node.allWords nodes := by
    rw [← wordsOf_wrapBody, hnode]
    exact hword
  obtain ⟨token, htoken, hmatch⟩ := Word.exists_matches hmatches word hmem
  have hscanned : token ∈ (State.initial (.ofSource source) locals).tokens :=
    htokens ▸ List.mem_append_left _ (List.mem_of_mem_filter htoken)
  exact hmatch.wellSpelled (Token.forall_mem_scan
    (fun kind literal => kind.isNaming = true → Wordlike literal) wordlike_lexeme hscanned)

end Garnet

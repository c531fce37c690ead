import Garnet.Proofs.Parse.Soundness
import Garnet.Proofs.Token.Spelling
import Garnet.Proofs.Tree.Constants

/-! # Names of constants in accepted texts

A constant gets into a tree as the text of a token, and the text of such a token is a name: it is
not empty, and there is no colon in it. So what separates the parts of a qualified name never stands
in one of the parts.
-/

namespace Garnet

namespace Token

theorem IsName.isSegment {text : String} (h : IsName text) : IsSegment text :=
  ⟨h.ne_empty, h.not_mem (by decide) (by decide)⟩

/-- Only a name can be a constant. -/
theorem isSegment_of_mem_scan {pos : Pos} {text : List Char} {token : Token}
    (h : token ∈ (scan pos text).1) (hkind : token.kind = .constant) : IsSegment token.literal := by
  have hspells := spells_of_mem_scan h
  rw [hkind] at hspells
  exact hspells.1.isSegment

end Token

namespace Parse

variable {allowed : String → Prop}

/-- All constants among the tokens have allowed names. -/
def State.NamesOnly (allowed : String → Prop) (s : State) : Prop :=
  ∀ token ∈ s.tokens, token.kind = .constant → allowed token.literal

namespace State.NamesOnly

variable {s : State}

theorem next (h : s.NamesOnly allowed) : s.next.NamesOnly allowed :=
  fun token hmem => h token (List.mem_of_mem_tail hmem)

theorem within (h : s.NamesOnly allowed) (names : List String) :
    (s.within names).NamesOnly allowed := h

/-- Behind the last token there is no constant. -/
theorem current (h : s.NamesOnly allowed) (hkind : s.current.kind = .constant) :
    allowed s.current.literal := by
  unfold State.current at hkind ⊢
  cases htokens : s.tokens with
  | nil =>
    rw [htokens] at hkind
    cases hkind
  | cons token rest =>
    rw [htokens] at hkind
    exact h token (htokens ▸ List.mem_cons_self) hkind

theorem peek (h : s.NamesOnly allowed) (hkind : s.peek.kind = .constant) :
    allowed s.peek.literal :=
  h.next.current hkind

end State.NamesOnly

/-- All constants in what a rule finds have allowed names. Rules that go on with a tree are given
one with allowed names. -/
def Phrase.NamesOnly (allowed : String → Prop) : Phrase → Prop
  | .statement found | .classStatement found | .defStatement found | .expression _ found
  | .primary found => found.NamesOnly allowed
  | .superclass found | .owner found => ∀ node ∈ found, node.NamesOnly allowed
  | .statements _ _ found | .params found | .paramNames found | .callArguments found
  | .argumentList found => ∀ node ∈ found, node.NamesOnly allowed
  | .classPath first found | .continuation _ first found | .member first found =>
    first.NamesOnly allowed → found.NamesOnly allowed
  | .methodName _ => True

/-! ### Trees -/

theorem namesOnly_leaf {token : Token} {node : Node} (h : leaf? token = some node) :
    node.NamesOnly allowed := by
  have hnone : node.constantNames = [] := by
    unfold leaf? at h
    split at h
    · obtain ⟨value, -, rfl⟩ := Option.map_eq_some_iff.1 h
      rfl
    · obtain ⟨value, -, rfl⟩ := Option.map_eq_some_iff.1 h
      rfl
    all_goals
      cases h
      try rfl
  intro name hname
  rw [hnone] at hname
  cases hname

/-- Nodes under one node that is no constant. -/
theorem namesOnly_nodes {kind : Node.Kind} (hkind : kind ≠ .const) {nodes : List Node}
    (h : ∀ node ∈ nodes, node.NamesOnly allowed) (pos : Pos) :
    (Node.mk kind (nodes.map .node) pos).NamesOnly allowed := by
  refine .ofOther hkind (fun child hchild => ?_) pos
  obtain ⟨node, hnode, rfl⟩ := List.mem_map.1 hchild
  exact h node hnode

theorem namesOnly_wrapBody {nodes : List Node} (h : ∀ node ∈ nodes, node.NamesOnly allowed) :
    ∀ node ∈ wrapBody nodes, node.NamesOnly allowed := by
  intro node hnode
  match nodes with
  | [] => cases hnode
  | [single] =>
    cases hnode
    exact h _ (List.mem_singleton_self _)
  | first :: second :: rest =>
    cases hnode
    exact namesOnly_nodes (by decide) h _

theorem namesOnly_const {space : Child} (hspace : space.NamesOnly allowed) {name : String}
    (hname : allowed name) (pos : Pos) :
    (Node.mk .const [space, .sym name] pos).NamesOnly allowed := by
  refine .ofParts (fun other hother => ?_) (by simp [hspace])
  rw [List.mem_singleton.1 hother]
  exact hname

theorem namesOnly_send (receiver : Option Node) (args : List Node)
    (hreceiver : ∀ node ∈ receiver, node.NamesOnly allowed)
    (hargs : ∀ node ∈ args, node.NamesOnly allowed) (pos : Pos) (name : String) :
    (sendNode pos receiver name (args.map some)).NamesOnly allowed := by
  have hlisted : ∀ child ∈ (args.map some).map Child.ofNode?, child.NamesOnly allowed := by
    rw [List.map_map]
    intro child hchild
    obtain ⟨node, hnode, rfl⟩ := List.mem_map.1 hchild
    exact hargs node hnode
  refine .ofOther (by decide) ?_ pos
  exact List.forall_mem_cons.2 ⟨.ofNode? hreceiver,
    List.forall_mem_cons.2 ⟨Child.namesOnly_sym name, hlisted⟩⟩

theorem namesOnly_defNode {singleton : Option Node} {parts : List Child}
    (hsingleton : ∀ node ∈ singleton, node.NamesOnly allowed)
    (hparts : ∀ child ∈ parts, child.NamesOnly allowed) (pos : Pos) :
    (defNode pos singleton parts).NamesOnly allowed := by
  cases singleton with
  | none => exact .ofOther (by decide) hparts pos
  | some owner =>
    have howner : (Child.node owner).NamesOnly allowed := hsingleton owner rfl
    exact .ofOther (by decide) (List.forall_mem_cons.2 ⟨howner, hparts⟩) pos

/-- Every constant that a phrase finds was a token. -/
theorem Derives.namesOnly {phrase : Phrase} {s t : State} (h : Derives phrase s t)
    (hs : s.NamesOnly allowed) : phrase.NamesOnly allowed ∧ t.NamesOnly allowed := by
  induction h with
  | noStatement => exact ⟨by simp [Phrase.NamesOnly], hs⟩
  | semicolon _ _ ih => exact ih hs.next
  | nextStatement _ _ _ _ _ _ ihfirst ihrest =>
    obtain ⟨hfirst, ht⟩ := ihfirst hs
    obtain ⟨hrest, hu⟩ := ihrest ht.next
    exact ⟨List.forall_mem_cons.2 ⟨hfirst, hrest⟩, hu⟩
  | classStatement _ _ ih => exact ih hs
  | defStatement _ _ ih => exact ih hs
  | simple _ _ _ ih => exact ih hs
  | classDef hname _ _ _ _ ihsteps ihabove ihinner =>
    -- The path is read on from the first name, which is the token after the keyword.
    obtain ⟨hpath, ht⟩ := ihsteps hs.next
    obtain ⟨habove, hu⟩ := ihabove ht
    obtain ⟨hbody, hv⟩ := ihinner (hu.next.within [])
    have hfirst := hpath (namesOnly_const Child.namesOnly_absent (hs.peek hname) _)
    have hparent := Child.NamesOnly.ofNode? habove
    have hinner := Child.NamesOnly.ofNode? (namesOnly_wrapBody hbody)
    exact ⟨.ofOther (by decide) (by simp [hfirst, hparent, hinner]) _, hv⟩
  | pathEnd => exact ⟨id, hs⟩
  | pathStep _ hname _ ih =>
    obtain ⟨hpath, ht⟩ := ih hs.next.next
    have hsegment := hs.next.peek hname
    exact ⟨fun houter => hpath (namesOnly_const (Child.namesOnly_node.2 houter) hsegment _), ht⟩
  | noSuperclass => exact ⟨by simp [Phrase.NamesOnly], hs⟩
  | superclass _ _ ih =>
    obtain ⟨hnode, ht⟩ := ih hs.next.next
    exact ⟨by simpa [Phrase.NamesOnly] using hnode, ht⟩
  | methodDef _ _ _ _ _ ihfront ihnamed ihlisted ihinner =>
    obtain ⟨hfront, ht⟩ := ihfront hs.next
    obtain ⟨-, hu⟩ := ihnamed ht
    obtain ⟨hlisted, hv⟩ := ihlisted hu
    obtain ⟨hbody, hw⟩ := ihinner (hv.next.within _)
    have hkind : Node.Kind.params ≠ .const := by decide
    have hparams := namesOnly_nodes hkind hlisted
    have hinner := Child.NamesOnly.ofNode? (namesOnly_wrapBody hbody)
    exact ⟨namesOnly_defNode hfront (by simp [hparams, hinner]) _, hw⟩
  | noOwner => exact ⟨by simp [Phrase.NamesOnly], hs⟩
  | selfOwner =>
    refine ⟨fun node hnode => ?_, hs.next.next⟩
    cases hnode
    exact .ofOther (by decide) (by simp) _
  | plainName => exact ⟨trivial, hs⟩
  | setterName => exact ⟨trivial, hs.next⟩
  | noParams => exact ⟨by simp [Phrase.NamesOnly], hs⟩
  | emptyParams => exact ⟨by simp [Phrase.NamesOnly], hs.next.next⟩
  | closedParams _ _ _ _ ih =>
    obtain ⟨hnodes, ht⟩ := ih hs.next
    exact ⟨hnodes, ht.next⟩
  | openParams _ _ _ _ ih => exact ih hs
  | lastParam =>
    refine ⟨fun node hnode => ?_, hs.next⟩
    rw [List.mem_singleton.1 hnode]
    exact .ofOther (by decide) (by simp) _
  | nextParam _ _ _ ih =>
    obtain ⟨hnodes, ht⟩ := ih hs.next.next
    exact ⟨List.forall_mem_cons.2 ⟨.ofOther (by decide) (by simp) _, hnodes⟩, ht⟩
  | expression _ _ _ ihfirst ihrest =>
    obtain ⟨hfirst, ht⟩ := ihfirst hs
    obtain ⟨hrest, hu⟩ := ihrest ht
    exact ⟨hrest hfirst, hu⟩
  | done => exact ⟨id, hs⟩
  | operation _ _ _ _ ihoperand ihrest =>
    obtain ⟨hoperand, ht⟩ := ihoperand hs.next.next
    obtain ⟨hrest, hu⟩ := ihrest ht
    refine ⟨fun hleft => hrest (namesOnly_send (some _) [_] ?_ ?_ _ _), hu⟩
    · simpa using hleft
    · simpa [Phrase.NamesOnly] using hoperand
  | access _ _ _ _ ihnamed ihrest =>
    obtain ⟨hnamed, ht⟩ := ihnamed hs.next
    obtain ⟨hrest, hu⟩ := ihrest ht
    exact ⟨fun hleft => hrest (hnamed hleft), hu⟩
  | resolution _ _ hname _ ihrest =>
    obtain ⟨hrest, ht⟩ := ihrest hs.next.next
    have hsegment := hs.next.peek hname
    exact ⟨fun hleft => hrest (namesOnly_const (Child.namesOnly_node.2 hleft) hsegment _), ht⟩
  | memberAssign _ _ _ ih =>
    obtain ⟨hvalue, ht⟩ := ih hs.next.next.next
    refine ⟨fun hreceiver => namesOnly_send (some _) [_] ?_ ?_ _ _, ht⟩
    · simpa using hreceiver
    · simpa [Phrase.NamesOnly] using hvalue
  | memberCall _ _ _ ih =>
    obtain ⟨hargs, ht⟩ := ih hs.next
    refine ⟨fun hreceiver => namesOnly_send (some _) _ ?_ hargs _ _, ht⟩
    simpa using hreceiver
  | leaf hleaf => exact ⟨namesOnly_leaf hleaf, hs⟩
  | localAssign _ _ _ ih =>
    obtain ⟨hvalue, ht⟩ := ih hs.next.next
    exact ⟨.ofOther (by decide) (by simpa [Phrase.NamesOnly] using hvalue) _, ht⟩
  | localRef => exact ⟨.ofOther (by decide) (by simp) _, hs⟩
  | call _ _ _ _ ih =>
    obtain ⟨hargs, ht⟩ := ih hs
    exact ⟨namesOnly_send none _ (by simp) hargs _ _, ht⟩
  | constAssign _ _ _ ih =>
    obtain ⟨hvalue, ht⟩ := ih hs.next.next
    exact ⟨.ofOther (by decide) (by simpa [Phrase.NamesOnly] using hvalue) _, ht⟩
  | const hkind => exact ⟨namesOnly_const Child.namesOnly_absent (hs.current hkind) _, hs⟩
  | ivarAssign _ _ _ ih =>
    obtain ⟨hvalue, ht⟩ := ih hs.next.next
    exact ⟨.ofOther (by decide) (by simpa [Phrase.NamesOnly] using hvalue) _, ht⟩
  | ivarRef => exact ⟨.ofOther (by decide) (by simp) _, hs⟩
  | group _ _ _ ih =>
    obtain ⟨hnodes, ht⟩ := ih hs.next
    exact ⟨namesOnly_nodes (by decide) hnodes _, ht⟩
  | noArguments => exact ⟨by simp [Phrase.NamesOnly], hs⟩
  | emptyArguments => exact ⟨by simp [Phrase.NamesOnly], hs.next.next⟩
  | closedArguments _ _ _ _ ih =>
    obtain ⟨hargs, ht⟩ := ih hs.next.next
    exact ⟨hargs, ht.next⟩
  | openArguments _ _ _ ih => exact ih hs.next
  | lastArgument _ _ ih =>
    obtain ⟨hnode, ht⟩ := ih hs
    exact ⟨by simpa [Phrase.NamesOnly] using hnode, ht⟩
  | nextArgument _ _ _ ihinner ihrest =>
    obtain ⟨hnode, ht⟩ := ihinner hs
    obtain ⟨hnodes, hu⟩ := ihrest ht.next.next
    exact ⟨List.forall_mem_cons.2 ⟨hnode, hnodes⟩, hu⟩

end Parse

open Parse

/-- The constants in the tree of an accepted text can be parts of qualified names. -/
theorem namesOnly_of_parse {source : String} {locals : List String} {tree : Option Node}
    (h : parse source locals = .ok tree) : ∀ node ∈ tree, node.NamesOnly IsSegment := by
  obtain ⟨nodes, t, rfl, hderives⟩ := derives_of_parse h
  have hstart : (State.initial (.ofSource source) locals).NamesOnly IsSegment :=
    fun _ hmem => Token.isSegment_of_mem_scan hmem
  exact namesOnly_wrapBody (hderives.namesOnly hstart).1

end Garnet

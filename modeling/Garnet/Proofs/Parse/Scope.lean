import Garnet.Proofs.Parse.Soundness
import Garnet.Proofs.Tree.Scope

/-! # What the grammar derives is well formed

The names that the parser takes as known while it reads are those that a tree can rely on: the scope
after a phrase holds what was known before it and what the phrase assigns. Along a derivation this
is an invariant, together with the shapes of the trees.
-/

namespace Garnet.Parse

/-- Whether a node names a class by a path of constants, which neither reads nor assigns a local
variable. -/
structure IsPath (node : Node) : Prop where
  kind : node.kind = .const
  ext (names : List String) : Child.Extends (.node node) names names

/-- Whether a node is a parameter. -/
def IsParam (node : Node) : Prop :=
  ∃ name pos, node = .mk .param [.sym name] pos

/-- What a phrase does to the names that are known. The phrases that continue an expression are
given its first part, which was read with other names known. -/
def Phrase.Sound (before after : List String) : Phrase → Prop
  | .statements _ _ found => Child.AllExtend (found.map .node) before after
  | .statement found => Child.Extends (.node found) before after
  | .classStatement found => Child.Extends (.node found) before after
  | .classPath outer found => IsPath outer → IsPath found ∧ after = before
  | .superclass found => Child.Extends (Child.ofNode? found) before after
  | .defStatement found => Child.Extends (.node found) before after
  | .owner found => (∀ owner ∈ found, ∃ pos, owner = .mk .selfRef [] pos) ∧ after = before
  | .methodName _ => after = before
  | .params found => (∀ node ∈ found, IsParam node) ∧ after = before
  | .paramNames found => (∀ node ∈ found, IsParam node) ∧ after = before
  | .expression _ found => Child.Extends (.node found) before after
  | .continuation _ left found =>
    ∀ names, Child.Extends (.node left) names before → Child.Extends (.node found) names after
  | .member receiver found =>
    ∀ names, Child.Extends (.node receiver) names before → Child.Extends (.node found) names after
  | .primary found => Child.Extends (.node found) before after
  | .callArguments found => Child.AllExtend (found.map .node) before after
  | .argumentList found => Child.AllExtend (found.map .node) before after

theorem extends_leaf {token : Token} {node : Node} (h : leaf? token = some node)
    (names : List String) : Child.Extends (.node node) names names := by
  have atom {child : Child} (hchild : child.isAtom = true) :
      Child.AllExtend [child] names names := .singleton (Child.extends_atom hchild names)
  unfold leaf? at h
  split at h
  · obtain ⟨value, -, rfl⟩ := Option.map_eq_some_iff.1 h
    exact (atom rfl).node _ rfl rfl rfl _
  · obtain ⟨value, -, rfl⟩ := Option.map_eq_some_iff.1 h
    exact (atom rfl).node _ rfl rfl rfl _
  · cases h
    exact (atom rfl).node _ rfl rfl rfl _
  · cases h
    exact (atom rfl).node _ rfl rfl rfl _
  · cases h
    exact (Child.AllExtend.nil names).node _ rfl rfl rfl _
  · cases h
    exact (Child.AllExtend.nil names).node _ rfl rfl rfl _
  · cases h
    exact (Child.AllExtend.nil names).node _ rfl rfl rfl _
  · cases h
    exact (Child.AllExtend.nil names).node _ rfl rfl rfl _
  · exact absurd h (by simp)

theorem all_isTerm_of_extend {nodes : List Node} {before after : List String}
    (h : Child.AllExtend (nodes.map .node) before after) :
    (nodes.map Child.node).all (·.isTerm) = true := by
  have hproper := h.proper
  rw [List.all_map] at hproper ⊢
  exact hproper

theorem isOptional_of_extend {node : Option Node} {before after : List String}
    (h : Child.Extends (Child.ofNode? node) before after) :
    (Child.ofNode? node).isOptional = true := by
  cases node with
  | none => rfl
  | some inner => exact h.proper

theorem extends_begin {nodes : List Node} {before after : List String}
    (h : Child.AllExtend (nodes.map .node) before after) (pos : Pos) :
    Child.Extends (.node (.mk .begin (nodes.map .node) pos)) before after :=
  h.node .begin rfl rfl (all_isTerm_of_extend h) pos

/-- The body made of statements does to the known names what the statements do. -/
theorem extends_wrapBody {nodes : List Node} {before after : List String}
    (h : Child.AllExtend (nodes.map .node) before after) :
    Child.Extends (Child.ofNode? (wrapBody nodes)) before after := by
  match nodes with
  | [] => exact ⟨rfl, rfl, trivial, h.names⟩
  | [node] =>
    refine ⟨?_, ?_, h.known.1, ?_⟩
    · simpa [wrapBody, Child.ofNode?] using h.proper
    · simpa [wrapBody, Child.ofNode?, Child.allWellShaped] using h.wellShaped
    · simpa [wrapBody, Child.ofNode?, Child.allAssigned] using h.names
  | first :: second :: rest => exact extends_begin h _

theorem extends_send (receiver : Option Node) (args : List Node) {before mid after : List String}
    (hreceiver : Child.Extends (Child.ofNode? receiver) before mid)
    (hargs : Child.AllExtend (args.map .node) mid after) (pos : Pos) (name : String) :
    Child.Extends (.node (sendNode pos receiver name (args.map some))) before after := by
  rw [sendNode, List.map_map]
  have hname : Child.Extends (.sym name) mid mid := Child.extends_atom rfl mid
  have hparts := Child.AllExtend.cons hreceiver (.cons hname hargs)
  refine hparts.node .send rfl rfl ?_ pos
  simp only [Node.Kind.admits, isOptional_of_extend hreceiver, Bool.true_and]
  exact all_isTerm_of_extend hargs

theorem wellShaped_params {parameters : List Node} (h : ∀ node ∈ parameters, IsParam node)
    (pos : Pos) : (Node.mk .params (parameters.map .node) pos).wellShaped = true := by
  simp only [Node.wellShaped, Bool.and_eq_true, Child.allWellShaped_map_node]
  constructor
  · simp only [Node.Kind.admits, List.all_map, List.all_eq_true]
    intro node hnode
    obtain ⟨name, pos, rfl⟩ := h node hnode
    rfl
  · intro node hnode
    obtain ⟨name, pos, rfl⟩ := h node hnode
    rfl

theorem paramNames_map_node (parameters : List Node) :
    Child.paramNames (parameters.map .node) = declaredNames parameters := by
  rw [Child.paramNames, List.filterMap_map]
  rfl

/-- The body of a method has a scope of its own, which begins with the parameters. -/
theorem extends_defNode {singleton : Option Node} {parameters body : List Node}
    {inside : List String} (howner : ∀ owner ∈ singleton, ∃ pos, owner = .mk .selfRef [] pos)
    (hparams : ∀ node ∈ parameters, IsParam node)
    (hbody : Child.AllExtend (body.map .node) (declaredNames parameters) inside)
    (pos paramsPos : Pos) (name : String) (names : List String) :
    Child.Extends (.node (defNode pos singleton
      [.sym name, .node (.mk .params (parameters.map .node) paramsPos),
        Child.ofNode? (wrapBody body)])) names names := by
  have hwrapped := extends_wrapBody hbody
  have hknown := hwrapped.known
  rw [← paramNames_map_node] at hknown
  have hparts : Child.allWellShaped [.sym name,
      .node (.mk .params (parameters.map .node) paramsPos),
      Child.ofNode? (wrapBody body)] = true := by
    simp [Child.allWellShaped, Child.wellShaped, wellShaped_params hparams, hwrapped.wellShaped]
  have hadmits : Node.Kind.admits .methodDef [.sym name,
      .node (.mk .params (parameters.map .node) paramsPos), Child.ofNode? (wrapBody body)] = true :=
    isOptional_of_extend hwrapped
  cases singleton with
  | none =>
    refine ⟨rfl, Bool.and_eq_true_iff.2 ⟨hadmits, hparts⟩, hknown, ?_⟩
    simp [Child.assigned, defNode, Node.assigned]
  | some owner =>
    obtain ⟨ownerPos, rfl⟩ := howner owner rfl
    refine ⟨rfl, Bool.and_eq_true_iff.2 ⟨hadmits, hparts⟩, hknown, ?_⟩
    simp [Child.assigned, defNode, Node.assigned]

theorem extends_resolution {outer : Node} {before after : List String}
    (h : Child.Extends (.node outer) before after) (name : String) (pos : Pos) :
    Child.Extends (.node (.mk .const [.node outer, .sym name] pos)) before after := by
  have hparts : Child.AllExtend [.node outer, .sym name] before after :=
    .cons h (.singleton (Child.extends_atom rfl after))
  exact hparts.node .const rfl rfl h.proper pos

theorem extends_ivarAssign {value : Node} {before after : List String}
    (h : Child.Extends (.node value) before after) (name : String) (pos : Pos) :
    Child.Extends (.node (.mk .ivarAssign [.sym name, .node value] pos)) before after := by
  have hparts : Child.AllExtend [.sym name, .node value] before after :=
    .cons (Child.extends_atom rfl before) (.singleton h)
  exact hparts.node .ivarAssign rfl rfl h.proper pos

theorem extends_constAssign {value : Node} {before after : List String}
    (h : Child.Extends (.node value) before after) (name : String) (pos : Pos) :
    Child.Extends (.node (.mk .constAssign [.absent, .sym name, .node value] pos))
      before after := by
  have hparts : Child.AllExtend [.absent, .sym name, .node value] before after :=
    .cons (Child.extends_atom rfl before) (.cons (Child.extends_atom rfl before) (.singleton h))
  exact hparts.node .constAssign rfl rfl h.proper pos

theorem isPath_first (name : String) (pos : Pos) :
    IsPath (.mk .const [.absent, .sym name] pos) where
  kind := rfl
  ext names := by
    have hparts : Child.AllExtend [.absent, .sym name] names names :=
      .cons (Child.extends_atom rfl names) (.singleton (Child.extends_atom rfl names))
    exact hparts.node .const rfl rfl rfl pos

theorem IsPath.step {outer : Node} (h : IsPath outer) (name : String) (pos : Pos) :
    IsPath (.mk .const [.node outer, .sym name] pos) where
  kind := rfl
  ext names := extends_resolution (h.ext names) name pos

/-- Every phrase that the grammar derives does to the known names what its scopes say. -/
theorem Derives.sound {phrase : Phrase} {s t : State} (h : Derives phrase s t) :
    phrase.Sound s.scope t.scope := by
  induction h with
  | noStatement => exact .nil _
  | semicolon _ _ ih => exact ih
  | nextStatement _ _ _ _ _ _ ihfirst ihrest => exact .cons ihfirst ihrest
  | classStatement _ _ ih => exact ih
  | defStatement _ _ ih => exact ih
  | simple _ _ _ ih => exact ih
  | classDef _ _ _ _ _ ihsteps ihabove ihinner =>
    -- The path leaves the scope as it was, and so does the body, which has a scope of its own.
    obtain ⟨hpath, hscope⟩ := ihsteps (isPath_first _ _)
    simp only [Phrase.Sound, hscope, State.next_scope] at ihabove
    have hbody := extends_wrapBody ihinner
    exact .classDef (by simp [Child.isOf, hpath.kind]) (hpath.ext _) ihabove
      (isOptional_of_extend ihabove) hbody (isOptional_of_extend hbody) _
  | pathEnd => exact fun h => ⟨h, rfl⟩
  | pathStep _ _ _ ih => exact fun h => ih (h.step _ _)
  | noSuperclass => exact Child.extends_atom rfl _
  | superclass _ _ ih => exact ih
  | methodDef _ _ _ _ _ ihfront ihnamed ihlisted ihinner =>
    obtain ⟨howner, hfront⟩ := ihfront
    obtain ⟨hparams, hlisted⟩ := ihlisted
    have hscope := hlisted.trans (Eq.trans ihnamed hfront)
    simp only [Phrase.Sound, State.within_scope, hscope]
    exact extends_defNode howner hparams ihinner _ _ _ _
  | noOwner => exact ⟨by simp, rfl⟩
  | selfOwner => exact ⟨by simp, rfl⟩
  | plainName => rfl
  | setterName => rfl
  | noParams => exact ⟨by simp, rfl⟩
  | emptyParams => exact ⟨by simp, rfl⟩
  | closedParams _ _ _ _ ih => exact ih
  | openParams _ _ _ _ ih => exact ih
  | lastParam => exact ⟨by simp [IsParam], rfl⟩
  | nextParam _ _ _ ih => exact ⟨by simpa [IsParam] using ih.1, ih.2⟩
  | expression _ _ _ ihfirst ihrest => exact ihrest _ ihfirst
  | done => exact fun _ hleft => hleft
  | operation _ _ _ _ ihoperand ihrest =>
    intro names hleft
    exact ihrest names (extends_send (some _) [_] hleft (.singleton ihoperand) _ _)
  | access _ _ _ _ ihnamed ihrest => exact fun names hleft => ihrest names (ihnamed names hleft)
  | resolution _ _ _ _ ihrest =>
    exact fun names hleft => ihrest names (extends_resolution hleft _ _)
  | memberAssign _ _ _ ih =>
    exact fun names hreceiver => extends_send (some _) [_] hreceiver (.singleton ih) _ _
  | memberCall _ _ _ ih => exact fun names hreceiver => extends_send (some _) _ hreceiver ih _ _
  | leaf hleaf => exact extends_leaf hleaf _
  | localAssign _ _ _ ih => exact ih.localAssign _ _
  | localRef _ _ hknown => exact Child.extends_localRef hknown _
  | call _ _ _ _ ih => exact extends_send none _ (Child.extends_atom rfl _) ih _ _
  | constAssign _ _ _ ih => exact extends_constAssign ih _ _
  | const => exact (isPath_first _ _).ext _
  | ivarAssign _ _ _ ih => exact extends_ivarAssign ih _ _
  | ivarRef => exact Child.AllExtend.node (.singleton (Child.extends_atom rfl _)) _ rfl rfl rfl _
  | group _ _ _ ih => exact extends_begin ih _
  | noArguments => exact .nil _
  | emptyArguments => exact .nil _
  | closedArguments _ _ _ _ ih => exact ih
  | openArguments _ _ _ ih => exact ih
  | lastArgument _ _ ih => exact .singleton ih
  | nextArgument _ _ _ ihinner ihrest => exact .cons ihinner ihrest

end Garnet.Parse

namespace Garnet

open Parse

/-- The tree of an accepted text is well shaped and reads no local name that is neither given nor
assigned before. -/
theorem extends_of_parse {source : String} {locals : List String} {tree : Option Node}
    (h : parse source locals = .ok tree) :
    ∃ after, Child.Extends (Child.ofNode? tree) locals after := by
  obtain ⟨nodes, t, rfl, hderives⟩ := derives_of_parse h
  exact ⟨t.scope, extends_wrapBody hderives.sound⟩

end Garnet

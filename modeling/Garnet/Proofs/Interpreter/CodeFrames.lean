import Garnet.Proofs.Interpreter.Origin
import Garnet.Proofs.Interpreter.Runs

/-! # Code frames of faults

A fault happens at a node of an accepted text: of the one that runs, or of an earlier one that has
defined a method. Its code frame is always cut from the text that runs. So the frame shows the line
that the place of the node means, unless the node comes from an earlier text; then it shows another
line, or none.
-/

namespace Garnet

/-! ### Nodes of a tree -/

/-- The nodes of a tree: the root, and the children of nodes. -/
inductive Node.Inside (tree : Node) : Node → Prop
  | root : Inside tree tree
  | child {node inner : Node} (h : Inside tree node) (hchild : .node inner ∈ node.children) :
    Inside tree inner

/-- What stands at or below a node of a tree stands in the tree. -/
theorem Node.Inside.preorder_subset {tree node : Node} (h : tree.Inside node) :
    node.preorder ⊆ tree.preorder := by
  induction h with
  | root => exact List.Subset.refl _
  | @child node inner _ hchild ih =>
    obtain ⟨kind, children, pos⟩ := node
    exact fun place hplace =>
      ih (List.mem_cons_of_mem _ (Child.preorder_subset_visitAll hchild hplace))

theorem Node.Inside.mem_preorder {tree node : Node} (h : tree.Inside node) :
    (node.kind, node.pos) ∈ tree.preorder := by
  refine h.preorder_subset ?_
  obtain ⟨kind, children, pos⟩ := node
  exact List.mem_cons_self

/-! ### Accepted texts -/

/-- A node of one of the trees. -/
def KnownFrom (accepted : List (String × Node)) (node : Node) : Prop :=
  ∃ text tree, (text, tree) ∈ accepted ∧ tree.Inside node

namespace Interpreter

/-- The texts that are accepted when they run one after the other, with their trees. -/
def accepted (interp : Interpreter) : List String → List (String × Node)
  | [] => []
  | source :: rest =>
    (match parse source interp.current.locals.names with
      | .ok (some tree) => [(source, tree)]
      | _ => []) ++ (interp.run source).2.accepted rest

theorem accepted_append (interp : Interpreter) (first second : List String) :
    interp.accepted (first ++ second) =
      interp.accepted first ++ (interp.runAll first).accepted second := by
  induction first generalizing interp with
  | nil => rfl
  | cons source rest ih =>
    rw [List.cons_append, accepted, accepted, ih, List.append_assoc]
    rfl

theorem closed_knownFrom (trees : List (String × Node)) : Closed (KnownFrom trees) := by
  rintro node ⟨text, tree, hmem, hinside⟩ child hchild
  cases child with
  | node inner => exact ⟨text, tree, hmem, hinside.child hchild⟩
  | _ => trivial

theorem Knows.mono {interp : Interpreter} {known more : Node → Prop} (h : interp.Knows known)
    (hmore : ∀ node, known node → more node) : interp.Knows more :=
  fun id name method params body hmethod hcode node hnode =>
    hmore node (h id name method params body hmethod hcode node hnode)

/-- The code frame is cut from a text, and the fault is at a known node or at none. -/
structure Placed (known : Node → Prop) (source : String) (error : RuntimeError) : Prop where
  codeFrame : error.codeFrame = codeFrame source error.pos
  site : ∃ site : Option Node, (∀ node ∈ site, known node) ∧ error.nodeKind = site.map Node.kind ∧
    error.pos = (site.map Node.pos).getD .unknown

/-- A run is the evaluation of its tree. -/
theorem run_eq_interpret {interp : Interpreter} {source : String} {tree : Option Node}
    (hparse : parse source interp.current.locals.names = .ok tree) :
    interp.run source = (((interp.reading source).interpret tree).1.mapError .runtime,
      ((interp.reading source).interpret tree).2) :=
  run_of_parse hparse rfl

/-- A fault of a run is placed in the text of that run, at a node of its tree or of a method. -/
theorem interpret_placed {interp : Interpreter} {known : Node → Prop} (hclosed : Closed known)
    (hknows : interp.Knows known) {tree : Option Node} (htree : ∀ node ∈ tree, known node)
    {error : RuntimeError} (h : (interp.interpret tree).1 = .error error) :
    Placed known interp.source error := by
  obtain ⟨moment, last, hreaches, hraised⟩ :=
    (interpret_traced hclosed hknows htree).failed error h
  obtain ⟨fault, site, notes, -, hsite, rfl⟩ := hraised.error
  refine ⟨?_, site, hsite, rfl, rfl⟩
  rw [← hreaches.source_eq]
  rfl

/-- One run adds its own tree to those that the methods come from. -/
theorem run_placed {interp : Interpreter} {trees : List (String × Node)}
    (h : interp.Knows (KnownFrom trees)) (source : String) :
    (interp.run source).2.Knows (KnownFrom (trees ++ interp.accepted [source])) ∧
      ∀ error ∈ runtimeError? (interp.run source).1,
        Placed (KnownFrom (trees ++ interp.accepted [source])) source error := by
  have hknows : interp.Knows (KnownFrom (trees ++ interp.accepted [source])) := by
    refine h.mono ?_
    rintro node ⟨text, tree, hmem, hinside⟩
    exact ⟨text, tree, List.mem_append_left _ hmem, hinside⟩
  rcases hparse : parse source interp.current.locals.names with failure | tree
  · have hrun : interp.run source = (.error (.parse failure), interp) := by rw [run, hparse]
    rw [hrun]
    exact ⟨hknows, fun _ herror => by cases herror⟩
  · have htree : ∀ node ∈ tree, KnownFrom (trees ++ interp.accepted [source]) node := by
      rintro node rfl
      refine ⟨source, node, List.mem_append_right _ ?_, .root⟩
      rw [accepted, hparse]
      exact List.mem_cons_self
    have hclosed := closed_knownFrom (trees ++ interp.accepted [source])
    have hreading : (interp.reading source).Knows _ := hknows
    rw [run_eq_interpret hparse]
    refine ⟨(interpret_traced hclosed hreading htree).knows, fun error herror => ?_⟩
    rcases hrun : ((interp.reading source).interpret tree).1 with raised | value
    · rw [hrun] at herror
      cases herror
      exact interpret_placed hclosed hreading htree hrun
    · rw [hrun] at herror
      cases herror

/-- Between runs, all methods come from accepted texts. -/
theorem runAll_knows (limit : Int) (sink : Sink) (history : List String) :
    ((new limit sink).runAll history).Knows (KnownFrom ((new limit sink).accepted history)) := by
  suffices hstep : ∀ (interp : Interpreter) trees, interp.Knows (KnownFrom trees) →
      (interp.runAll history).Knows (KnownFrom (trees ++ interp.accepted history)) from
    hstep _ [] (World.allBodies_initial _)
  induction history with
  | nil =>
    intro interp trees h
    rw [accepted, List.append_nil]
    exact h
  | cons source rest ih =>
    intro interp trees h
    have hsplit : interp.accepted (source :: rest) =
        interp.accepted [source] ++ (interp.run source).2.accepted rest :=
      accepted_append interp [source] rest
    rw [hsplit, ← List.append_assoc]
    exact ih _ _ (run_placed h source).1

/-- Whatever has run before, the code frame of a fault is cut from the text that runs. It shows the
line that is meant, unless the fault happens at a node of an earlier text. -/
theorem run_codeFrame {limit : Int} {sink : Sink} {history : List String} {source : String}
    {error : RuntimeError}
    (h : runtimeError? (((new limit sink).runAll history).run source).1 = some error) :
    error.codeFrame = codeFrame source error.pos ∧
      (error.pos ≠ .unknown → ∃ text tree kind,
        (text, tree) ∈ (new limit sink).accepted (history ++ [source]) ∧
        error.nodeKind = some kind ∧ (kind, error.pos) ∈ tree.preorder ∧
        ((text, tree) ∈ (new limit sink).accepted history ∨
          error.codeFrame = codeFrame text error.pos)) := by
  have hplaced := (run_placed (runAll_knows limit sink history) source).2 error h
  obtain ⟨site, hsite, hkind, hpos⟩ := hplaced.site
  refine ⟨hplaced.codeFrame, fun hknown => ?_⟩
  cases site with
  | none => exact absurd hpos hknown
  | some node =>
    obtain ⟨text, tree, hmem, hinside⟩ := hsite node rfl
    have hplace : error.pos = node.pos := hpos
    rw [← accepted_append] at hmem
    refine ⟨text, tree, node.kind, hmem, hkind, hplace ▸ hinside.mem_preorder, ?_⟩
    rw [accepted_append] at hmem
    rcases List.mem_append.1 hmem with hearlier | hnow
    · exact .inl hearlier
    · right
      rw [accepted, accepted, List.append_nil] at hnow
      split at hnow
      next =>
        cases List.mem_singleton.1 hnow
        exact hplaced.codeFrame
      next => cases hnow

/-- A fault in the second line of a text, after a call of a method that an earlier text defined. -/
theorem run_codeFrame_after_call :
    ∃ error, runtimeError? (((new 0 {}).runAll ["def f\nend"]).run "f\nmissing").1 = some error ∧
      error.pos = ⟨2, 1⟩ ∧ error.codeFrame = codeFrame "f\nmissing" ⟨2, 1⟩ := by
  have hrun : (runtimeError? (((new 0 {}).runAll ["def f\nend"]).run "f\nmissing").1).map
      (·.pos) = some ⟨2, 1⟩ := by decide +kernel
  obtain ⟨error, herror, hpos⟩ := Option.map_eq_some_iff.1 hrun
  exact ⟨error, herror, hpos, hpos ▸ (run_codeFrame herror).1⟩

/-- A method of an earlier text fails in its second line, and the code frame shows the second line
of the text that calls it. Of no text is this the frame at the node where the fault happened. -/
theorem codeFrame_of_later_text :
    ∃ error ∈ runtimeError?
        (((new 0 {}).runAll ["def f\n  missing\nend"]).run "f\nputs \"x\"").1,
      error.pos = ⟨2, 3⟩ ∧
      error.codeFrame = some "  --> line 2, column 3\n 2 | puts \"x\"\n   |   ^" ∧
      ∀ entry ∈ (new 0 {}).accepted ["def f\n  missing\nend", "f\nputs \"x\""],
        ∀ kind ∈ error.nodeKind, (kind, error.pos) ∈ entry.2.preorder →
          error.codeFrame ≠ codeFrame entry.1 error.pos := by
  decide +kernel

end Interpreter

end Garnet

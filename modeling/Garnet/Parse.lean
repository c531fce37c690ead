import Garnet.Parse.Grammar
import Garnet.Token.Lexer

/-! # Parsing

A source text is accepted with a tree, or refused with the list of its faults. An empty program is
accepted and has no tree.
-/

namespace Garnet

namespace Parse

/-- A bound on the nesting of grammar rules for a text with this many tokens. Between two uses of
rules that do not move on, at least one token is consumed. -/
def depthBound (tokens : Nat) : Nat :=
  8 * (tokens + 2)

/-- Where the parser stands before it has read anything. -/
def State.initial (stream : Token.Stream) (locals : List String) : State where
  tokens := stream.tokens
  endPos := stream.endPos
  scope := locals
  issues := #[]

/-- Read a whole program, with the faults that were found. -/
def program (stream : Token.Stream) (locals : List String) : Option Node × List Issue :=
  let start := State.initial stream locals
  let (body, final) := (statements none (depthBound stream.tokens.length) none).run start
  (wrapBody body, final.issues.toList)

end Parse

/-- The tree of a source text, in which the given local names count as assigned from the start. -/
def parse (source : String) (locals : List String) : Except ParseError (Option Node) :=
  let (tree, issues) := Parse.program (.ofSource source) locals
  if issues.isEmpty then .ok tree else .error ⟨source, issues⟩

theorem parse_eq_ok_iff {source : String} {locals : List String} {tree : Option Node} :
    parse source locals = .ok tree ↔ Parse.program (.ofSource source) locals = (tree, []) := by
  unfold parse
  obtain ⟨found, issues⟩ := Parse.program (.ofSource source) locals
  cases issues <;> simp

/-- A text of which some part of the tree is known is accepted. -/
theorem exists_of_parse_map {α : Type} {source : String} {locals : List String}
    {part : Option Node → α} {a : α} (h : (parse source locals).toOption.map part = some a) :
    ∃ tree, parse source locals = .ok tree ∧ part tree = a := by
  rcases hparse : parse source locals with error | tree
  · rw [hparse] at h
    cases h
  · rw [hparse] at h
    exact ⟨tree, rfl, Option.some.inj h⟩

end Garnet

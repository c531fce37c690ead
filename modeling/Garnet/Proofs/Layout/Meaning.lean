import Garnet.Proofs.Layout.Pieces
import Garnet.Proofs.Parse.Joining
import Garnet.Proofs.Parse.Layout

/-! # Formatting keeps the meaning

An accepted text is accepted again in its laid out form, with the same tree up to places. Formatting
works on lines, and two things can get in its way: a carriage return in the middle of a line is a
blank for the lexer and a line end for the layout, and the blanks of a string literal are laid out
like any others.
-/

namespace Garnet

open Parse

/-- What the grammar can see of a text does not change with a line end in front. -/
theorem Token.layout_ofSource (source : String) :
    layout (Stream.ofSource source).tokens = Piece.layout (pieces ('\n' :: source.toList)) := by
  rw [layout_tokens, Piece.layout_newline]

/-- The pieces of an accepted text are tokens of the language. -/
theorem legal_of_parse {source : String} {locals : List String} {tree : Option Node}
    (h : parse source locals = .ok tree) {piece : Token.Piece}
    (hpiece : piece ∈ Token.pieces source.toList) : piece.kind ≠ .illegal := by
  obtain ⟨nodes, t, -, hderives⟩ := derives_of_parse h
  obtain ⟨-, hlegal⟩ := hderives.tokens_of_program fun _ => Token.kind_ne_eof_of_mem_scan
  have hkind : piece.kind ∈ (Token.scan .start source.toList).1.map Token.kind := by
    rw [← Token.map_kind_pieces]
    exact List.mem_map_of_mem hpiece
  obtain ⟨token, htoken, heq⟩ := List.mem_map.1 hkind
  rw [← heq]
  exact hlegal token htoken

/-- Optional trees that differ in places only are printed alike. -/
theorem Parse.SameTree.textOf {found found' : Option Node} (h : SameTree found found') :
    Node.textOf found' = Node.textOf found := by
  have herase (node : Node) : node.erase.text = node.text := Node.text_mapPos _ node
  rcases h.cases with ⟨rfl, rfl⟩ | ⟨node, node', rfl, rfl, hnode⟩
  · rfl
  · change node'.text = node.text
    rw [← herase, hnode, herase]

/-- A text that is accepted is accepted again in its laid out form, and its tree is printed as
before. This holds if carriage returns stand at the ends of lines only, and if no string literal has
a carriage return, a blank in front of a line end, a tab behind one or three line ends in a row. -/
theorem parse_format {source : String} {locals : List String} {tree : Option Node}
    (h : parse source locals = .ok tree) (hreturns : Layout.ReturnsEndLines source.toList)
    (hsteady : ∀ piece ∈ Token.pieces source.toList, piece.kind = .string →
      Token.Steady piece.text) :
    ∃ tree', parse (Layout.format source) locals = .ok tree' ∧
      Node.textOf tree' = Node.textOf tree := by
  have hsettled : ∀ piece ∈ Token.pieces source.toList, piece.Settled :=
    fun piece hpiece => ⟨legal_of_parse h hpiece, hsteady piece hpiece⟩
  have hlayout : Token.layout (Token.Stream.ofSource (Layout.format source)).tokens =
      Token.layout (Token.Stream.ofSource source).tokens := by
    rw [Token.layout_ofSource, Token.layout_ofSource, Layout.format, String.toList_ofList,
      Layout.pieces_formatChars hreturns hsettled]
  obtain ⟨tree', hparse, htree⟩ := parse_of_layout hlayout h
  exact ⟨tree', hparse, htree.textOf⟩

/-- A class with tabs, carriage returns, blanks at line ends, several empty lines, a comment and a
string literal that goes over three lines. -/
def Layout.crooked : String :=
  "\n\n\tclass A\r\n\t\tdef b \r\n\t\t\tputs 'x\n\n  y'\t\n\n\n\n\t\tend # b \r\nend\r\r"

theorem parse_format_crooked :
    Layout.format Layout.crooked =
      "  class A\n    def b\n      puts 'x\n\n  y'\n\n    end # b\nend\n" ∧
    ∃ tree, parse (Layout.format Layout.crooked) [] = .ok tree ∧ Node.textOf tree =
      "(class (const nil :A) nil (def :b (args) (send nil :puts (str \"x\\n\\n  y\"))))" := by
  have htext : (parse Layout.crooked []).toOption.map Node.textOf = some
      "(class (const nil :A) nil (def :b (args) (send nil :puts (str \"x\\n\\n  y\"))))" := by
    decide +kernel
  obtain ⟨tree, hparse, htree⟩ := exists_of_parse_map htext
  obtain ⟨tree', hparse', htree'⟩ := parse_format hparse (by decide +kernel) (by decide +kernel)
  exact ⟨by decide +kernel, tree', hparse', htree'.trans htree⟩

/-- Without these conditions the tree may change: here a literal loses a blank, and a call loses its
argument. -/
theorem format_changes_tree :
    (∃ tree tree', parse "'a \nb'" [] = .ok tree ∧
      parse (Layout.format "'a \nb'") [] = .ok tree' ∧ Node.textOf tree' ≠ Node.textOf tree) ∧
    ∃ tree tree', parse "a\rb" [] = .ok tree ∧
      parse (Layout.format "a\rb") [] = .ok tree' ∧ Node.textOf tree' ≠ Node.textOf tree := by
  have hdiffer {source text text' : String}
      (h : (parse source []).toOption.map Node.textOf = some text)
      (h' : (parse (Layout.format source) []).toOption.map Node.textOf = some text')
      (hne : text' ≠ text) :
      ∃ tree tree', parse source [] = .ok tree ∧ parse (Layout.format source) [] = .ok tree' ∧
        Node.textOf tree' ≠ Node.textOf tree := by
    obtain ⟨tree, hparse, rfl⟩ := exists_of_parse_map h
    obtain ⟨tree', hparse', rfl⟩ := exists_of_parse_map h'
    exact ⟨tree, tree', hparse, hparse', hne⟩
  have hliteral : (parse "'a \nb'" []).toOption.map Node.textOf = some "(str \"a \\nb\")" := by
    decide +kernel
  have hliteral' : (parse (Layout.format "'a \nb'") []).toOption.map Node.textOf =
      some "(str \"a\\nb\")" := by decide +kernel
  have hcall : (parse "a\rb" []).toOption.map Node.textOf =
      some "(send nil :a (send nil :b))" := by decide +kernel
  have hcall' : (parse (Layout.format "a\rb") []).toOption.map Node.textOf =
      some "(begin (send nil :a) (send nil :b))" := by decide +kernel
  exact ⟨hdiffer hliteral hliteral' (by decide), hdiffer hcall hcall' (by decide)⟩

end Garnet

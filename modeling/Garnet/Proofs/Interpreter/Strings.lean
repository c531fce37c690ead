import Garnet.Proofs.Interpreter.Occurring
import Garnet.Proofs.Interpreter.Values
import Garnet.Proofs.Parse.Literals

/-! # Strings as values and as sources

A source that is one literal runs to a new string with the text that the literal was written for.
In the other direction, a string is shown as a source that is one literal again.
-/

namespace Garnet.Interpreter

open Token World

/-- A literal is one token, and it runs to a new string with the text it was written for, whatever
has been run before. Between single quotes an end mark cannot be written. -/
theorem run_asLiteral {quote : Char} {text : String}
    (hquote : quote = '"' ∨ quote = '\'' ∧ nul ∉ text.toList) (interp : Interpreter) :
    (Stream.ofSource (asLiteral quote text)).listing =
        [⟨.string, text, .start⟩, eof (.ofLast (asLiteral quote text).toList)] ∧
      ∃ value after, interp.run (asLiteral quote text) = (.ok value, after) ∧
        (value, after.world) = interp.world.newString text ∧
        after.world.classOf value = .stringClass ∧
        (after.world.object value).payload = some text := by
  have hdenotes := denotes_literal hquote
  have hmark : quote = '"' ∨ quote = '\'' := hquote.imp_right And.left
  refine ⟨?_, ?_⟩
  · rw [asLiteral, hdenotes.ofSource hmark, String.ofList_toList, String.toList_ofList]
    rfl
  · have hparse := hdenotes.parse hmark interp.current.locals.names
    rw [String.ofList_toList] at hparse
    have hnew : (interp.world.newString text).2.object (interp.world.newString text).1 =
        { cls := .stringClass, payload := some text } := by
      rw [newString, object_allocate, allocate, if_pos rfl]
    refine ⟨_, _, run_of_parse hparse rfl, rfl, ?_, ?_⟩
    · exact congrArg Object.cls hnew
    · exact congrArg Object.payload hnew

/-- A text with a line end, a backslash and both kinds of quotes, between single quotes and run by
an interpreter that knows a local variable. -/
theorem run_asLiteral_quotes :
    asLiteral '\'' "a\n\"b\\'" = "'a\n\"b\\\\\\''" ∧
      ∃ value after, ((new 1 {}).run "a = nil").2.run (asLiteral '\'' "a\n\"b\\'") =
        (.ok value, after) ∧ (after.world.object value).payload = some "a\n\"b\\'" := by
  have hquote : '\'' = '"' ∨ '\'' = '\'' ∧ nul ∉ "a\n\"b\\'".toList := .inr (by decide)
  obtain ⟨-, value, after, hrun, -, -, hpayload⟩ :=
    run_asLiteral hquote ((new 1 {}).run "a = nil").2
  exact ⟨by decide, value, after, hrun, hpayload⟩

/-! ### Strings as they are shown -/

theorem Reachable.regular {interp : Interpreter} (h : interp.Reachable) : interp.world.Regular := by
  have hedits := h.edits
  generalize interp.world = world at hedits
  induction hedits with
  | refl => exact regular_initial
  | tail _ hedit ih => exact ih.edit hedit

/-- A string is shown by its text between quotes: it is neither of the two objects with a form of
their own, and it stands for no class. -/
theorem Reachable.inspect_string {interp : Interpreter} {ref : Ref} {text : String}
    (h : interp.Reachable) (hpayload : (interp.world.object ref).payload = some text) :
    interp.inspect ref = Text.quote text := by
  have hkeeps := h.edits.keeps
  have hnil : ref ≠ .nil := by
    rintro rfl
    rw [(hkeeps.object .nil closed_initial.nil).2.1] at hpayload
    cases hpayload
  have hmain : ref ≠ .main := by
    rintro rfl
    rw [(hkeeps.object .main closed_initial.main).2.1] at hpayload
    cases hpayload
  have hrecord : interp.world.asClass? ref = none := by
    have hgraph : interp.world.Graph := h.sound.world
    have hstring : interp.world.classOf ref = .stringClass :=
      h.regular.payload ref (by rw [hpayload]; rfl)
    cases hid : interp.world.asClass? ref with
    | none => rfl
    | some id =>
      have hclass := (hgraph.stands id (hgraph.asClass? ref id hid)).2
      rw [hgraph.unique ref id hid, hstring] at hclass
      cases hclass
  rw [inspect, World.inspect, if_neg hnil, if_neg hmain, hrecord, hpayload]

/-- The form of a string is accepted as one literal, which denotes the text of the string exactly
if everything in it is printable, a line end or a tab. -/
theorem parse_inspect {interp : Interpreter} {ref : Ref} {text : String} (h : interp.Reachable)
    (hpayload : (interp.world.object ref).payload = some text) (locals : List String) :
    ∃ found, parse (interp.inspect ref) locals = .ok (some (.mk .str [.str found] .start)) ∧
      (found = text ↔ ∀ c ∈ text.toList, Text.isPrintable c = true ∨ c = '\n' ∨ c = '\t') := by
  rw [h.inspect_string hpayload]
  exact parse_quote text locals

/-- A letter beyond ASCII and a line end are read again, and a bell is not. -/
theorem parse_inspect_bell :
    parse (((new 1 {}).grow (·.newString "é\n")).2.inspect ⟨6⟩) [] =
        .ok (some (.mk .str [.str "é\n"] .start)) ∧
      parse (((new 1 {}).grow (·.newString "\x07")).2.inspect ⟨6⟩) [] ≠
        .ok (some (.mk .str [.str "\x07"] .start)) := by
  have hmade (text : String) : ((new 1 {}).grow (·.newString text)).2.Reachable :=
    .newString (.new 1 {}) text
  have hpayload (text : String) :
      (((new 1 {}).grow (·.newString text)).2.world.object ⟨6⟩).payload = some text := rfl
  refine ⟨?_, ?_⟩
  · obtain ⟨found, hparse, hfound⟩ := parse_inspect (hmade "é\n") (hpayload "é\n") []
    have hshown : ∀ c ∈ ['é', '\n'], Text.isPrintable c = true ∨ c = '\n' ∨ c = '\t' :=
      List.forall_mem_cons.2 ⟨.inl (by decide), List.forall_mem_cons.2 ⟨.inr (.inl rfl), by simp⟩⟩
    rw [hparse, hfound.2 hshown]
  · obtain ⟨found, hparse, hfound⟩ := parse_inspect (hmade "\x07") (hpayload "\x07") []
    rw [hparse]
    intro hsame
    injection hsame with hsame
    cases hsame
    exact absurd (hfound.1 rfl '\x07' (by decide)) (by decide)

end Garnet.Interpreter

import Garnet.Proofs.Prompt.Session
import Garnet.Proofs.Prompt.TextInput

/-! # Looking at earlier lines

A prompt remembers the lines that ran, and one of them may be looked at. Whatever keys are pressed
in between, the place of that line stays among those of the remembered lines, because lines are
never forgotten. Looking at earlier lines is a walk on these places: from the newest line step by
step to the oldest and back, and behind the newest one back to an empty line.
-/

namespace Garnet.Prompt

open TextInput

variable {prompt start : Prompt}

/-- The line being edited and the remembered lines are such as a line can hold, and the line that is
looked at is a remembered one. -/
structure InOrder (prompt : Prompt) : Prop where
  input : Enterable prompt.input.value
  commands : ∀ line ∈ prompt.commands, Enterable line.toList
  browsing (index : Nat) : prompt.browsing = some index → index < prompt.commands.length

/-! ### Keys -/

theorem inOrder_new (limit : Int) : (new limit).InOrder where
  input := ⟨fun _ hc => absurd hc List.not_mem_nil, Nat.zero_le _⟩
  commands _ hline := absurd hline List.not_mem_nil
  browsing _ hindex := by cases hindex

namespace InOrder

/-- What is left of the line without the blanks around it. -/
theorem pending (h : prompt.InOrder) : Enterable prompt.pending := by
  refine h.input.sublist ?_
  have hfront := List.dropWhile_sublist (l := prompt.input.value) Text.isBlank
  unfold Prompt.pending Text.trim Text.trimEnd
  exact (List.reverse_sublist.1 (by simpa using List.dropWhile_sublist Text.isBlank)).trans hfront

/-- A line that runs is remembered, and no line is looked at any more. -/
theorem enter (h : prompt.InOrder) : prompt.enter.1.InOrder := by
  unfold Prompt.enter
  dsimp only
  split
  next => exact h
  next first rest _ =>
    refine ⟨enterable_setValue _ [], ?_, fun index hindex => by cases hindex⟩
    split
    next =>
      rw [(direct_limit prompt _).2]
      exact h.commands
    next =>
      intro line hline
      rcases List.mem_append.1 hline with hold | hnew
      · exact h.commands line hold
      · rw [List.mem_singleton.1 hnew, String.toList_ofList]
        exact h.pending

theorem setLine (h : prompt.InOrder) (text : List Char) : (prompt.setLine text).InOrder :=
  ⟨enterable_setValue prompt.input text, h.commands, h.browsing⟩

theorem browse (h : prompt.InOrder) {index : Nat} (hindex : index < prompt.commands.length) :
    (prompt.browse index).InOrder := by
  have hplaced : InOrder { prompt with browsing := some index } :=
    ⟨h.input, h.commands, fun _ heq => Option.some.inj heq ▸ hindex⟩
  exact hplaced.setLine _

theorem older (h : prompt.InOrder) : prompt.older.InOrder := by
  unfold Prompt.older
  split
  next => exact h
  next hsome =>
    have hpos : 0 < prompt.commands.length := by
      rw [List.isEmpty_iff] at hsome
      exact List.length_pos_iff.2 hsome
    split
    next => exact h.browse (by omega)
    next index hindex =>
      have hlt := h.browsing index hindex
      exact h.browse (by omega)

theorem newer (h : prompt.InOrder) : prompt.newer.InOrder := by
  unfold Prompt.newer
  split
  next => exact h
  next index hindex =>
    split
    next hlt => exact h.browse hlt
    next =>
      have hleft : InOrder { prompt with browsing := none } :=
        ⟨h.input, h.commands, fun _ hnone => by cases hnone⟩
      exact hleft.setLine []

theorem complete (h : prompt.InOrder) : prompt.complete.InOrder := by
  unfold Prompt.complete
  dsimp only
  split
  next => exact h
  next =>
    split
    next => exact h
    next => exact h.setLine _
    next => exact ⟨h.input, h.commands, h.browsing⟩

theorem press (h : prompt.InOrder) (key : Key) : (prompt.press key).1.InOrder := by
  cases key with
  | enter => exact h.enter
  | older => exact h.older
  | newer => exact h.newer
  | complete => exact h.complete
  | edit change => exact ⟨h.input.sublist (edit_sublist _ change), h.commands, h.browsing⟩
  | clear | toggleVars | toggleHelp | quit | suggest => exact ⟨h.input, h.commands, h.browsing⟩

theorem update (h : prompt.InOrder) (message : Message) : (prompt.update message).1.InOrder := by
  cases message with
  | key key => exact h.press key
  | typed text =>
    rw [Prompt.update]
    split
    next key _ => exact h.press key
    next => exact ⟨h.input.insert _, h.commands, h.browsing⟩
  | resize width height => exact ⟨h.input, h.commands, h.browsing⟩

theorem afterMessages (h : prompt.InOrder) (messages : List Message) :
    (prompt.afterMessages messages).InOrder := by
  induction messages generalizing prompt with
  | nil => exact h
  | cons message rest ih => exact ih (h.update message)

end InOrder

/-! ### Walks -/

/-- A key that is used to look at other lines. -/
inductive Move where
  | older
  | newer
deriving DecidableEq, Repr

namespace Move

/-- The key of a move. -/
def key : Move → Key
  | older => .older
  | newer => .newer

/-- How many steps back one is after a move, out of a number of lines: the newest line is one step
back and the oldest line is the last one. At no steps no line is looked at. -/
def steps (count back : Nat) : Move → Nat
  | older => min (back + 1) count
  | newer => back - 1

end Move

/-- How many steps back some moves lead. -/
def stepsBack (count : Nat) (moves : List Move) : Nat :=
  moves.foldl (Move.steps count) 0

/-- A prompt after some moves. -/
def walk (prompt : Prompt) (moves : List Move) : Prompt :=
  prompt.afterMessages (moves.map fun move => .key move.key)

/-- Where a walk has come to. At no steps back the line is the one from before the walk, unless a
line has been looked at since. -/
structure Stands (start : Prompt) (back : Nat) (looked : Bool) (prompt : Prompt) : Prop where
  commands : prompt.commands = start.commands
  back_le : back ≤ start.commands.length
  browsing : prompt.browsing = if back = 0 then none else some (start.commands.length - back)
  looking : 0 < back → looked = true
  shown : 0 < back → ∃ line, start.commands[start.commands.length - back]? = some line ∧
    prompt.input.value = line.toList
  left : back = 0 → prompt.input.value = if looked then [] else start.input.value

namespace Stands

variable {back : Nat} {looked : Bool}

/-- A remembered line is shown as it is. -/
theorem browse (h : Stands start back looked prompt) (hstart : start.InOrder) {further : Nat}
    (hpos : 0 < further) (hle : further ≤ start.commands.length) :
    Stands start further true (prompt.browse (start.commands.length - further)) := by
  have hindex : start.commands.length - further < start.commands.length := by omega
  have hline := List.getElem?_eq_getElem hindex
  refine ⟨h.commands, hle, ?_, fun _ => rfl, fun _ => ⟨_, hline, ?_⟩,
    fun hzero => absurd hzero (Nat.ne_of_gt hpos)⟩
  · rw [if_neg (Nat.ne_of_gt hpos)]
    rfl
  · have hfits := hstart.commands _ (List.mem_of_getElem? hline)
    rw [Prompt.browse, setLine, toEnd_setValue, h.commands, hline, Option.getD_some]
    exact hfits.take_clean

theorem older (h : Stands start back looked prompt) (hstart : start.InOrder)
    (hsome : start.commands ≠ []) :
    Stands start (min (back + 1) start.commands.length) true prompt.older := by
  have hpos : 0 < start.commands.length := List.length_pos_iff.2 hsome
  have hle := h.back_le
  have hfurther : 0 < min (back + 1) start.commands.length := by omega
  have hbrowse := h.browse hstart hfurther (Nat.min_le_right _ _)
  have hempty : prompt.commands.isEmpty = false := by
    rw [h.commands]
    exact List.isEmpty_eq_false_iff.2 hsome
  rw [Prompt.older, hempty, if_neg Bool.false_ne_true, h.browsing]
  by_cases hzero : back = 0
  · have hnewest : start.commands.length - min (back + 1) start.commands.length =
        start.commands.length - 1 := by omega
    rw [hnewest] at hbrowse
    rw [if_pos hzero, h.commands]
    exact hbrowse
  · -- At the oldest line the place is the first one, and stays it.
    have hbefore : start.commands.length - min (back + 1) start.commands.length =
        start.commands.length - back - 1 := by omega
    rw [hbefore] at hbrowse
    rw [if_neg hzero]
    exact hbrowse

theorem newer (h : Stands start back looked prompt) (hstart : start.InOrder) :
    Stands start (back - 1) looked prompt.newer := by
  rw [Prompt.newer, h.browsing]
  by_cases hzero : back = 0
  · rw [if_pos hzero, Nat.sub_eq_zero_of_le (by omega)]
    exact hzero ▸ h
  · have hle := h.back_le
    rw [if_neg hzero]
    dsimp only
    split
    next hlt =>
      rw [h.commands] at hlt
      have hfurther : 0 < back - 1 := by omega
      have hbrowse := h.browse hstart hfurther (by omega)
      have hafter : start.commands.length - (back - 1) = start.commands.length - back + 1 := by
        omega
      rw [hafter] at hbrowse
      rw [h.looking (Nat.pos_of_ne_zero hzero)]
      exact hbrowse
    next hlast =>
      rw [h.commands] at hlast
      have hnewest : back - 1 = 0 := by omega
      rw [hnewest]
      refine ⟨h.commands, Nat.zero_le _, rfl, fun hpos => absurd hpos (Nat.lt_irrefl 0),
        fun hpos => absurd hpos (Nat.lt_irrefl 0), fun _ => ?_⟩
      rw [h.looking (Nat.pos_of_ne_zero hzero), setLine, toEnd_setValue]
      rfl

theorem move (h : Stands start back looked prompt) (hstart : start.InOrder)
    (hsome : start.commands ≠ []) (move : Move) :
    Stands start (move.steps start.commands.length back) (looked || move == .older)
      (prompt.update (.key move.key)).1 := by
  cases move with
  | older =>
    have hlooked : (looked || Move.older == .older) = true := Bool.or_true looked
    rw [hlooked]
    exact h.older hstart hsome
  | newer =>
    have hlooked : (looked || Move.newer == .older) = looked := Bool.or_false looked
    rw [hlooked]
    exact h.newer hstart

theorem walk (h : Stands start back looked prompt) (hstart : start.InOrder)
    (hsome : start.commands ≠ []) (moves : List Move) :
    Stands start (moves.foldl (Move.steps start.commands.length) back)
      (looked || moves.contains .older) (prompt.walk moves) := by
  induction moves generalizing back looked prompt with
  | nil =>
    rw [List.contains_nil, Bool.or_false]
    exact h
  | cons first rest ih =>
    have hrest := ih (h.move hstart hsome first)
    rw [Bool.or_assoc] at hrest
    rw [List.contains_cons, BEq.comm]
    exact hrest

end Stands

theorem stands_start (hidle : start.browsing = none) : Stands start 0 false start where
  commands := rfl
  back_le := Nat.zero_le _
  browsing := hidle
  looking hpos := absurd hpos (Nat.lt_irrefl 0)
  shown hpos := absurd hpos (Nat.lt_irrefl 0)
  left _ := rfl

/-- Whatever messages have reached a prompt, the line that is looked at is a remembered one. And
while none is looked at, any further moves are a walk on the remembered lines that stops at the
oldest one and ends behind the newest one: the line that is looked at is shown as it is, and at the
end of the walk the line is empty. -/
theorem afterMessages_browses (limit : Int) (messages : List Message) :
    let prompt := (new limit).afterMessages messages
    (∀ index, prompt.browsing = some index → index < prompt.commands.length) ∧
    (prompt.browsing = none → prompt.commands ≠ [] → ∀ moves : List Move,
      let next := prompt.walk moves
      let back := stepsBack prompt.commands.length moves
      back ≤ prompt.commands.length ∧ next.commands = prompt.commands ∧
      next.browsing = (if back = 0 then none else some (prompt.commands.length - back)) ∧
      (∀ index, next.browsing = some index → ∃ line, prompt.commands[index]? = some line ∧
        next.input.value = line.toList) ∧
      (next.browsing = none →
        next.input.value = if moves.contains .older then [] else prompt.input.value)) := by
  intro prompt
  have horder : prompt.InOrder := (inOrder_new limit).afterMessages messages
  refine ⟨horder.browsing, fun hidle hsome moves => ?_⟩
  have hstands : Stands prompt (stepsBack prompt.commands.length moves) (moves.contains .older)
      (prompt.walk moves) := (stands_start hidle).walk horder hsome moves
  refine ⟨hstands.back_le, hstands.commands, hstands.browsing, fun index hindex => ?_,
    fun hnone => hstands.left ?_⟩
  · rw [hstands.browsing] at hindex
    split at hindex
    next => cases hindex
    next hback =>
      cases hindex
      exact hstands.shown (Nat.pos_of_ne_zero hback)
  · rw [hstands.browsing] at hnone
    split at hnone
    next hback => exact hback
    next => cases hnone

/-- A line is entered, and after a directive it is looked at, added to and entered again. -/
def twoLines : List Message :=
  [.typed "a = 'x'", .key .enter, .typed ":clear", .key .enter, .key .older, .typed "; a",
    .key .enter, .typed "p"]

/-- From the newest line past the oldest one, and back to the newest one. -/
theorem afterMessages_browses_twoLines :
    let next := ((new 0).afterMessages twoLines).walk [.older, .older, .older, .newer]
    next.browsing = some 1 ∧ next.input.value = "a = 'x'; a".toList := by
  intro next
  have hcommands : ((new 0).afterMessages twoLines).commands = ["a = 'x'", "a = 'x'; a"] := by
    decide +kernel
  have hidle : ((new 0).afterMessages twoLines).browsing = none := by decide +kernel
  obtain ⟨-, -, hbrowsing, hshown, -⟩ := (afterMessages_browses 0 twoLines).2 hidle
    (by rw [hcommands]; simp) [.older, .older, .older, .newer]
  rw [hcommands] at hbrowsing hshown
  have hnext : next.browsing = some 1 := hbrowsing
  obtain ⟨line, hline, hvalue⟩ := hshown 1 hnext
  cases hline
  exact ⟨hnext, hvalue⟩

end Garnet.Prompt

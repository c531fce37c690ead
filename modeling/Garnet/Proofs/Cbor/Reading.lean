import Garnet.Cbor.Decode

/-! # Reading from the front

A reader takes a value from the front of some bytes and leaves the rest. What it has read does not
depend on the bytes behind it, nor on how many further steps it might have made. So an encoding is
never the beginning of another one.
-/

namespace Garnet.Cbor

variable {α β : Type}

/-- A way to take a value from the front of some bytes. -/
abbrev Reader (α : Type) : Type :=
  List UInt8 → Option (α × List UInt8)

/-- What the first reader reads is read by the second one as well, whatever follows it. -/
def Prolongs (read read' : Reader α) : Prop :=
  ∀ ⦃bytes value rest⦄, read bytes = some (value, rest) →
    ∀ more, read' (bytes ++ more) = some (value, rest ++ more)

namespace Prolongs

theorem fails (read : Reader α) : Prolongs (fun _ => none) read :=
  fun _ _ _ h => by cases h

theorem yields (value : α) :
    Prolongs (fun bytes => some (value, bytes)) fun bytes => some (value, bytes) := by
  intro bytes found rest h more
  cases h
  rfl

theorem bind {read read' : Reader α} {next next' : α × List UInt8 → Option (β × List UInt8)}
    (h : Prolongs read read')
    (hnext : ∀ value, Prolongs (fun rest => next (value, rest)) fun rest => next' (value, rest)) :
    Prolongs (fun bytes => read bytes >>= next) fun bytes => read' bytes >>= next' := by
  intro bytes value rest hread more
  obtain ⟨⟨first, left⟩, hfirst, hrest⟩ := Option.bind_eq_some_iff.1 hread
  dsimp only
  rw [h hfirst more]
  exact hnext first hrest more

/-- A part that does not look at the bytes. -/
theorem lift {found : Option α} {next next' : α → Reader β}
    (hnext : ∀ value, Prolongs (next value) (next' value)) :
    Prolongs (fun bytes => found >>= fun value => next value bytes)
      fun bytes => found >>= fun value => next' value bytes := by
  cases found with
  | none => exact .fails _
  | some value => exact hnext value

/-- A check that does not look at the bytes. How it is decided may look at them. -/
theorem branch {check : Prop} {decided decided' : List UInt8 → Decidable check}
    {yes yes' no no' : Reader α} (hyes : Prolongs yes yes') (hno : Prolongs no no') :
    Prolongs (fun bytes => @ite _ check (decided bytes) (yes bytes) (no bytes))
      fun bytes => @ite _ check (decided' bytes) (yes' bytes) (no' bytes) := by
  by_cases hcheck : check
  · simp only [if_pos hcheck]
    exact hyes
  · simp only [if_neg hcheck]
    exact hno

/-- The bytes behind a first one. -/
theorem behind {read read' : Reader α} (h : Prolongs read read') (byte : UInt8) :
    Prolongs (fun bytes => read (byte :: bytes)) fun bytes => read' (byte :: bytes) :=
  fun _ _ _ hread more => h hread more

/-- A reader that needs a first byte, and may look at it. -/
theorem peek {read read' : Reader α} (hnil : read [] = none)
    (h : ∀ byte, Prolongs (fun bytes => read (byte :: bytes)) fun bytes => read' (byte :: bytes)) :
    Prolongs read read' := by
  intro bytes value rest hread more
  cases bytes with
  | nil => exact absurd (hnil.symm.trans hread) (by simp)
  | cons byte bytes => exact h byte hread more

/-- A reader that stops at the byte that marks the end. -/
theorem untilBreak {value : α} {read read' : Reader α} (hnil : read [] = none)
    (h : Prolongs read read') :
    Prolongs
      (fun bytes => if bytes.head? = some breakByte then some (value, bytes.drop 1)
        else read bytes)
      fun bytes => if bytes.head? = some breakByte then some (value, bytes.drop 1)
        else read' bytes := by
  refine .peek hnil fun byte => ?_
  simp only [List.head?_cons]
  exact .branch (.yields value) (h.behind byte)

end Prolongs

/-! ### Heads and strings -/

theorem readBigEndian_prolongs (width value : Nat) :
    Prolongs (readBigEndian width value) (readBigEndian width value) := by
  intro bytes found rest h more
  induction width generalizing value bytes with
  | zero =>
    cases h
    rfl
  | succ width ih =>
    cases bytes with
    | nil => cases h
    | cons byte bytes => exact ih _ h

theorem readHead_prolongs : Prolongs readHead readHead := by
  refine .peek rfl fun first => ?_
  -- The head is in the first byte, or a number follows it, or the length is indefinite.
  refine .branch (.yields _) (.branch ?_ (.branch (.yields _) (.fails _)))
  refine .bind (readBigEndian_prolongs _ 0) fun value => ?_
  exact .branch (.fails _) (.yields _)

theorem readBytes_prolongs (count : Nat) : Prolongs (readBytes count) (readBytes count) := by
  intro bytes chunk rest h more
  unfold readBytes at h ⊢
  split at h
  next => cases h
  next hlong =>
    cases h
    have hcount : count ≤ bytes.length := Nat.le_of_not_lt hlong
    rw [if_neg (by simp only [List.length_append]; omega), List.take_append_of_le_length hcount,
      List.drop_append_of_le_length hcount]

theorem readChunks_prolongs (major : Nat) {steps steps' : Nat} (hsteps : steps ≤ steps') :
    Prolongs (readChunks major steps) (readChunks major steps') := by
  induction steps generalizing steps' with
  | zero => exact .fails _
  | succ steps ih =>
    obtain ⟨steps', rfl⟩ := Nat.exists_eq_add_one_of_ne_zero (Nat.ne_zero_of_lt hsteps)
    refine .untilBreak rfl (.bind readHead_prolongs fun head => ?_)
    refine .branch (.fails _) (.bind (readBytes_prolongs _) fun chunk => ?_)
    exact .bind (ih (Nat.le_of_succ_le_succ hsteps)) fun more => .yields _

/-- The longer the bytes, the more chunks are tried. -/
theorem readAllChunks_prolongs (major : Nat) :
    Prolongs (fun bytes => readChunks major (bytes.length + 1) bytes)
      fun bytes => readChunks major (bytes.length + 1) bytes := by
  intro bytes chunks rest h more
  refine readChunks_prolongs major ?_ h more
  rw [List.length_append]
  omega

/-! ### Items -/

/-- All three readers of items go on reading what they read, with at least as many steps. -/
structure ItemsProlong (steps steps' : Nat) : Prop where
  item (depth : Nat) : Prolongs (readItem steps depth) (readItem steps' depth)
  items (depth count : Nat) : Prolongs (readItems steps depth count) (readItems steps' depth count)
  untilBreak (depth : Nat) : Prolongs (readUntilBreak steps depth) (readUntilBreak steps' depth)

theorem readItem_nil (steps depth : Nat) : readItem steps depth [] = none := by
  cases steps with
  | zero => rw [readItem]
  | succ steps =>
    rw [readItem]
    rfl

/-- One step more of each reader. -/
theorem ItemsProlong.succ {steps steps' : Nat} (h : ItemsProlong steps steps') :
    ItemsProlong (steps + 1) (steps' + 1) := by
  refine ⟨fun depth => ?_, fun depth count => ?_, fun depth => ?_⟩
  · change Prolongs (fun bytes => readItem (steps + 1) depth bytes)
      fun bytes => readItem (steps' + 1) depth bytes
    unfold readItem
    refine .bind readHead_prolongs fun head => ?_
    obtain ⟨major, info, value⟩ := head
    match major with
    | 0 | 1 => exact .yields _
    | 2 | 3 =>
      refine .branch ?_ ?_
      · exact .bind (readAllChunks_prolongs _) fun chunks => .yields _
      · exact .bind (readBytes_prolongs _) fun chunk => .yields _
    | 4 =>
      refine .branch (.fails _) (.branch ?_ (.branch (.fails _) ?_))
      · exact .bind (h.untilBreak _) fun items => .branch (.fails _) (.yields _)
      · exact .bind (h.items _ _) fun items => .yields _
    | 5 =>
      refine .branch (.fails _) (.branch ?_ (.branch (.fails _) ?_))
      · exact .bind (h.untilBreak _) fun items => .lift fun entries =>
          .branch (.fails _) (.yields _)
      · exact .bind (h.items _ _) fun items => .lift fun entries => .yields _
    | 6 =>
      refine .peek ?_ fun byte => ?_
      · simp [readItem_nil]
      · have htagged (inner : Nat) :
            Prolongs
              (fun bytes => if maxNesting < inner then none
                else readItem steps inner (byte :: bytes) >>= fun found =>
                  some (Item.tagged value found.1, found.2))
              fun bytes => if maxNesting < inner then none
                else readItem steps' inner (byte :: bytes) >>= fun found =>
                  some (Item.tagged value found.1, found.2) := by
          refine .branch (.fails _) (.bind ((h.item _).behind byte) fun content => ?_)
          exact .yields (Item.tagged value content)
        -- Whether another tag follows is seen from the next byte.
        exact htagged (if byte.toNat / 32 == 6 then depth + 1 else depth)
    | major + 7 => exact .branch (.yields _) (.yields _)
  · change Prolongs (fun bytes => readItems (steps + 1) depth count bytes)
      fun bytes => readItems (steps' + 1) depth count bytes
    cases count with
    | zero =>
      unfold readItems
      exact .yields _
    | succ count =>
      unfold readItems
      exact .bind (h.item depth) fun item => .bind (h.items depth count) fun _ => .yields _
  · change Prolongs (fun bytes => readUntilBreak (steps + 1) depth bytes)
      fun bytes => readUntilBreak (steps' + 1) depth bytes
    unfold readUntilBreak
    refine .untilBreak ?_ (.bind (h.item depth) fun item => ?_)
    · simp [readItem_nil]
    · exact .bind (h.untilBreak depth) fun _ => .yields _

theorem itemsProlong {steps steps' : Nat} (hsteps : steps ≤ steps') :
    ItemsProlong steps steps' := by
  induction steps generalizing steps' with
  | zero =>
    refine ⟨fun depth => ?_, fun depth count => ?_, fun depth => ?_⟩
    · change Prolongs (fun bytes => readItem 0 depth bytes) _
      unfold readItem
      exact .fails _
    · change Prolongs (fun bytes => readItems 0 depth count bytes)
        fun bytes => readItems steps' depth count bytes
      unfold readItems
      cases count with
      | zero => exact .yields _
      | succ count => exact .fails _
    · change Prolongs (fun bytes => readUntilBreak 0 depth bytes) _
      unfold readUntilBreak
      exact .fails _
  | succ steps ih =>
    obtain ⟨steps', rfl⟩ := Nat.exists_eq_add_one_of_ne_zero (Nat.ne_zero_of_lt hsteps)
    exact (ih (Nat.le_of_succ_le_succ hsteps)).succ

end Garnet.Cbor

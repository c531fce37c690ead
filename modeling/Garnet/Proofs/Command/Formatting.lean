import Garnet.Command.Execution
import Garnet.Proofs.Layout.Normal

/-! # Formatting brings files into the normal form

Files are laid out byte by byte, so that also bytes that spell no text are kept. A file whose layout
is only checked is accepted exactly if it is in the normal form.
-/

namespace Garnet

namespace Layout

/-- The bytes of a file as characters, one for each. -/
def charsOf (content : List UInt8) : List Char :=
  content.map fun byte => Char.ofNat byte.toNat

theorem toNat_ofNat_of_lt {n : Nat} (h : n < 256) : (Char.ofNat n).toNat = n := by
  have hvalid : n.isValidChar := .inl (by omega)
  rw [Char.ofNat, dif_pos hvalid]
  rfl

/-- The bytes are found again. -/
theorem map_charsOf (content : List UInt8) :
    (charsOf content).map (fun c => UInt8.ofNat c.toNat) = content := by
  rw [charsOf, List.map_map]
  refine (List.map_congr_left fun byte _ => ?_).trans (List.map_id _)
  rw [Function.comp_apply, toNat_ofNat_of_lt byte.toNat_lt, UInt8.ofNat_toNat]
  rfl

/-- Only spaces and line feeds are added to a file, and these are single bytes. -/
theorem charsOf_formatBytes (content : List UInt8) :
    charsOf (formatBytes content) = formatChars (charsOf content) := by
  have hsmall : ∀ c ∈ formatChars (charsOf content), c.toNat < 256 := by
    intro c hc
    rcases mem_formatChars hc with rfl | rfl | ⟨hmem, -⟩
    · decide
    · decide
    · obtain ⟨byte, -, rfl⟩ := List.mem_map.1 hmem
      rw [toNat_ofNat_of_lt byte.toNat_lt]
      exact byte.toNat_lt
  rw [formatBytes, charsOf, List.map_map]
  refine (List.map_congr_left fun c hc => ?_).trans (List.map_id _)
  rw [Function.comp_apply, UInt8.toNat_ofNat_of_lt' (hsmall c hc), Char.ofNat_toNat]
  rfl

theorem charsOf_injective : charsOf.Injective := by
  intro content other h
  rw [← map_charsOf content, h, map_charsOf]

/-- What it means to bring texts of some sort into the normal form: they have the form afterwards,
those that have it already stay as they are, and no others do, and only blanks and line ends
change. -/
structure Normalises {α : Type} (layOut : α → α) (chars : α → List Char) : Prop where
  normal (source : α) : IsNormal (chars (layOut source))
  eq_self_iff (source : α) : layOut source = source ↔ IsNormal (chars source)
  idempotent (source : α) : layOut (layOut source) = layOut source
  solid (source : α) : solid (chars (layOut source)) = solid (chars source)

/-- It is enough to lay out the characters. -/
theorem Normalises.of_formatChars {α : Type} {layOut : α → α} {chars : α → List Char}
    (hinj : chars.Injective)
    (hchars : ∀ source, chars (layOut source) = formatChars (chars source)) :
    Normalises layOut chars := by
  have hself (source : α) : layOut source = source ↔ IsNormal (chars source) := by
    rw [← hinj.eq_iff, hchars, formatChars_eq_self_iff]
  have hnormal (source : α) : IsNormal (chars (layOut source)) := by
    rw [hchars]
    exact isNormal_formatChars _
  refine ⟨hnormal, hself, fun source => (hself _).2 (hnormal source), fun source => ?_⟩
  rw [hchars, solid_formatChars]

theorem normalises_format : Normalises format String.toList :=
  .of_formatChars (fun _ _ => String.toList_injective) fun _ => String.toList_ofList ..

theorem normalises_formatBytes : Normalises formatBytes charsOf :=
  .of_formatChars charsOf_injective charsOf_formatBytes

end Layout

namespace Command

open Layout

variable {m : Type → Type} [Monad m] [LawfulMonad m]

/-- The content of a source file that the grammar accepts. -/
def accepted (host : Host m) (path : String) : Job m (List UInt8) := do
  let content ← Job.ask (.file "read" path) (host.read path)
  match parse (sourceOf content) [] with
  | .error error => throw (.refusedFile path error)
  | .ok _ => return content

/-- A file that is only checked counts as changed if it is not in the normal form. -/
theorem layoutFile_check (host : Host m) (targets : List String) (path : String) :
    layoutFile host { targets, check := true } path =
      (fun content => decide ¬ IsNormal (charsOf content)) <$> accepted host path := by
  have hchanged (content : List UInt8) :
      decide (formatBytes content ≠ content) = decide ¬ IsNormal (charsOf content) := by
    exact decide_eq_decide.2 (not_congr (normalises_formatBytes.eq_self_iff content))
  unfold layoutFile accepted
  rw [map_bind]
  congr 1
  funext content
  cases parse (sourceOf content) [] with
  | error error => exact ExceptT.ext (by simp)
  | ok tree => simp [hchanged]

/-- A function of what is yielded can be applied to each answer or to all of them. -/
theorem mapM_map_answer {α β γ : Type} {n : Type → Type} [Monad n] [LawfulMonad n] (f : β → γ)
    (ask : α → n β) (questions : List α) :
    questions.mapM (fun question => f <$> ask question) =
      (fun answers => answers.map f) <$> questions.mapM ask := by
  induction questions with
  | nil => simp
  | cons first rest ih => simp [List.mapM_cons, ih]

/-- Formatting brings every text into the normal form, character by character, and every file, byte
by byte. To check files is to read them and to count those that are not in the normal form. -/
theorem format_normalises (host : Host m) (targets : List String) :
    Normalises format String.toList ∧ Normalises formatBytes charsOf ∧
      fmt host { targets, check := true } = (do
        let contents ← (← sourceFiles host targets).mapM (accepted host)
        if ∀ content ∈ contents, IsNormal (charsOf content) then return
        else throw (.needFormatting
          (contents.countP fun content => ¬ IsNormal (charsOf content)))) := by
  refine ⟨normalises_format, normalises_formatBytes, ?_⟩
  have hfiles (files : List String) :
      files.mapM (layoutFile host { targets, check := true }) =
        (fun contents => contents.map fun content => decide ¬ IsNormal (charsOf content)) <$>
          files.mapM (accepted host) := by
    rw [← mapM_map_answer]
    exact congrArg (files.mapM ·) (funext (layoutFile_check host targets))
  unfold fmt
  refine bind_congr fun files => ?_
  rw [hfiles, bind_map_left]
  refine bind_congr fun contents => ?_
  have hcount : (contents.map fun content => decide ¬ IsNormal (charsOf content)).count true =
      contents.countP fun content => ¬ IsNormal (charsOf content) := by
    rw [List.count, List.countP_map]
    exact congrArg (contents.countP ·) (funext fun content => beq_true _)
  have hpending : 0 < contents.countP (fun content => ¬ IsNormal (charsOf content)) ↔
      ¬ ∀ content ∈ contents, IsNormal (charsOf content) := by
    simp [List.countP_pos_iff]
  dsimp only
  rw [hcount]
  by_cases hall : ∀ content ∈ contents, IsNormal (charsOf content)
  · rw [if_pos hall, if_neg fun h => hpending.1 h.2 hall]
  · rw [if_neg hall, if_pos ⟨rfl, hpending.2 hall⟩]

/-- Line ends of all sorts, tabs that are expanded, blanks at line ends that leave empty lines
behind, and a tab inside a line. -/
theorem format_normalises_mixed :
    format "\r\n \t\n\tx\ty\t \r\r\n \n\n\t\t\n  z" = "  x\ty\n\n  z\n" ∧
      IsNormal "  x\ty\n\n  z\n".toList ∧ format "  x\ty\n\n  z\n" = "  x\ty\n\n  z\n" ∧
      fmt Files.host { targets := ["a.rb", "b"], check := true } = (do
        let contents ← (← sourceFiles Files.host ["a.rb", "b"]).mapM (accepted Files.host)
        if ∀ content ∈ contents, IsNormal (charsOf content) then return
        else throw (.needFormatting
          (contents.countP fun content => ¬ IsNormal (charsOf content)))) := by
  obtain ⟨htexts, -, hcheck⟩ := format_normalises Files.host ["a.rb", "b"]
  have hformat : format "\r\n \t\n\tx\ty\t \r\r\n \n\n\t\t\n  z" =
      "  x\ty\n\n  z\n" := by decide +kernel
  have hnormal := htexts.normal "\r\n \t\n\tx\ty\t \r\r\n \n\n\t\t\n  z"
  rw [hformat] at hnormal
  exact ⟨hformat, hnormal, (htexts.eq_self_iff _).2 hnormal, hcheck⟩

end Command

end Garnet

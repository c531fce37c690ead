import Garnet.Prompt.View
import Garnet.Proofs.Interpreter.Reachable
import Garnet.Proofs.Prompt.Session

/-! # The view and narrow windows

To draw the view, the prompt counts lines with numbers that may become negative, and it looks up
entries by their place and variables by their name. No prompt ever fails to find what it looks up,
whatever messages have reached it, and no number of lines does harm. But the rule below the header
has a margin at both sides. A window without room for these crashes the session as soon as the view
is drawn.
-/

namespace Garnet.Prompt

/-! ### Entries -/

theorem mapM_eq_ok {ε α β : Type} {f : α → Except ε β} {g : α → β} {list : List α}
    (h : ∀ a ∈ list, f a = .ok (g a)) : list.mapM f = .ok (list.map g) := by
  induction list with
  | nil => rfl
  | cons first rest ih =>
    obtain ⟨hfirst, hrest⟩ := List.forall_mem_cons.1 h
    rw [List.mapM_cons, hfirst, ih hrest]
    rfl

theorem entryAt_natCast {entries : List Entry} {place : Nat} (h : place < entries.length) :
    entryAt entries place = .ok entries[place] := by
  rw [entryAt, if_neg (by omega), Int.toNat_natCast, List.getElem?_eq_getElem h]

/-- The entries behind a place are all found. -/
theorem entriesFrom_of_nonneg {entries : List Entry} {start : Int} (h : 0 ≤ start) :
    entriesFrom entries start = .ok (entries.drop start.toNat) := by
  obtain ⟨first, rfl⟩ := Int.eq_ofNat_of_zero_le h
  have hcount : ((entries.length : Int) - first).toNat = entries.length - first := by omega
  have hfound (offset : Nat) (hoffset : offset ∈ List.range (entries.length - first)) :
      entryAt entries (first + offset) = .ok (entries.getD (first + offset) {}) := by
    have hlt : first + offset < entries.length := by
      have := List.mem_range.1 hoffset
      omega
    rw [← Int.natCast_add, entryAt_natCast hlt, List.getD_eq_getElem?_getD,
      List.getElem?_eq_getElem hlt, Option.getD_some]
  rw [entriesFrom, hcount, mapM_eq_ok hfound, Int.toNat_natCast]
  refine congrArg _ (List.ext_getElem (by simp) fun offset hoffset hdrop => ?_)
  have hlt : first + offset < entries.length := by
    rw [List.length_drop] at hdrop
    omega
  rw [List.getElem_map, List.getElem_range, List.getElem_drop, List.getD_eq_getElem?_getD,
    List.getElem?_eq_getElem hlt, Option.getD_some]

/-! ### Single views -/

section View

variable {prompt : Prompt}

/-- The window has no room for the margins of the rule, and the rule is to be drawn. -/
def IsNarrow (prompt : Prompt) : Prop :=
  prompt.quitting = false ∧ ∃ window, prompt.window = some window ∧ window.width < 2

/-- What is shown unless the window is narrow: of the entries the latest ones, one for each line
that is left. -/
def picture (prompt : Prompt) : String :=
  match prompt.window with
  | none => "Loading..."
  | some window =>
    if prompt.quitting then block "Goodbye!\n"
    else
      let hidden := prompt.history.length + prompt.reservedLines - window.height
      "\n".intercalate
        ([" bci REPL  v0.1.0", "".pushn '─' (min (window.width - 2) 60), ""] ++
          prompt.bodyLines window (prompt.history.drop hidden))

/-- The rule is there unless the number of its dashes is negative. -/
theorem rule_eq (width : Nat) : rule width =
    if width < 2 then .error .negativeCount else .ok ("".pushn '─' (min (width - 2) 60)) := by
  unfold rule repeated
  by_cases hnarrow : width < 2
  · rw [if_pos (by omega), if_pos hnarrow]
  · have hcount : (min ((width : Int) - 2) 60).toNat = min (width - 2) 60 := by omega
    rw [if_neg (by omega), if_neg hnarrow, hcount]

/-- Also where more lines are taken than there are, no place is negative. -/
theorem entriesFrom_firstShown (prompt : Prompt) (window : Window) :
    entriesFrom prompt.history (prompt.firstShown window) =
      .ok (prompt.history.drop
        (prompt.history.length + prompt.reservedLines - window.height)) := by
  have hplace : 0 ≤ prompt.firstShown window ∧ (prompt.firstShown window).toNat =
      prompt.history.length + prompt.reservedLines - window.height := by
    unfold firstShown
    dsimp only
    split <;> omega
  rw [entriesFrom_of_nonneg hplace.1, hplace.2]

theorem view_of_isNarrow (h : prompt.IsNarrow) : prompt.view = .error .negativeCount := by
  obtain ⟨hquitting, window, hwindow, hnarrow⟩ := h
  rw [view, hwindow, hquitting]
  dsimp only
  rw [if_neg Bool.false_ne_true, rule_eq, if_pos hnarrow]
  rfl

theorem view_of_not_isNarrow (h : ¬ prompt.IsNarrow) : prompt.view = .ok prompt.picture := by
  unfold view picture
  cases hwindow : prompt.window with
  | none => rfl
  | some window =>
    dsimp only
    split
    next => rfl
    next hquitting =>
      have hwide : ¬ window.width < 2 := fun hnarrow =>
        h ⟨eq_false_of_ne_true hquitting, window, hwindow, hnarrow⟩
      rw [rule_eq, if_neg hwide, entriesFrom_firstShown]
      rfl

/-- The variables that are shown are bound, and to objects that are there. -/
structure FindsVars (prompt : Prompt) : Prop where
  locals : ∀ name ∈ prompt.localNames, ∃ ref,
    prompt.interp.current.locals.get? name = some ref ∧ prompt.interp.world.HasObject ref
  main : prompt.interp.world.HasObject .main
  ivars : ∀ name ∈ prompt.ivarNames, ∃ ref,
    prompt.interp.world.lookupIvar .main name = some ref ∧ prompt.interp.world.HasObject ref

theorem exists_get?_of_mem_names {vars : Table Ref} {name : String} (h : name ∈ vars.names) :
    ∃ ref, vars.get? name = some ref := by
  obtain ⟨⟨found, ref⟩, hentry, rfl⟩ := List.mem_map.1 h
  exact ⟨ref, Table.mem_entries_iff.1 hentry⟩

theorem findsVars_of_sound (h : prompt.interp.Sound World.graphInvariant) :
    prompt.FindsVars where
  locals name hname := by
    obtain ⟨ref, href⟩ := exists_get?_of_mem_names hname
    exact ⟨ref, href, h.current.bound name ref href⟩
  main := h.closed.main
  ivars name hname := by
    obtain ⟨ref, href⟩ := exists_get?_of_mem_names hname
    exact ⟨ref, href, h.closed.ivar .main name ref href⟩

/-- Whatever messages reach a prompt, all its variables are found, and its view is drawn. The only
exception are windows that are too narrow for the margins of the rule: there the number of dashes
is negative, and the prompt crashes. -/
theorem afterMessages_view (limit : Int) (messages : List Message) :
    let prompt := (new limit).afterMessages messages
    prompt.FindsVars ∧ (prompt.IsNarrow → prompt.view = .error .negativeCount) ∧
      (¬ prompt.IsNarrow → prompt.view = .ok prompt.picture) := by
  intro prompt
  have hsound : prompt.interp.Sound World.graphInvariant := by
    refine interp_afterMessages (·.Sound World.graphInvariant) (fun limit => ?_)
      (fun interp line h => ?_) limit messages
    · exact Interpreter.sound_new limit {} World.graph_initial
    · have hdrained : interp.drain.Sound World.graphInvariant := ⟨h.world, h.frames⟩
      exact hdrained.run fun _ _ node _ => node.namesOnly_true
  exact ⟨findsVars_of_sound hsound, view_of_isNarrow, view_of_not_isNarrow⟩

end View

/-! ### Sessions -/

/-- The messages among some requests. -/
def messagesOf (requests : List Request) : List Message :=
  requests.filterMap fun
    | .message message => some message
    | .view => none

/-- What is shown for each of some requests if nothing crashes. -/
def pictures (prompt : Prompt) : List Request → List (Option String)
  | [] => []
  | .message message :: rest => none :: pictures (prompt.update message).1 rest
  | .view :: rest => some prompt.picture :: pictures prompt rest

/-- At some point of a session, the view of a narrow window is asked for. -/
def AsksNarrow (prompt : Prompt) (requests : List Request) : Prop :=
  ∃ before after, requests = before ++ .view :: after ∧
    (prompt.afterMessages (messagesOf before)).IsNarrow

section Session

variable {prompt : Prompt} {rest : List Request}

theorem asksNarrow_message {message : Message} :
    prompt.AsksNarrow (.message message :: rest) ↔ (prompt.update message).1.AsksNarrow rest := by
  constructor
  · rintro ⟨_ | ⟨first, before⟩, after, hrequests, hnarrow⟩
    · cases hrequests
    · cases hrequests
      exact ⟨before, after, rfl, hnarrow⟩
  · rintro ⟨before, after, rfl, hnarrow⟩
    exact ⟨.message message :: before, after, rfl, hnarrow⟩

theorem asksNarrow_view :
    prompt.AsksNarrow (.view :: rest) ↔ prompt.IsNarrow ∨ prompt.AsksNarrow rest := by
  constructor
  · rintro ⟨_ | ⟨first, before⟩, after, hrequests, hnarrow⟩
    · exact .inl hnarrow
    · cases hrequests
      exact .inr ⟨before, after, rfl, hnarrow⟩
  · rintro (hnarrow | ⟨before, after, rfl, hnarrow⟩)
    · exact ⟨[], rest, rfl, hnarrow⟩
    · exact ⟨.view :: before, after, rfl, hnarrow⟩

theorem session_cons {request : Request} {reply : Reply} (h : prompt.serve request = .ok reply) :
    prompt.session (request :: rest) = (reply.prompt.session rest).map (reply :: ·) := by
  rw [session, h]
  change (reply.prompt.session rest >>= fun replies => .ok (reply :: replies)) = _
  cases reply.prompt.session rest with
  | error crash => rfl
  | ok replies => rfl

theorem session_message (message : Message) : prompt.session (.message message :: rest) =
    ((prompt.update message).1.session rest).map
      ({ prompt := (prompt.update message).1, signal := (prompt.update message).2 } :: ·) :=
  session_cons rfl

theorem session_view {text : String} (h : prompt.view = .ok text) :
    prompt.session (.view :: rest) =
      (prompt.session rest).map ({ prompt, shown := some text } :: ·) := by
  refine session_cons ?_
  rw [serve, h]
  rfl

theorem session_view_of_crash {crash : Crash} (h : prompt.view = .error crash) :
    prompt.session (.view :: rest) = .error crash := by
  rw [session, serve, h]
  rfl

theorem map_shown_cons (reply : Reply) (replies : Except Crash (List Reply)) :
    (replies.map (reply :: ·)).map (·.map (·.shown)) =
      (replies.map (·.map (·.shown))).map (reply.shown :: ·) := by
  cases replies with
  | error crash => rfl
  | ok replies => rfl

/-- A session crashes if the view of a narrow window is asked for. Otherwise all requests are
served, and all views are drawn. -/
theorem session_views (prompt : Prompt) (requests : List Request) :
    (prompt.AsksNarrow requests → prompt.session requests = .error .negativeCount) ∧
      (¬ prompt.AsksNarrow requests →
        (prompt.session requests).map (·.map (·.shown)) = .ok (prompt.pictures requests)) := by
  induction requests generalizing prompt with
  | nil =>
    refine ⟨fun h => ?_, fun _ => rfl⟩
    obtain ⟨before, after, hrequests, -⟩ := h
    cases before <;> cases hrequests
  | cons request rest ih =>
    cases request with
    | message message =>
      obtain ⟨hcrash, hdrawn⟩ := ih (prompt.update message).1
      rw [asksNarrow_message, session_message]
      refine ⟨fun h => ?_, fun h => ?_⟩
      · rw [hcrash h]
        rfl
      · rw [map_shown_cons, hdrawn h]
        rfl
    | view =>
      obtain ⟨hcrash, hdrawn⟩ := ih prompt
      rw [asksNarrow_view]
      by_cases hnarrow : prompt.IsNarrow
      · refine ⟨fun _ => session_view_of_crash (view_of_isNarrow hnarrow), fun h => ?_⟩
        exact absurd (.inl hnarrow) h
      · rw [or_iff_right hnarrow, session_view (view_of_not_isNarrow hnarrow)]
        refine ⟨fun h => ?_, fun h => ?_⟩
        · rw [hcrash h]
          rfl
        · rw [map_shown_cons, hdrawn h]
          rfl

end Session

/-- A window of one column. -/
theorem session_one_column :
    (new 0).session [.message (.resize 1 24), .view] = .error .negativeCount := by
  rfl

end Garnet.Prompt

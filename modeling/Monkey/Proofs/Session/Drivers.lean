import Monkey.Proofs.Interpreter.Session
import Monkey.Proofs.Session.Portions
import Monkey.Session.Interactive

/-!
# Two ways to hold a session

A session over an input and an interactive session that is given the same lines hand over the same
inputs, show the same and leave the same bindings. There are two exceptions, both at the end of the
lines: the interactive session drops an input that is still unfinished there, and it ends the line.

The journals of the two may differ, because only an interactive session notes what becomes of its
history, but nothing that a session does depends on its journal. And a blank input, which an
interactive session passes over, is answered by nothing in the other one. What is left is that both
perform one script up to the end of the lines (`play_follows`).
-/

namespace Monkey

namespace Interpreter

/-- The interpreter with other notes. -/
def withJournal (i : Interpreter) (journal : List Journal.Record) : Interpreter :=
  { i with journal }

variable (i : Interpreter) (journal : List Journal.Record)

theorem parse_withJournal (source : Bytes) :
    ∃ journal', (i.withJournal journal).parse source =
      ((i.parse source).1, (i.parse source).2.withJournal journal') := by
  unfold parse withJournal
  dsimp only
  split
  · exact ⟨_, rfl⟩
  · obtain ⟨_, hleft⟩ := foldl_note Grammar.TraceNote.record
      (Grammar.parseSource source i.tracing).trace { i with journal }
    obtain ⟨_, hright⟩ := foldl_note Grammar.TraceNote.record
      (Grammar.parseSource source i.tracing).trace i
    simp only [hleft, hright]
    split
    · exact ⟨_, rfl⟩
    · exact ⟨_, rfl⟩

theorem run_withJournal (program : Program) :
    ∃ journal', (i.withJournal journal).run program =
      (i.run program).map fun answer => (answer.1, answer.2.withJournal journal') := by
  unfold run withJournal
  dsimp only
  split
  · split
    · exact ⟨_, rfl⟩
    · exact ⟨_, rfl⟩
  · exact ⟨[], rfl⟩
  · exact ⟨[], rfl⟩

theorem eval_withJournal (source : Bytes) :
    ∃ journal', (i.withJournal journal).eval source =
      (i.eval source).map fun answer => (answer.1, answer.2.withJournal journal') := by
  obtain ⟨journal₁, hparse⟩ := i.parse_withJournal journal source
  unfold eval
  rw [hparse]
  generalize i.parse source = parsed
  obtain ⟨answer, i₁⟩ := parsed
  cases answer with
  | error faults => exact ⟨journal₁, rfl⟩
  | ok program =>
      obtain ⟨journal₂, hrun⟩ := i₁.run_withJournal journal₁ program
      refine ⟨journal₂, ?_⟩
      dsimp only
      rw [hrun]
      cases i₁.run program <;> rfl

end Interpreter

namespace Session

/-- The session whose interpreter has other notes. -/
def withJournal (s : Session) (journal : List Journal.Record) : Session :=
  { s with interpreter := s.interpreter.withJournal journal }

theorem command_withJournal (s : Session) (journal : List Journal.Record) (words : List Bytes) :
    (s.withJournal journal).command words =
      { s.command words with session := (s.command words).session.withJournal journal } := by
  rcases words with _ | ⟨name, args⟩
  · rfl
  · cases hname : Command.ofName name with
    | mode =>
        cases args with
        | nil =>
            simp only [command, hname]
            rfl
        | cons next args =>
            simp only [command, hname]
            split <;> rfl
    | _ => simp only [command, hname] <;> rfl

/-- Nothing that a session does depends on its journal. -/
theorem handle_withJournal (s : Session) (journal : List Journal.Record) (text : Bytes) :
    ∃ journal', (s.withJournal journal).handle text = (s.handle text).map fun reply =>
      { reply with session := reply.session.withJournal journal' } := by
  rw [handle_eq, handle_eq]
  split
  · exact ⟨journal, rfl⟩
  · split
    · exact ⟨journal, congrArg some (s.command_withJournal journal _)⟩
    · split
      · next hmode =>
          obtain ⟨journal', hparse⟩ := s.interpreter.parse_withJournal journal text
          refine ⟨journal', ?_⟩
          rw [if_pos (show s.mode = parseMode from hmode), withJournal, hparse]
          rfl
      · next hmode =>
          obtain ⟨journal', heval⟩ := s.interpreter.eval_withJournal journal text
          refine ⟨journal', ?_⟩
          rw [if_neg (show ¬ s.mode = parseMode from hmode), withJournal, heval, Option.map_map,
            Option.map_map]
          rfl

/-- The input that an event answers. -/
def Event.input? : Event → Option Bytes
  | reply input _ => some input
  | prompt _ => none
  | newline => none

/-- Whether an event answers a blank input. -/
def Event.isBlank (e : Event) : Bool := e.input?.any isBlankText

/-- The inputs that were handed to the session, in their order. -/
def Console.inputs (c : Console) : List Bytes := c.transcript.reverse.filterMap Event.input?

/-- Two consoles show the same, and their sessions are the same but for the journal. The second one
does not know of blank inputs, and the first one was silent about them. -/
structure Follows (c c' : Console) : Prop where
  session : ∃ journal, c'.session = c.session.withJournal journal
  transcript : c'.transcript = c.transcript.filter fun e => !e.isBlank
  silent : ∀ e ∈ c.transcript, e.isBlank = true → e.output = []

namespace Follows

open Console

variable {c c' : Console}

theorem display (h : Follows c c') {e : Event} (he : e.isBlank = false) :
    Follows (c.display e) (c'.display e) where
  session := h.session
  transcript := by simp [Console.display, he, h.transcript]
  silent := by
    intro e' he' hblank
    rcases List.mem_cons.mp he' with rfl | hold
    · rw [he] at hblank
      cases hblank
    · exact h.silent e' hold hblank

theorem asked (h : Follows c c') (main : Bytes) (count : Nat) :
    Follows (c.asked main count) (c'.asked main count) := by
  induction count with
  | zero => exact h
  | succ count ih => exact ih.display rfl

/-- A blank input is passed over by the one console and answered by nothing in the other. -/
theorem perform_blank (h : Follows c c') {main : Bytes} (hc : Ready main c) {input : Bytes}
    (hblank : isBlankText input = true) (steps : List Step) :
    ∃ d, c.perform (handing input ++ steps) = d.perform steps ∧ Follows d c' ∧ Ready main d := by
  by_cases hempty : input.isEmpty = true
  · exact ⟨c, perform_handing_nil hempty c steps, h, hc⟩
  · have hhandle : c.session.handle input = some (c.session.reply []) := by
      rw [handle_eq, if_pos hblank]
    have hquit : isQuit input = false := by simp [isQuit, isCommand_of_isBlankText hblank]
    refine ⟨c.display (.reply input []), ?_, ⟨h.session, ?_, ?_⟩, ⟨hc.prompt, hc.pending⟩⟩
    · rw [perform_handing hempty, perform, submit, hhandle, hquit]
      rfl
    · simp [Console.display, Event.isBlank, Event.input?, hblank, h.transcript]
    · intro e he hblank'
      rcases List.mem_cons.mp he with rfl | hold
      · rfl
      · exact h.silent e hold hblank'

/-- Any other input is answered alike. -/
theorem submit (h : Follows c c') {input : Bytes} (hinput : isBlankText input = false) :
    Option.Rel (fun outcome outcome' => outcome'.2 = outcome.2 ∧ Follows outcome.1 outcome'.1)
      (c.submit input) (c'.submit input) := by
  obtain ⟨journal, hsession⟩ := h.session
  obtain ⟨journal', hhandle⟩ := c.session.handle_withJournal journal input
  unfold Console.submit
  rw [hsession, hhandle]
  cases c.session.handle input with
  | none => exact .none
  | some reply =>
      have hevent : (Event.reply input reply.output).isBlank = false := hinput
      exact .some ⟨rfl, ⟨journal', rfl⟩, (h.display hevent).transcript, (h.display hevent).silent⟩

end Follows

/-- The second console was handed the same inputs but for blank ones, shows the same, and has the
same bindings and the same mode. -/
structure Agrees (c c' : Console) : Prop where
  inputs : c'.inputs = c.inputs.filter fun input => !isBlankText input
  output : c'.output = c.output
  heap : c'.session.interpreter.heap = c.session.interpreter.heap
  mode : c'.session.mode = c.session.mode

/-- Silent events can be left out. -/
theorem flatten_output_filter {events : List Event}
    (h : ∀ e ∈ events, e.isBlank = true → e.output = []) :
    ((events.filter fun e => !e.isBlank).map Event.output).flatten =
      (events.map Event.output).flatten := by
  induction events with
  | nil => rfl
  | cons e events ih =>
      obtain ⟨he, hevents⟩ := List.forall_mem_cons.mp h
      cases hblank : e.isBlank with
      | false => simp [hblank, ih hevents]
      | true => simp [hblank, ih hevents, he hblank]

theorem filterMap_input?_filter (events : List Event) :
    (events.filter fun e => !e.isBlank).filterMap Event.input? =
      (events.filterMap Event.input?).filter fun input => !isBlankText input := by
  induction events with
  | nil => rfl
  | cons e events ih =>
      cases e with
      | reply input output =>
          have hevent : (Event.reply input output).isBlank = isBlankText input := rfl
          cases hblank : isBlankText input <;> simp [hevent, hblank, Event.input?, ih]
      | prompt text => exact ih
      | newline => exact ih

theorem Follows.agrees {c c' : Console} (h : Follows c c') : Agrees c c' := by
  obtain ⟨journal, hsession⟩ := h.session
  refine ⟨?_, ?_, by rw [hsession]; rfl, by rw [hsession]; rfl⟩
  · rw [Console.inputs, Console.inputs, h.transcript, ← List.filter_reverse,
      filterMap_input?_filter]
  · rw [Console.output, Console.output, h.transcript, ← List.filter_reverse]
    exact flatten_output_filter fun e he => h.silent e (List.mem_reverse.mp he)

namespace Interactive

open Console

/-- What a line does to an interactive session that waits for it. -/
theorem accept_awaiting {main : Bytes} {c : Console} (h : Ready main c) {pending : List Bytes}
    (hpending : Unfinished pending) (history : History) (line : Bytes) :
    accept ⟨(c.awaiting main pending).ask, history⟩ line =
      if isClosed (pending ++ [line]) then
        if isBlankText (inputText (pending ++ [line])) then
          some (⟨c.asked main (pending ++ [line]).length, history⟩, false)
        else ((c.asked main (pending ++ [line]).length).submit (inputText (pending ++ [line]))).map
          fun outcome => (⟨outcome.1,
            history.append (History.entryOf (inputText (pending ++ [line])))⟩, outcome.2)
      else some (⟨c.awaiting main (pending ++ [line]), history⟩, false) := by
  rw [accept]
  dsimp only
  rw [h.accept_awaiting hpending]
  by_cases hclosed : isClosed (pending ++ [line]) = true
  · rw [if_pos hclosed, if_pos hclosed]
    dsimp only
    split
    · rfl
    · rcases submit _ (inputText (pending ++ [line])) with _ | ⟨c', ended⟩ <;> rfl
  · rw [if_neg hclosed, if_neg hclosed]

theorem openingScript_cons (main : Bytes) (portion : List Bytes) (portions : List (List Bytes))
    (rest : List Bytes) (steps : List Step) :
    openingScript main (portion :: portions) rest ++ steps = asks main portion.length ++
      (handing (inputText portion) ++ (openingScript main portions rest ++ steps)) := by
  simp [openingScript, portionScript]

/-- An interactive session performs the same script up to the end of the lines, and ends the line
there. -/
theorem play_follows {main : Bytes} {c c' : Console} (hc : Ready main c) (hc' : Ready main c')
    (h : Follows c c') (history : History) {pending : List Bytes} (hpending : Unfinished pending)
    (lines : List Bytes) :
    Option.Rel (fun outcome (s : Interactive) => Follows outcome.1 s.console)
      (c.perform (openingScript main (portionsFrom pending lines).1
        (portionsFrom pending lines).2 ++ [.newline]))
      (play ⟨c'.awaiting main pending, history⟩ lines) := by
  -- The invariant is that both consoles are ready and the second follows the first. What was read
  -- of an unfinished input is in `pending` on both sides.
  induction lines generalizing pending c c' history with
  | nil =>
      have hend := (h.asked main (pending.length + 1)).display (e := .newline) rfl
      rw [play, hc'.ask_awaiting, portionsFrom, openingScript, List.flatMap_nil, List.nil_append,
        perform_asks]
      exact .some ⟨hend.session, hend.transcript, hend.silent⟩
  | cons line lines ih =>
      rw [play]
      dsimp only
      rw [accept_awaiting hc' hpending, portionsFrom]
      by_cases hclosed : isClosed (pending ++ [line]) = true
      · rw [if_pos hclosed, if_pos hclosed, openingScript_cons, perform_asks]
        have hasked := h.asked main (pending ++ [line]).length
        have hc₁ := hc.asked (pending ++ [line]).length
        have hc₁' := hc'.asked (pending ++ [line]).length
        generalize c.asked main (pending ++ [line]).length = c₁ at hasked hc₁ ⊢
        generalize c'.asked main (pending ++ [line]).length = c₁' at hasked hc₁' ⊢
        -- A blank input may still have something in it. Then the first console hands it over.
        by_cases hblank : isBlankText (inputText (pending ++ [line])) = true
        · obtain ⟨d, hperform, hfollows, hd⟩ := hasked.perform_blank hc₁ hblank
            (openingScript main (portionsFrom [] lines).1 (portionsFrom [] lines).2 ++ [.newline])
          have hnext := ih hd hc₁' hfollows history unfinished_nil
          rw [hc₁'.awaiting_nil] at hnext
          rw [if_pos hblank, hperform]
          exact hnext
        · have hne : ¬ (inputText (pending ++ [line])).isEmpty = true := by
            intro hempty
            rw [List.isEmpty_iff.mp hempty] at hblank
            exact hblank rfl
          have hsubmit := hasked.submit (by simpa using hblank)
          rw [if_neg hblank, perform_handing hne, perform]
          generalize hleft : c₁.submit (inputText (pending ++ [line])) = answer at hsubmit ⊢
          generalize hright : c₁'.submit (inputText (pending ++ [line])) = answer' at hsubmit ⊢
          cases hsubmit with
          | none => exact .none
          | @some outcome outcome' hanswers =>
              obtain ⟨c₂, ended⟩ := outcome
              obtain ⟨c₂', ended'⟩ := outcome'
              obtain ⟨rfl, hfollows⟩ := hanswers
              obtain ⟨hc₂, hended⟩ := hc₁.of_submit hleft
              have hc₂' := (hc₁'.of_submit hright).1
              dsimp only
              rw [← hended]
              cases ended' with
              | true => exact .some hfollows
              | false =>
                  have hnext := ih hc₂ hc₂' hfollows
                    (history.append (History.entryOf (inputText (pending ++ [line]))))
                    unfinished_nil
                  rw [hc₂'.awaiting_nil] at hnext
                  exact hnext
      · rw [if_neg hclosed, if_neg hclosed]
        exact ih hc hc' h history (hpending.concat (by simpa using hclosed))

/-- An interactive session to which a line editor gives the lines one by one. -/
def runLines (s : Session) (files : Files) (path : Bytes) (lines : List Bytes) : Option Ending :=
  (if isRefused s.prompt then some (start s files.find path)
    else (start s files.find path).play lines).map fun played =>
      ⟨(played.save files path).1, (played.save files path).2, isRefused s.prompt⟩

theorem run_eq_runLines (s : Session) (files : Files) (path input : Bytes) :
    run s files path input = runLines s files path ((pieces input).map Piece.text) := by
  unfold run runLines
  dsimp only
  generalize (if isRefused s.prompt then some (start s files.find path)
    else (start s files.find path).play ((pieces input).map Piece.text)) = played
  cases played <;> rfl

theorem follows_start (s : Session) (find : Files.Finder) (path : Bytes) :
    Follows (ofSession s) (start s find path).console := by
  have hself : Follows (ofSession s) (ofSession s) :=
    ⟨⟨s.interpreter.journal, rfl⟩, rfl, List.forall_mem_nil _⟩
  unfold start
  split
  · exact hself
  · split
    · exact hself
    · exact ⟨⟨_, rfl⟩, rfl, List.forall_mem_nil _⟩

theorem ready_start (s : Session) (find : Files.Finder) (path : Bytes) :
    Ready s.prompt (start s find path).console := by
  unfold start
  split
  · exact ⟨rfl, rfl⟩
  · split <;> exact ⟨rfl, rfl⟩

theorem follows_save {c : Console} {s : Interactive} (h : Follows c s.console) (files : Files)
    (path : Bytes) : Follows c (s.save files path).1.console := by
  unfold save
  split
  · exact h
  · split
    · exact h
    · next message hwrite =>
        obtain ⟨journal, hsession⟩ := h.session
        refine ⟨⟨saveFailed path message :: journal, ?_⟩, h.transcript, h.silent⟩
        dsimp only
        rw [hsession]
        rfl

/-- The session over given lines up to the end, where it ends the line. -/
theorem rel_perform_runLines (s : Session) (files : Files) (path : Bytes)
    (hprompt : isRefused s.prompt = false) (lines : List Bytes) :
    Option.Rel (fun outcome (ending : Ending) =>
        Agrees outcome.1 ending.interactive.console ∧ ending.refused = false)
      ((ofSession s).perform
        (openingScript s.prompt (portionsOf lines) (restOf lines) ++ [.newline]))
      (runLines s files path lines) := by
  have hstart := follows_start s files.find path
  have hready := ready_start s files.find path
  have hplay := play_follows (ready_ofSession s) hready hstart
    (start s files.find path).history unfinished_nil lines
  rw [hready.awaiting_nil] at hplay
  unfold runLines
  rw [hprompt, if_neg Bool.false_ne_true]
  change Option.Rel _ (perform _ (openingScript s.prompt (portionsFrom [] lines).1
    (portionsFrom [] lines).2 ++ _)) (((start s files.find path).play lines).map _)
  generalize (ofSession s).perform _ = outcome at hplay ⊢
  generalize (start s files.find path).play lines = played at hplay ⊢
  cases hplay with
  | none => exact .none
  | some hfollows => exact .some ⟨(follows_save hfollows files path).agrees, rfl⟩

end Interactive

/-- Over the lines of an input, a session and an interactive session perform the same script up to
the end of the lines. There the one hands over what is left, and the other one drops it and ends the
line. If no line is too long for the window of the line editor and the last one does not end with a
carriage return, the interactive session finds these lines in the input by itself. -/
theorem runLines_agrees (s : Session) (files : Files) (path input : Bytes)
    (hprompt : Interactive.isRefused s.prompt = false) (hfits : Fits Lines.limit input) :
    ∃ portions rest, Portioned (inputLines input) portions rest ∧
      run s input = ((Console.ofSession s).perform
        (openingScript s.prompt portions rest ++ handing (inputText rest))).map (fun outcome =>
          ⟨outcome.1, false⟩) ∧
      Option.Rel (fun outcome (ending : Interactive.Ending) =>
          Agrees outcome.1 ending.interactive.console ∧ ending.refused = false)
        ((Console.ofSession s).perform (openingScript s.prompt portions rest ++ [.newline]))
        (Interactive.runLines s files path (inputLines input)) ∧
      (Fits Piece.windowSize input → input.getLast? ≠ some 0x0d →
        Interactive.run s files path input =
          Interactive.runLines s files path (inputLines input)) := by
  refine ⟨_, _, portioned _, run_eq_perform s (Lines.ofInput_eq hfits), ?_, ?_⟩
  · exact Interactive.rel_perform_runLines s files path hprompt (inputLines input)
  · intro hwindow hlast
    rw [Interactive.run_eq_runLines, map_text_pieces hwindow, inputLines, if_neg hlast]

/-- The second input is blank, and the last one is unfinished. -/
theorem runLines_agrees_unfinished :
    let s := ofSettings .defaults false (.ofSettings .defaults)
    let files : Files := ⟨[]⟩
    let input := utf8 "let a = 1;\n \na\nif (true) \x7b a\n"
    Interactive.isRefused s.prompt = false ∧ Fits Lines.limit input ∧
      (run s input).map (fun r => (r.console.inputs, r.console.output)) =
        some ([utf8 "let a = 1;", utf8 " ", utf8 "a", utf8 "if (true) \x7b a"],
          utf8 ">> >> >> 1\n>> .. 1\n") ∧
      (Interactive.run s files [] input).map (fun e =>
          (e.interactive.console.inputs, e.interactive.console.output)) =
        some ([utf8 "let a = 1;", utf8 "a"], utf8 ">> >> >> 1\n>> .. \n") ∧
      ∃ portions rest, Portioned (inputLines input) portions rest ∧
        Option.Rel (fun outcome (ending : Interactive.Ending) =>
            Agrees outcome.1 ending.interactive.console ∧ ending.refused = false)
          ((Console.ofSession s).perform (openingScript s.prompt portions rest ++ [.newline]))
          (Interactive.run s files [] input) := by
  intro s files input
  have hprompt : Interactive.isRefused s.prompt = false := by decide +kernel
  have hfits : Fits Lines.limit input := fits_of_length_lt (by decide +kernel)
  have hwindow : Fits Piece.windowSize input := fits_of_length_lt (by decide)
  obtain ⟨portions, rest, hportioned, -, hagrees, hlines⟩ :=
    runLines_agrees s files [] input hprompt hfits
  rw [← hlines hwindow (by decide)] at hagrees
  exact ⟨hprompt, hfits, by decide +kernel, by decide +kernel, portions, rest, hportioned, hagrees⟩

end Session

end Monkey

import Monkey.Proofs.Interpreter.Transparency
import Monkey.Proofs.Session.Portions

/-!
# What a session does to its interpreter

Of the inputs of a session only some are evaluated: those that are neither blank nor a command, come
while the mode is not the one for reading only, and have no faults. The others change no binding in
any scope. At the end of the session the scopes are therefore those of an interpreter that has been
given the inputs of the first kind and no others, although the programs of both kinds go through the
same cache.

A step of the proof is what one input does (`handle_of_isEvaluated` and the two lemmas before it);
`perform_evaluates` takes it through a script.
-/

namespace Monkey

namespace Interpreter

/-- Evaluates one source after the other. -/
def evalAll (i : Interpreter) : List Bytes → Option Interpreter
  | [] => some i
  | source :: sources =>
    match i.eval source with
    | some (_, i) => i.evalAll sources
    | none => none

theorem Alike.trans_sameHeap {i j k : Interpreter} (h : Alike i j) (hsame : SameHeap j k)
    (hsound : k.CacheSound) : Alike i k where
  heap := hsame.heap.trans h.heap
  tracing := hsame.tracing.trans h.tracing
  bound := hsame.bound.trans h.bound
  sound := h.sound
  sound' := hsound

end Interpreter

namespace Session

open Interpreter (Alike SameHeap Made)

/-- The mode after an input. -/
def modeOf (mode text : Bytes) : Bytes :=
  if isCommand text then modeAfter mode (Text.fields text) else mode

/-- Whether an input is evaluated in the given mode. -/
def isEvaluated (tracing : Bool) (mode text : Bytes) : Bool :=
  !isBlankText text && !isCommand text && mode != parseMode &&
    (Grammar.parseSource text tracing).faults.isEmpty

/-- Of the inputs of a session, those that are evaluated, if it starts in the given mode. -/
def evaluated (tracing : Bool) (mode : Bytes) : List Bytes → List Bytes
  | [] => []
  | text :: texts =>
    if isEvaluated tracing mode text then text :: evaluated tracing (modeOf mode text) texts
    else evaluated tracing (modeOf mode text) texts

/-- The inputs that are handed over by a script, up to a command that ends the session. -/
def handed : List Step → List Bytes
  | [] => []
  | .hand input :: steps => input :: if isQuit input then [] else handed steps
  | .ask _ :: steps => handed steps
  | .newline :: steps => handed steps

section Handle

variable {s : Session} {text : Bytes}

theorem mode_of_handle {reply : Reply} (h : s.handle text = some reply) :
    reply.session.mode = modeOf s.mode text := by
  rw [handle_eq] at h
  unfold modeOf
  split at h
  · next hblank =>
      cases h
      rw [isCommand_of_isBlankText hblank]
      rfl
  · split at h
    · next hcommand =>
        cases h
        rw [if_pos hcommand, (s.command_cases (Text.fields text)).1]
    · next hcommand =>
        rw [if_neg hcommand]
        split at h
        · cases h
          rfl
        · obtain ⟨answer, -, rfl⟩ := Option.map_eq_some_iff.mp h
          rfl

/-- An input that is not evaluated is answered, and leaves the scopes as they were. -/
theorem handle_of_not_isEvaluated (hsound : s.interpreter.CacheSound)
    (h : isEvaluated s.interpreter.tracing s.mode text = false) :
    ∃ reply, s.handle text = some reply ∧ SameHeap s.interpreter reply.session.interpreter ∧
      reply.session.interpreter.CacheSound := by
  have hparse := Interpreter.parse_cases hsound text
  rw [handle_eq]
  split
  · exact ⟨_, rfl, ⟨rfl, rfl, rfl⟩, hsound⟩
  · next hblank =>
      split
      · refine ⟨_, rfl, ?_⟩
        rw [(s.command_cases (Text.fields text)).1]
        exact ⟨⟨rfl, rfl, rfl⟩, hsound⟩
      · next hcommand =>
          split
          · exact ⟨_, rfl, hparse.1, hparse.2.1⟩
          · next hmode =>
              have hfaults : (Grammar.parseSource text s.interpreter.tracing).faults ≠ [] := by
                simpa [isEvaluated, hblank, hcommand, hmode] using h
              rw [Interpreter.eval_of_faults hsound hfaults]
              exact ⟨_, rfl, hparse.1, hparse.2.1⟩

/-- An input that is evaluated is given to the interpreter. -/
theorem handle_of_isEvaluated (h : isEvaluated s.interpreter.tracing s.mode text = true) :
    isCommand text = false ∧ s.handle text = (s.interpreter.eval text).map fun answer =>
      ⟨s.answerText answer.1, { s with interpreter := answer.2 }, false⟩ := by
  simp only [isEvaluated, Bool.and_eq_true, Bool.not_eq_true', bne_iff_ne] at h
  obtain ⟨⟨⟨hblank, hcommand⟩, hmode⟩, -⟩ := h
  refine ⟨hcommand, ?_⟩
  rw [handle_eq]
  simp [hblank, hcommand, hmode]

end Handle

/-- At the end of a script the interpreter is like one that was given the inputs that are evaluated
and no others. -/
theorem perform_evaluates (steps : List Step) {c : Console} {i : Interpreter}
    (h : Alike i c.session.interpreter) :
    Option.Rel (fun outcome j => Alike j outcome.1.session.interpreter) (c.perform steps)
      (i.evalAll (evaluated i.tracing c.session.mode (handed steps))) := by
  induction steps generalizing c i with
  | nil => exact .some h
  | cons step steps ih =>
      cases step with
      | ask prompt => exact ih h
      | newline => exact ih h
      | hand input =>
          rw [Console.perform, Console.submit, handed, evaluated]
          by_cases hinput : isEvaluated i.tracing c.session.mode input = true
          · rw [← h.tracing] at hinput
            obtain ⟨hcommand, hhandle⟩ := handle_of_isEvaluated hinput
            have hquit : isQuit input = false := by simp [isQuit, hcommand]
            have hmode : modeOf c.session.mode input = c.session.mode := by simp [modeOf, hcommand]
            have heval := h.eval input
            rw [hhandle, hquit, hmode, if_pos (h.tracing ▸ hinput), Interpreter.evalAll]
            generalize hfirst : i.eval input = answer at heval ⊢
            generalize c.session.interpreter.eval input = answer' at heval ⊢
            cases heval with
            | none => exact .none
            | @some answer answer' hanswers =>
                have htracing : answer.2.tracing = i.tracing :=
                  (Interpreter.eval_cases h.sound hfirst).1
                rw [← htracing]
                exact ih hanswers.2
          · -- Only the session takes a step. A program may get into its cache, but no scope changes.
            rw [if_neg hinput]
            rw [← h.tracing] at hinput
            obtain ⟨reply, hreply, hsame, hsound⟩ :=
              handle_of_not_isEvaluated h.sound' (by simpa using hinput)
            have hnext := h.trans_sameHeap hsame hsound
            rw [hreply]
            dsimp only
            split
            · exact .some hnext
            · rw [← mode_of_handle hreply]
              exact ih hnext

theorem map_heap_eq {performed : Option (Console × Bool)} {answered : Option Interpreter}
    (h : Option.Rel (fun outcome j => Alike j outcome.1.session.interpreter) performed answered) :
    performed.map (fun outcome => outcome.1.session.interpreter.heap) =
      answered.map Interpreter.heap := by
  cases h with
  | none => rfl
  | some halike => exact congrArg some halike.heap

/-- A change of the mode needs a command that names a mode. -/
theorem modeAfter_cases (mode : Bytes) (words : List Bytes) :
    modeAfter mode words = mode ∨ ∃ name next args, words = name :: next :: args ∧
      modeAfter mode words = next ∧ Command.ofName name = .mode ∧
      (next = evalMode ∨ next = parseMode) := by
  rcases words with _ | ⟨name, _ | ⟨next, args⟩⟩
  · exact .inl rfl
  · exact .inl rfl
  · by_cases hmode : Command.ofName name = .mode ∧ (next = evalMode ∨ next = parseMode)
    · exact .inr ⟨name, next, args, rfl, if_pos hmode, hmode⟩
    · exact .inl (if_neg hmode)

/-- The session at the end, whether or not a line was too long. -/
theorem session_run (s : Session) {input : Bytes} {read : Lines}
    (hread : Lines.ofInput input = read) :
    (run s input).map (fun r => r.console.session) =
      ((Console.ofSession s).perform
        (openingScript s.prompt (portionsOf read.lines) (restOf read.lines) ++
          if read.overlong then [] else handing (inputText (restOf read.lines)))).map fun outcome =>
            outcome.1.session := by
  rw [run_eq_bind s input hread, Console.perform_append]
  cases hperform : (Console.ofSession s).perform
      (openingScript s.prompt (portionsOf read.lines) (restOf read.lines)) with
  | none => rfl
  | some outcome =>
      obtain ⟨c, ended⟩ := outcome
      have hready := (ready_ofSession s).of_perform hperform
      have hfinish := hready.finish_eq_perform (portioned read.lines).unfinished
      cases ended <;> cases read.overlong <;> simp [hfinish, Console.perform, Function.comp_def]

/-- The scopes at the end are those of an interpreter that was given the inputs that are
evaluated. -/
theorem heap_run (s : Session) (hsound : s.interpreter.CacheSound) {input : Bytes} {read : Lines}
    (hread : Lines.ofInput input = read) :
    (run s input).map (fun r => r.console.session.interpreter.heap) =
      (s.interpreter.evalAll (evaluated s.interpreter.tracing s.mode
        (handed (openingScript s.prompt (portionsOf read.lines) (restOf read.lines) ++
          if read.overlong then [] else handing (inputText (restOf read.lines)))))).map
        Interpreter.heap := by
  have hrun := s.session_run hread
  generalize openingScript s.prompt _ _ ++ _ = steps at hrun ⊢
  have hsame : Alike s.interpreter (Console.ofSession s).session.interpreter :=
    ⟨⟨rfl, rfl, rfl⟩, hsound, hsound⟩
  have hheap := congrArg (Option.map fun session : Session => session.interpreter.heap) hrun
  rw [Option.map_map, Option.map_map] at hheap
  exact hheap.trans (map_heap_eq (perform_evaluates steps hsame))

theorem exists_mode_of_handle {s : Session} {text : Bytes} {reply : Reply}
    (h : s.handle text = some reply) (hne : reply.session.mode ≠ s.mode) :
    isCommand text = true ∧ ∃ name args, Text.fields text = name :: reply.session.mode :: args ∧
      Command.ofName name = .mode ∧
      (reply.session.mode = evalMode ∨ reply.session.mode = parseMode) := by
  rw [mode_of_handle h] at hne ⊢
  unfold modeOf at hne ⊢
  split at hne
  · next hcommand =>
      rcases modeAfter_cases s.mode (Text.fields text) with
        hsame | ⟨name, next, args, hwords, hnext, hmode⟩
      · exact absurd hsame hne
      · rw [if_pos hcommand, hnext]
        exact ⟨hcommand, name, args, hwords, hmode⟩
  · exact absurd rfl hne

/-- At the end of a session over an input the scopes are what they become if the inputs that are
evaluated are given to the interpreter, in their order, and nothing else is. An input that is blank,
a command, only read, or has faults changes no binding in any scope, and the mode changes only at a
command that names one. -/
theorem run_evaluates (s : Session) (input : Bytes) (hmade : s.interpreter.Made) :
    (∃ portions rest, Portioned (Lines.ofInput input).lines portions rest ∧
        (run s input).map (fun r => r.console.session.interpreter.heap) =
          (s.interpreter.evalAll (evaluated s.interpreter.tracing s.mode
            (handed (openingScript s.prompt portions rest ++
              if (Lines.ofInput input).overlong then [] else handing (inputText rest))))).map
            Interpreter.heap) ∧
      (∀ (s' : Session) (text : Bytes), s'.interpreter.Made →
        isBlankText text = true ∨ isCommand text = true ∨ s'.mode = parseMode ∨
          (Grammar.parseSource text s'.interpreter.tracing).faults ≠ [] →
        ∃ reply, s'.handle text = some reply ∧
          reply.session.interpreter.heap = s'.interpreter.heap) ∧
      ∀ (s' : Session) (text : Bytes) (reply : Reply), s'.handle text = some reply →
        reply.session.mode ≠ s'.mode →
        isCommand text = true ∧ ∃ name args, Text.fields text = name :: reply.session.mode :: args ∧
          Command.ofName name = .mode ∧
          (reply.session.mode = evalMode ∨ reply.session.mode = parseMode) := by
  refine ⟨⟨_, _, portioned _, heap_run s hmade.cacheSound rfl⟩, ?_, ?_⟩
  · intro s' text hmade' htext
    have hnot : isEvaluated s'.interpreter.tracing s'.mode text = false := by
      rcases htext with h | h | h | h <;> simp [isEvaluated, h]
    obtain ⟨reply, hreply, hsame, -⟩ := handle_of_not_isEvaluated hmade'.cacheSound hnot
    exact ⟨reply, hreply, hsame.heap⟩
  · intro s' text reply hreply hne
    exact exists_mode_of_handle hreply hne

/-- The first binding is only read, the second one is evaluated, and the third one has a fault. -/
theorem run_evaluates_between_modes :
    let s := ofSettings .defaults false (.ofSettings .defaults)
    let toReading := utf8 ":mode parse"
    let input := toReading ++ utf8 "\nlet a = 1;\n:Mode eval\nlet b = 2;\nlet c = ;\n"
    s.interpreter.Made ∧
      (run s input).map (fun r => r.console.session.interpreter.bindings.map Prod.fst) =
        some [utf8 "b"] ∧
      (∃ portions rest, Portioned (Lines.ofInput input).lines portions rest ∧
        (run s input).map (fun r => r.console.session.interpreter.heap) =
          (s.interpreter.evalAll (evaluated s.interpreter.tracing s.mode
            (handed (openingScript s.prompt portions rest ++
              if (Lines.ofInput input).overlong then [] else handing (inputText rest))))).map
            Interpreter.heap) ∧
      ∃ reply, s.handle toReading = some reply ∧
        reply.session.interpreter.heap = s.interpreter.heap ∧
        ∃ name args, Text.fields toReading = name :: reply.session.mode :: args ∧
          Command.ofName name = .mode := by
  intro s toReading input
  have hmade : s.interpreter.Made := .fresh .defaults _
  have hcommand : isCommand toReading = true := by decide +kernel
  have hchanges : (s.handle toReading).map (fun reply => reply.session.mode != s.mode) =
      some true := by decide +kernel
  obtain ⟨hheap, hframe, hmode⟩ := run_evaluates s input hmade
  obtain ⟨reply, hreply, hsame⟩ := hframe s toReading hmade (.inr (.inl hcommand))
  rw [hreply] at hchanges
  obtain ⟨-, name, args, hwords, hname, -⟩ :=
    hmode s toReading reply hreply (by simpa using hchanges)
  exact ⟨hmade, by decide +kernel, hheap, reply, hreply, hsame, name, args, hwords, hname⟩

end Session

end Monkey

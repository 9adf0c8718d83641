import Mathlib.Tactic.Common
import Monkey.Session.Console

/-!
# How a session handles an input

What an input can do to a session is said here once. A command changes nothing but the mode, and
that only if it names one; any other input leaves the mode alone and changes the interpreter by
reading or by evaluating it.
-/

namespace Monkey.Session

/-- The mode after a command, given by its words. -/
def modeAfter (mode : Bytes) : List Bytes → Bytes
  | name :: next :: _ =>
    if Command.ofName name = .mode ∧ (next = evalMode ∨ next = parseMode) then next else mode
  | _ => mode

/-- Whether a command, given by its words, ends the session. -/
def endsSession : List Bytes → Bool
  | name :: _ => Command.ofName name = .quit
  | [] => false

/-- Whether an input is a command that ends the session. -/
def isQuit (text : Bytes) : Bool := isCommand text && endsSession (Text.fields text)

/-- What is shown of a program that was read. -/
def readText : Except (List Grammar.Fault) Program → Bytes
  | .ok program => program.render ++ utf8 "\n"
  | .error faults => faultText faults

/-- What is shown of a source that was evaluated. -/
def answerText (s : Session) : Except (List Grammar.Fault) (Option Value) → Bytes
  | .ok result => s.resultText result
  | .error faults => faultText faults

theorem modeAfter_of_ne {name : Bytes} (hname : Command.ofName name ≠ .mode) (mode : Bytes)
    (args : List Bytes) : modeAfter mode (name :: args) = mode := by
  cases args with
  | nil => rfl
  | cons next args => simp [modeAfter, hname]

/-- A command changes nothing but the mode. -/
theorem command_cases (s : Session) (words : List Bytes) :
    (s.command words).session = { s with mode := modeAfter s.mode words } ∧
      (s.command words).quits = endsSession words := by
  rcases words with _ | ⟨name, args⟩
  · exact ⟨rfl, rfl⟩
  · cases hname : Command.ofName name with
    | mode =>
        cases args with
        | nil => simp [command, hname, reply, modeAfter, endsSession]
        | cons next args =>
            by_cases hnext : next = evalMode ∨ next = parseMode <;>
              simp [command, hname, reply, modeAfter, endsSession, hnext]
    | _ =>
        rw [modeAfter_of_ne (by simp [hname])]
        simp [command, hname, reply, endsSession]

/-- All that an input can do. -/
theorem handle_eq (s : Session) (text : Bytes) :
    s.handle text =
      if isBlankText text then some (s.reply [])
      else if isCommand text then some (s.command (Text.fields text))
      else if s.mode = parseMode then
        some ⟨readText (s.interpreter.parse text).1,
          { s with interpreter := (s.interpreter.parse text).2 }, false⟩
      else (s.interpreter.eval text).map fun answer =>
        ⟨s.answerText answer.1, { s with interpreter := answer.2 }, false⟩ := by
  have hread : s.readInput text = ⟨readText (s.interpreter.parse text).1,
      { s with interpreter := (s.interpreter.parse text).2 }, false⟩ := by
    unfold readInput
    rcases s.interpreter.parse text with ⟨_ | _, i⟩ <;> rfl
  have heval : s.evalInput text = (s.interpreter.eval text).map fun answer =>
      ⟨s.answerText answer.1, { s with interpreter := answer.2 }, false⟩ := by
    unfold evalInput
    rcases s.interpreter.eval text with _ | ⟨_ | _, i⟩ <;> rfl
  rw [handle, hread, heval]

theorem isCommand_of_isBlankText {text : Bytes} (h : isBlankText text = true) :
    isCommand text = false := by
  have hstart : Text.trimStart text = [] := List.isEmpty_iff.mp h
  simp [isCommand, hstart]

/-- Whatever an input does, the prompt stays, and the session ends just at a command to do so. -/
theorem prompt_and_quits_of_handle {s : Session} {text : Bytes} {reply : Reply}
    (h : s.handle text = some reply) :
    reply.session.prompt = s.prompt ∧ reply.quits = isQuit text := by
  rw [handle_eq] at h
  split at h
  · next hblank =>
      cases h
      exact ⟨rfl, by simp [isQuit, isCommand_of_isBlankText hblank, Session.reply]⟩
  · split at h
    · next hcommand =>
        cases h
        obtain ⟨hsession, hquits⟩ := s.command_cases (Text.fields text)
        exact ⟨by rw [hsession], by simp [isQuit, hcommand, hquits]⟩
    · next hcommand =>
        have hquit : isQuit text = false := by simp [isQuit, hcommand]
        split at h
        · cases h
          exact ⟨rfl, hquit.symm⟩
        · obtain ⟨answer, -, rfl⟩ := Option.map_eq_some_iff.mp h
          exact ⟨rfl, hquit.symm⟩

end Monkey.Session

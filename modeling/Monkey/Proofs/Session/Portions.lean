import Monkey.Proofs.Session.Handling
import Monkey.Proofs.Session.Joining
import Monkey.Proofs.Session.Lines

/-!
# What a console hands to its session

The lines of an input fall into portions, each of them the shortest run of lines that makes up an
input, and a rest in which something is still open at the end. `Portioned` says so without any
console.

What a console does with them is a script: it asks for every line, for the first line of a portion
with the main prompt and for the others with the other one, hands over each portion unless there is
nothing in it, and asks once more when the lines have come to their end. `Console.perform` follows a
script up to the first command to end the session. A session over an input does just that, and hands
over the rest as well.
-/

namespace Monkey.Session

section Portions

/-- Lines that make up an input, while fewer of them do not. -/
def IsPortion (lines : List Bytes) : Prop :=
  isClosed lines = true ∧ ∀ part, part <+: lines → part ≠ lines → isClosed part = false

/-- Lines that do not make up an input yet, and did not before either. -/
def Unfinished (lines : List Bytes) : Prop := ∀ part, part <+: lines → isClosed part = false

/-- The lines are the portions one after the other, and the rest. -/
structure Portioned (lines : List Bytes) (portions : List (List Bytes)) (rest : List Bytes) :
    Prop where
  covers : portions.flatten ++ rest = lines
  portion : ∀ portion ∈ portions, IsPortion portion
  unfinished : Unfinished rest

/-- The portions of lines and the rest of them, if the lines `pending` have been read before. -/
def portionsFrom (pending : List Bytes) : List Bytes → List (List Bytes) × List Bytes
  | [] => ([], pending)
  | line :: lines =>
    if isClosed (pending ++ [line]) then
      ((pending ++ [line]) :: (portionsFrom [] lines).1, (portionsFrom [] lines).2)
    else portionsFrom (pending ++ [line]) lines

theorem unfinished_nil : Unfinished [] := by
  intro part hpart
  rw [List.prefix_nil.mp hpart]
  rfl

variable {pending : List Bytes} {line : Bytes}

theorem Unfinished.isClosed_of_ne {part : List Bytes} (h : Unfinished pending)
    (hpart : part <+: pending ++ [line]) (hne : part ≠ pending ++ [line]) :
    isClosed part = false :=
  h part ((List.prefix_concat_iff.mp hpart).resolve_left hne)

theorem Unfinished.concat (h : Unfinished pending) (hline : isClosed (pending ++ [line]) = false) :
    Unfinished (pending ++ [line]) := by
  intro part hpart
  by_cases hne : part = pending ++ [line]
  · rw [hne]
    exact hline
  · exact h.isClosed_of_ne hpart hne

/-- A console that has read unfinished lines sees from the whole whether a line completes them. -/
theorem Unfinished.isComplete (h : Unfinished pending) (line : Bytes) :
    isComplete (inputText (pending ++ [line])) = isClosed (pending ++ [line]) := by
  cases pending with
  | nil => exact isComplete_inputText (.inl rfl)
  | cons first rest => exact isComplete_inputText (.inr (h [first] (by simp)))

theorem portioned_portionsFrom (h : Unfinished pending) (lines : List Bytes) :
    Portioned (pending ++ lines) (portionsFrom pending lines).1 (portionsFrom pending lines).2 := by
  induction lines generalizing pending with
  | nil => exact ⟨by simp [portionsFrom], List.forall_mem_nil _, h⟩
  | cons line lines ih =>
      rw [portionsFrom]
      split
      · next hclosed =>
          obtain ⟨hcovers, hportion, hrest⟩ := ih unfinished_nil
          refine ⟨?_, List.forall_mem_cons.mpr ⟨⟨hclosed, ?_⟩, hportion⟩, hrest⟩
          · rw [List.flatten_cons, List.append_assoc, hcovers]
            simp
          · exact fun part => h.isClosed_of_ne
      · next hopen =>
          have hmore := ih (h.concat (by simpa using hopen))
          rwa [List.append_assoc] at hmore

/-- The portions of lines. -/
def portionsOf (lines : List Bytes) : List (List Bytes) := (portionsFrom [] lines).1

/-- What is left of lines after their portions. -/
def restOf (lines : List Bytes) : List Bytes := (portionsFrom [] lines).2

theorem portioned (lines : List Bytes) : Portioned lines (portionsOf lines) (restOf lines) :=
  portioned_portionsFrom unfinished_nil lines

end Portions

/-- What a console does. -/
inductive Step where
  /-- It shows a prompt and waits for a line. -/
  | ask (prompt : Bytes)
  /-- It hands an input to the session. -/
  | hand (input : Bytes)
  /-- It ends the line that is shown. -/
  | newline

/-- Asking for the lines of an input, `count` of them. -/
def asks (main : Bytes) (count : Nat) : List Step :=
  (List.range count).map fun k => .ask (if k = 0 then main else Console.continuation)

/-- Handing over an input, unless there is nothing in it. -/
def handing (input : Bytes) : List Step := if input.isEmpty then [] else [.hand input]

/-- Reading the lines of a portion and handing them over. -/
def portionScript (main : Bytes) (portion : List Bytes) : List Step :=
  asks main portion.length ++ handing (inputText portion)

/-- Reading all lines up to their end, where it is found out by asking once more that there is
none. -/
def openingScript (main : Bytes) (portions : List (List Bytes)) (rest : List Bytes) : List Step :=
  portions.flatMap (portionScript main) ++ asks main (rest.length + 1)

namespace Console

/-- Does one step after the other, up to a command that ends the session, and says whether there was
one. -/
def perform (c : Console) : List Step → Option (Console × Bool)
  | [] => some (c, false)
  | .ask prompt :: steps => (c.display (.prompt prompt)).perform steps
  | .newline :: steps => (c.display .newline).perform steps
  | .hand input :: steps =>
    match c.submit input with
    | none => none
    | some (c, _) => if isQuit input then some (c, true) else c.perform steps

/-- The console that has asked for lines of an input, `count` times. -/
def asked (main : Bytes) (c : Console) : Nat → Console
  | 0 => c
  | count + 1 =>
    (c.asked main count).display (.prompt (if count = 0 then main else continuation))

/-- The console that has read the unfinished lines `pending`. -/
def awaiting (main : Bytes) (c : Console) (pending : List Bytes) : Console :=
  { c.asked main pending.length with pending }

/-- The console is between two inputs, and its prompt is the given one. -/
structure Ready (main : Bytes) (c : Console) : Prop where
  prompt : c.session.prompt = main
  pending : c.pending = []

section Asked

variable {main : Bytes} {c : Console}

theorem session_asked (main : Bytes) (c : Console) (count : Nat) :
    (c.asked main count).session = c.session := by
  induction count with
  | zero => rfl
  | succ count ih => exact ih

theorem pending_asked (main : Bytes) (c : Console) (count : Nat) :
    (c.asked main count).pending = c.pending := by
  induction count with
  | zero => rfl
  | succ count ih => exact ih

theorem Ready.asked (h : Ready main c) (count : Nat) : Ready main (c.asked main count) where
  prompt := (congrArg Session.prompt (session_asked main c count)).trans h.prompt
  pending := (pending_asked main c count).trans h.pending

theorem perform_asks (main : Bytes) (c : Console) (count : Nat) (steps : List Step) :
    c.perform (asks main count ++ steps) = (c.asked main count).perform steps := by
  induction count generalizing steps with
  | zero => rfl
  | succ count ih =>
      have hasks : asks main (count + 1) ++ steps = asks main count ++
          .ask (if count = 0 then main else continuation) :: steps := by
        simp [asks, List.range_succ]
      rw [hasks, ih]
      rfl

/-- Without unfinished lines there is nothing to await. -/
theorem Ready.awaiting_nil (h : Ready main c) : c.awaiting main [] = c := by
  obtain ⟨session, pending, transcript⟩ := c
  cases h.pending
  rfl

theorem Ready.ask_awaiting (h : Ready main c) (pending : List Bytes) :
    (c.awaiting main pending).ask = { c.asked main (pending.length + 1) with pending } := by
  have hprompt : (if pending.isEmpty then (c.asked main pending.length).session.prompt
      else continuation) = if pending.length = 0 then main else continuation := by
    rw [session_asked, h.prompt]
    cases pending <;> rfl
  unfold ask awaiting
  rw [hprompt]
  rfl

/-- What a line does to a console that waits for it. -/
theorem Ready.accept_awaiting (h : Ready main c) {pending : List Bytes}
    (hpending : Unfinished pending) (line : Bytes) :
    (c.awaiting main pending).ask.accept line =
      if isClosed (pending ++ [line]) then
        (c.asked main (pending ++ [line]).length, some (inputText (pending ++ [line])))
      else (c.awaiting main (pending ++ [line]), none) := by
  have hlength : (pending ++ [line]).length = pending.length + 1 := List.length_append
  have hdone : { c.asked main (pending.length + 1) with pending := [] } =
      c.asked main (pending.length + 1) := by
    rw [← (h.asked (pending.length + 1)).pending]
  rw [h.ask_awaiting, accept, hpending.isComplete, awaiting, hlength, hdone]

end Asked

section Submit

variable {main : Bytes} {c c' : Console} {ended : Bool}

/-- What handing over an input leaves as it was. -/
theorem Ready.of_submit (h : Ready main c) {input : Bytes}
    (hsubmit : c.submit input = some (c', ended)) : Ready main c' ∧ ended = isQuit input := by
  unfold submit at hsubmit
  split at hsubmit
  · next reply hreply =>
      obtain ⟨hprompt, hquits⟩ := prompt_and_quits_of_handle hreply
      cases hsubmit
      exact ⟨⟨hprompt.trans h.prompt, h.pending⟩, hquits⟩
  · cases hsubmit

theorem Ready.of_perform (h : Ready main c) {steps : List Step}
    (hperform : c.perform steps = some (c', ended)) : Ready main c' := by
  induction steps generalizing c with
  | nil =>
      cases hperform
      exact h
  | cons step steps ih =>
      cases step with
      | ask prompt => exact @ih (c.display (.prompt prompt)) ⟨h.prompt, h.pending⟩ hperform
      | newline => exact @ih (c.display .newline) ⟨h.prompt, h.pending⟩ hperform
      | hand input =>
          rw [perform] at hperform
          split at hperform
          · cases hperform
          · next c₁ quits hsubmit =>
              have hready := (h.of_submit hsubmit).1
              split at hperform
              · cases hperform
                exact hready
              · exact ih hready hperform

end Submit

theorem perform_append (c : Console) (before after : List Step) :
    c.perform (before ++ after) = (c.perform before).bind fun outcome =>
      if outcome.2 then some outcome else outcome.1.perform after := by
  induction before generalizing c with
  | nil => rfl
  | cons step before ih =>
      cases step with
      | ask prompt => exact ih _
      | newline => exact ih _
      | hand input =>
          rw [List.cons_append, perform, perform]
          cases c.submit input with
          | none => rfl
          | some submitted =>
              dsimp only
              split
              · rfl
              · exact ih _

theorem perform_handing_nil {input : Bytes} (h : input.isEmpty = true) (c : Console)
    (steps : List Step) : c.perform (handing input ++ steps) = c.perform steps := by
  rw [handing, if_pos h, List.nil_append]

theorem perform_handing {input : Bytes} (h : ¬ input.isEmpty = true) (c : Console)
    (steps : List Step) :
    c.perform (handing input ++ steps) = c.perform (.hand input :: steps) := by
  rw [handing, if_neg h, List.singleton_append]

/-- Going through lines is to perform the scripts of their portions. -/
theorem Ready.batch_awaiting {main : Bytes} {c : Console} (h : Ready main c) {pending : List Bytes}
    (hpending : Unfinished pending) (lines : List Bytes) :
    (c.awaiting main pending).batch lines =
      (c.perform ((portionsFrom pending lines).1.flatMap (portionScript main))).map fun outcome =>
        if outcome.2 then outcome
        else (outcome.1.awaiting main (portionsFrom pending lines).2, false) := by
  -- A line either completes the unfinished lines, and the script of a portion is performed, or it
  -- becomes one of them.
  induction lines generalizing pending c with
  | nil => rfl
  | cons line lines ih =>
      rw [batch, h.accept_awaiting hpending, portionsFrom]
      by_cases hclosed : isClosed (pending ++ [line]) = true
      · rw [if_pos hclosed, if_pos hclosed]
        dsimp only
        rw [List.flatMap_cons, portionScript, List.append_assoc, perform_asks]
        have hasked := h.asked (pending ++ [line]).length
        generalize c.asked main (pending ++ [line]).length = c₁ at hasked ⊢
        by_cases hempty : (inputText (pending ++ [line])).isEmpty = true
        · have hnext := ih hasked unfinished_nil
          rw [hasked.awaiting_nil] at hnext
          rw [if_pos hempty, perform_handing_nil hempty, hnext]
        · rw [if_neg hempty, perform_handing hempty, perform]
          cases hsubmit : c₁.submit (inputText (pending ++ [line])) with
          | none => rfl
          | some submitted =>
              obtain ⟨c₂, ended⟩ := submitted
              obtain ⟨hready, hended⟩ := hasked.of_submit hsubmit
              rw [← hended]
              cases ended with
              | true => rfl
              | false =>
                  have hnext := ih hready unfinished_nil
                  rwa [hready.awaiting_nil] at hnext
      · rw [if_neg hclosed, if_neg hclosed]
        exact ih h (hpending.concat (by simpa using hclosed))

/-- At the end of the lines the rest is handed over. -/
theorem Ready.finish_eq_perform {main : Bytes} {c : Console} (h : Ready main c) {rest : List Bytes}
    (hrest : Unfinished rest) :
    { c with pending := rest }.finish = (c.perform (handing (inputText rest))).map Prod.fst := by
  obtain ⟨session, pending, transcript⟩ := c
  cases h.pending
  cases rest with
  | nil => rfl
  | cons line rest =>
      have hne := inputText_ne_nil (List.cons_ne_nil line rest) (hrest _ List.prefix_rfl)
      have hhanding : handing (inputText (line :: rest)) = [.hand (inputText (line :: rest))] :=
        if_neg (by simpa using hne)
      rw [hhanding, perform, finish]
      cases submit ⟨session, [], transcript⟩ (inputText (line :: rest)) with
      | none => rfl
      | some submitted => cases isQuit (inputText (line :: rest)) <;> rfl

end Console

section Run

open Console

theorem ready_ofSession (s : Session) : Ready s.prompt (ofSession s) := ⟨rfl, rfl⟩

/-- The session over an input goes on to the end of the lines, unless a command ends it before, and
then with what is left of them. -/
theorem run_eq_bind (s : Session) (input : Bytes) {read : Lines}
    (hread : Lines.ofInput input = read) :
    run s input = ((ofSession s).perform
        (openingScript s.prompt (portionsOf read.lines) (restOf read.lines))).bind fun outcome =>
      if outcome.2 then some ⟨outcome.1, false⟩
      else if read.overlong then some ⟨{ outcome.1 with pending := restOf read.lines }, true⟩
      else ({ outcome.1 with pending := restOf read.lines }.finish).map (⟨·, false⟩) := by
  have hready := ready_ofSession s
  have hbatch := hready.batch_awaiting unfinished_nil read.lines
  rw [hready.awaiting_nil] at hbatch
  rw [run, hread, hbatch, openingScript, perform_append, portionsOf, restOf]
  generalize portionsFrom [] read.lines = portioned
  cases hperform : (ofSession s).perform (portioned.1.flatMap (portionScript s.prompt)) with
  | none => rfl
  | some outcome =>
      obtain ⟨c, ended⟩ := outcome
      cases ended with
      | true => rfl
      | false =>
          have hasks := perform_asks s.prompt c (portioned.2.length + 1) []
          rw [List.append_nil] at hasks
          simp [hasks, (hready.of_perform hperform).ask_awaiting, perform]

theorem run_eq_perform (s : Session) {input : Bytes} {lines : List Bytes}
    (hread : Lines.ofInput input = ⟨lines, false⟩) :
    run s input = ((ofSession s).perform
      (openingScript s.prompt (portionsOf lines) (restOf lines) ++
        handing (inputText (restOf lines)))).map fun outcome => ⟨outcome.1, false⟩ := by
  rw [run_eq_bind s input hread, perform_append]
  cases hperform : (ofSession s).perform
      (openingScript s.prompt (portionsOf lines) (restOf lines)) with
  | none => rfl
  | some outcome =>
      obtain ⟨c, ended⟩ := outcome
      cases ended with
      | true => rfl
      | false =>
          have hready := (ready_ofSession s).of_perform hperform
          simp [hready.finish_eq_perform (portioned lines).unfinished, Function.comp_def]

/-- A session over an input, no line of which is too long, hands over the portions of the lines and
the rest, and shows its prompts in between. -/
theorem run_performs_script (s : Session) (input : Bytes) (hfits : Fits Lines.limit input) :
    ∃ portions rest, Portioned (inputLines input) portions rest ∧
      run s input = ((Console.ofSession s).perform
        (openingScript s.prompt portions rest ++ handing (inputText rest))).map fun outcome =>
          ⟨outcome.1, false⟩ :=
  ⟨_, _, portioned (inputLines input), run_eq_perform s (Lines.ofInput_eq hfits)⟩

/-- A function and a call take two lines each, with an empty line in between. The last line comes
after the end of the session. -/
theorem run_performs_script_of_quit :
    let s := ofSettings .defaults false (.ofSettings .defaults)
    let input := utf8 "let f = fn(x) \x7b\n  x \x7d;\n\nf(\n2)\n:quit\nf(3)"
    Fits Lines.limit input ∧
      (run s input).map (fun r => r.console.output) = some (utf8 ">> .. >> >> .. 2\n>> ") ∧
      ∃ portions rest, Portioned (inputLines input) portions rest ∧
        run s input = ((Console.ofSession s).perform
          (openingScript s.prompt portions rest ++ handing (inputText rest))).map fun outcome =>
            ⟨outcome.1, false⟩ := by
  intro s input
  have hfits : Fits Lines.limit input := fits_of_length_lt (by decide +kernel)
  exact ⟨hfits, by decide +kernel, run_performs_script s input hfits⟩

end Run

end Monkey.Session

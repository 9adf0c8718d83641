import Monkey.Proofs.Grammar.Halting

/-!
# Traces

Tracing is a matter of its own. Whether it is switched on makes no difference to what is found, to
what is recorded as a fault and to how far the stream is read: forgetting the trace after a rule has
run is the same as forgetting it before (`Rule.run_untraced`).

What a trace says are the calls of rules. `Rule.calls` are the calls that a rule makes on the way,
whether or not anything is noted, each with the calls inside it. Reading with tracing notes exactly
these (`Rule.run_notes`): where a call begins, then the notes of the calls inside it, one level
deeper, and where it ends, however it ends. So a trace is well bracketed.

The depth of a note is a natural number, and the depth of a state is never taken below zero. That
nothing is lost by this is what `Indented` says, where the level is an integer.
-/

namespace Monkey.Grammar

open Rule Outcome

section Untraced

/-- The state without its trace. -/
def State.untraced (s : State) : State := ⟨s.input, s.faults, false, 0, []⟩

def Outcome.untraced {α : Type} : Outcome α → Outcome α
  | found a s => found a s.untraced
  | failed s => failed s.untraced
  | exhausted => exhausted

theorem State.untraced_enter (s : State) (name : RuleName) :
    (s.enter name).untraced = s.untraced := by
  simp [State.untraced]

theorem State.untraced_leave (s : State) (name : RuleName) :
    (s.leave name).untraced = s.untraced := by
  simp [State.untraced]

/-- What a rule does has nothing to do with the trace. -/
theorem Rule.run_untraced {α : Type} (r : Rule α) (s : State) :
    r s.untraced = (r s).untraced := by
  induction r generalizing s with
  | pure a => rfl
  | current => rfl
  | peek => rfl
  | advance => rfl
  | fail f => rfl
  | exhausted => rfl
  | bind r f ihr ihf =>
      rw [run, run, ihr s]
      cases r s with
      | found a s₁ => exact ihf a s₁
      | failed s₁ => rfl
      | exhausted => rfl
  | attempt r ih =>
      rw [run, run, ih s]
      cases r s <;> rfl
  | traced name r ih =>
      have hinner := ih (s.enter name)
      rw [State.untraced_enter] at hinner
      rw [run, run, show s.untraced.enter name = s.untraced from rfl, hinner]
      cases r (s.enter name) with
      | found a s₁ => exact congrArg (found a) (s₁.untraced_leave name).symm
      | failed s₁ => exact congrArg failed (s₁.untraced_leave name).symm
      | exhausted => rfl
  | silent r ih => exact ih s

/-- A stream is read as the same program and with the same faults, traced or not. -/
theorem parse_untraced (input : Token.Stream) (tracing : Bool) :
    (parse input tracing).program = (parse input false).program ∧
      (parse input tracing).faults = (parse input false).faults := by
  obtain ⟨p, s, hfound, hparse⟩ := parse_eq input tracing
  obtain ⟨q, t, hfound', hparse'⟩ := parse_eq input false
  have hsame := (program (boundFor input)).run_untraced (.ofStream tracing input)
  rw [hfound] at hsame
  have hboth : Outcome.found q t = .found p s.untraced := hfound'.symm.trans hsame
  cases hboth
  rw [hparse, hparse']
  exact ⟨rfl, rfl⟩

end Untraced

section Calls

/-- Calls of rules one after the other: the name of the first one, the tokens at which it begins and
ends, the calls inside it, and the calls after it. -/
inductive Calls where
  | none
  | call (name : RuleName) (first last : Token) (inner rest : Calls)
  deriving DecidableEq, Repr

namespace Calls

def append : Calls → Calls → Calls
  | none, more => more
  | call name first last inner rest, more => call name first last inner (rest.append more)

@[simp] theorem append_none (c : Calls) : c.append none = c := by
  induction c with
  | none => rfl
  | call name first last inner rest _ ih => rw [append, ih]

/-- The notes of calls with `d` rules around them. -/
def notes (d : Nat) : Calls → List TraceNote
  | none => []
  | call name first last inner rest =>
    ⟨true, d, name, first⟩ :: (inner.notes (d + 1) ++ ⟨false, d, name, last⟩ :: rest.notes d)

theorem notes_append (d : Nat) (c c' : Calls) :
    (c.append c').notes d = c.notes d ++ c'.notes d := by
  induction c with
  | none => rfl
  | call name first last inner rest _ ih => simp [append, notes, ih]

end Calls

/-- The token at which a rule has ended, unless it was cut off. -/
def Outcome.last? {α : Type} : Outcome α → Option Token
  | found _ s => some s.input.current
  | failed s => some s.input.current
  | exhausted => none

theorem Outcome.last?_untraced {α : Type} (o : Outcome α) : o.untraced.last? = o.last? := by
  cases o <;> rfl

namespace Rule

/-- The calls that a rule makes on the way, of the rules that appear in a trace. -/
def calls : {α : Type} → Rule α → State → Calls
  | _, .bind r f, s =>
    (r.calls s).append (match r s with
      | .found a s' => (f a).calls s'
      | _ => .none)
  | _, attempt r, s => r.calls s
  | _, traced name r, s =>
    match (r s).last? with
    | some last => .call name s.input.current last (r.calls s) .none
    | none => .none
  | _, silent r, s => r.calls s
  | _, _, _ => .none

theorem calls_untraced {α : Type} (r : Rule α) (s : State) : r.calls s.untraced = r.calls s := by
  induction r generalizing s with
  | pure a => rfl
  | current => rfl
  | peek => rfl
  | advance => rfl
  | fail f => rfl
  | exhausted => rfl
  | bind r f ihr ihf =>
      rw [calls, calls, ihr s, run_untraced]
      cases r s with
      | found a s₁ => exact congrArg (Calls.append _) (ihf a s₁)
      | failed s₁ => rfl
      | exhausted => rfl
  | attempt r ih => exact ih s
  | traced name r ih =>
      rw [calls, calls, ih s, run_untraced, last?_untraced]
      rfl
  | silent r ih => exact ih s

theorem last?_enter {α : Type} (r : Rule α) (s : State) (name : RuleName) :
    (r (s.enter name)).last? = (r s).last? := by
  rw [← last?_untraced, ← run_untraced, State.untraced_enter, run_untraced, last?_untraced]

theorem calls_enter {α : Type} (r : Rule α) (s : State) (name : RuleName) :
    r.calls (s.enter name) = r.calls s := by
  rw [← calls_untraced, State.untraced_enter, calls_untraced]

end Rule

/-- The second state has the trace of the first, and after it the notes of the given calls if
tracing is switched on. The depth is the same as before. -/
structure State.Notes (s : State) (c : Calls) (s' : State) : Prop where
  tracing : s'.tracing = s.tracing
  depth : s'.depth = s.depth
  notes : s'.notes = (if s.tracing then (c.notes s.depth).reverse else []) ++ s.notes

namespace State.Notes

variable {s s₁ s₂ : State} {c c' : Calls}

theorem refl (s : State) : s.Notes .none s := by
  constructor
  · rfl
  · rfl
  · simp [Calls.notes]

theorem trans (h : s.Notes c s₁) (h' : s₁.Notes c' s₂) : s.Notes (c.append c') s₂ := by
  constructor
  · rw [h'.tracing, h.tracing]
  · rw [h'.depth, h.depth]
  · rw [h'.notes, h.notes, h.tracing, h.depth, Calls.notes_append]
    cases s.tracing <;> simp

/-- The notes of a call go around those of the calls inside it. -/
theorem leave {name : RuleName} (h : (s.enter name).Notes c s₁) :
    s.Notes (.call name s.input.current s₁.input.current c .none) (s₁.leave name) := by
  obtain ⟨htracing, hdepth, hnotes⟩ := h
  cases hon : s.tracing with
  | false =>
      simp only [State.enter, hon, Bool.false_eq_true, if_false, List.nil_append]
        at htracing hdepth hnotes
      constructor <;> simp [State.leave, htracing, hdepth, hnotes, hon]
  | true =>
      simp only [State.enter, hon, if_true] at htracing hdepth hnotes
      constructor <;> simp [State.leave, htracing, hdepth, hnotes, hon, Calls.notes]

end State.Notes

/-- However a rule ends, what it notes are the calls that it makes. -/
theorem Rule.run_notes {α : Type} (r : Rule α) (s : State) :
    (r s).Satisfies (fun _ s' => s.Notes (r.calls s) s') (fun s' => s.Notes (r.calls s) s')
      True := by
  induction r generalizing s with
  | pure a => exact .refl s
  | current => exact .refl s
  | peek => exact .refl s
  | advance => exact ⟨rfl, rfl, by simp [calls, Calls.notes, State.advance]⟩
  | fail f => exact ⟨rfl, rfl, by simp [calls, Calls.notes, State.report]⟩
  | exhausted => trivial
  | bind r f ihr ihf =>
      have hfirst := ihr s
      rw [run, calls]
      cases h : r s with
      | found a s₁ =>
          rw [h] at hfirst
          exact (ihf a s₁).mono (fun _ _ hrest => hfirst.trans hrest)
            (fun _ hrest => hfirst.trans hrest) id
      | failed s₁ =>
          rw [h] at hfirst
          rwa [Calls.append_none]
      | exhausted => trivial
  | attempt r ih =>
      rw [satisfies_attempt]
      exact ih s
  | traced name r ih =>
      have hinner := ih (s.enter name)
      have hlast := r.last?_enter s name
      rw [r.calls_enter] at hinner
      rw [run, calls, ← hlast]
      cases h : r (s.enter name) with
      | found a s₁ =>
          rw [h] at hinner
          exact hinner.leave
      | failed s₁ =>
          rw [h] at hinner
          exact hinner.leave
      | exhausted => trivial
  | silent r ih => exact ih s

/-- The trace of a stream are the notes of the calls that reading it makes, also without tracing. At
its end the depth is zero again. -/
theorem parse_notes (input : Token.Stream) (tracing : Bool) :
    (∃ p s, program (boundFor input) (.ofStream tracing input) = .found p s ∧ s.depth = 0) ∧
      (parse input tracing).trace = if tracing then
        ((program (boundFor input)).calls (.ofStream false input)).notes 0 else [] := by
  obtain ⟨p, s, hfound, hparse⟩ := parse_eq input tracing
  have hnotes := ((program (boundFor input)).run_notes (.ofStream tracing input)).of_found hfound
  refine ⟨⟨p, s, hfound, hnotes.depth⟩, ?_⟩
  have hcalls : (program (boundFor input)).calls (.ofStream tracing input) =
      (program (boundFor input)).calls (.ofStream false input) :=
    (calls_untraced _ (.ofStream tracing input)).symm
  rw [hparse, hnotes.notes, hcalls]
  cases tracing <;> simp [State.ofStream]

end Calls

section Brackets

/-- The notes of rules one after the other, with `d` rules around them: the note of the beginning of
a rule, those of the rules inside it, and the note of its end. -/
inductive Bracketed : Nat → List TraceNote → Prop where
  | nil (d : Nat) : Bracketed d []
  | rule {d : Nat} {inner rest : List TraceNote} (name : RuleName) (first last : Token)
      (hinner : Bracketed (d + 1) inner) (hrest : Bracketed d rest) :
      Bracketed d (⟨true, d, name, first⟩ :: (inner ++ ⟨false, d, name, last⟩ :: rest))

theorem Calls.bracketed (c : Calls) (d : Nat) : Bracketed d (c.notes d) := by
  induction c generalizing d with
  | none => exact .nil d
  | call name first last inner rest ihinner ihrest =>
      exact .rule name first last (ihinner (d + 1)) (ihrest d)

end Brackets

section Levels

/-- The level after some notes: it goes up where a rule begins and down where one ends. -/
def levelAfter : Int → List TraceNote → Int
  | level, [] => level
  | level, n :: ns => levelAfter (if n.begins then level + 1 else level - 1) ns

/-- Every note is one step less deep than its level, which is that after a rule has begun and before
it has ended. -/
def Indented : Int → List TraceNote → Prop
  | _, [] => True
  | level, n :: ns =>
    (n.depth : Int) = (if n.begins then level + 1 else level) - 1 ∧
      Indented (if n.begins then level + 1 else level - 1) ns

theorem levelAfter_append (level : Int) (ns ms : List TraceNote) :
    levelAfter level (ns ++ ms) = levelAfter (levelAfter level ns) ms := by
  induction ns generalizing level with
  | nil => rfl
  | cons n ns ih => exact ih _

theorem indented_append {level : Int} {ns ms : List TraceNote} :
    Indented level (ns ++ ms) ↔ Indented level ns ∧ Indented (levelAfter level ns) ms := by
  induction ns generalizing level with
  | nil => exact ⟨fun h => ⟨trivial, h⟩, And.right⟩
  | cons n ns ih =>
      rw [List.cons_append, Indented, Indented, ih, and_assoc]
      rfl

/-- Well bracketed notes leave the level as it was, and it is never below zero at any of them. -/
theorem Bracketed.indented {d : Nat} {ns : List TraceNote} (h : Bracketed d ns) :
    Indented d ns ∧ levelAfter d ns = d := by
  induction h with
  | nil d => exact ⟨trivial, rfl⟩
  | @rule d inner rest name first last _ _ ihinner ihrest =>
      have hback : ((d + 1 : Nat) : Int) - 1 = d := by omega
      obtain ⟨hinner, hinside⟩ := ihinner
      obtain ⟨hrest, hafter⟩ := ihrest
      have hend :
          levelAfter ((d + 1 : Nat) : Int) (inner ++ ⟨false, d, name, last⟩ :: rest) = d := by
        rw [levelAfter_append, hinside]
        change levelAfter (((d + 1 : Nat) : Int) - 1) rest = d
        rw [hback, hafter]
      have hindented :
          Indented ((d + 1 : Nat) : Int) (inner ++ ⟨false, d, name, last⟩ :: rest) := by
        rw [indented_append, hinside]
        refine ⟨hinner, hback.symm, ?_⟩
        change Indented (((d + 1 : Nat) : Int) - 1) rest
        rwa [hback]
      exact ⟨⟨hback.symm, hindented⟩, hend⟩

end Levels

end Monkey.Grammar

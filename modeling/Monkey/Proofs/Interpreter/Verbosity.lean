import Monkey.Proofs.Grammar.Tracing
import Monkey.Proofs.Interpreter.Transparency

/-!
# Verbosity does not show

An interpreter of the highest verbosity traces what it reads. The trace goes to the journal, one
line for each note, and the lines are as well bracketed as the notes are. Nothing else depends on
it: whatever the verbosity, an interpreter gives the same answers and has the same heap after each
of them.
-/

namespace Monkey

namespace Grammar

/-- Lines of a trace with `d` rules around them: the line where a rule begins, those of the rules
inside it, and the line where it ends, which has the same name and is indented as far. -/
inductive BracketedLines : Nat → List Bytes → Prop where
  | nil (d : Nat) : BracketedLines d []
  | rule {d : Nat} {inner rest : List Bytes} (name : RuleName)
      (hinner : BracketedLines (d + 1) inner) (hrest : BracketedLines d rest) :
      BracketedLines d ((List.replicate d 0x09 ++ utf8 "BEGIN " ++ utf8 name.text) ::
        (inner ++ (List.replicate d 0x09 ++ utf8 "END " ++ utf8 name.text) :: rest))

/-- The lines of a trace. -/
def traceLines (trace : List TraceNote) : List Bytes := trace.map fun n => n.record.message

theorem Bracketed.lines {d : Nat} {ns : List TraceNote} (h : Bracketed d ns) :
    BracketedLines d (traceLines ns) := by
  induction h with
  | nil d => exact .nil d
  | rule name first last _ _ ihinner ihrest =>
      rw [traceLines, List.map_cons, List.map_append, List.map_cons]
      exact .rule name ihinner ihrest

end Grammar

namespace Interpreter

/-- The interpreters differ in nothing but in whether they trace and in their journals. -/
structure SameWork (i j : Interpreter) : Prop where
  heap : j.heap = i.heap
  cache : j.cache = i.cache
  bound : j.bound = i.bound

variable {i j : Interpreter}

theorem SameWork.parse (h : SameWork i j) (source : Bytes) :
    (j.parse source).1 = (i.parse source).1 ∧ SameWork (i.parse source).2 (j.parse source).2 := by
  have hread : ∀ tracing, (Grammar.parseSource source tracing).program =
        (Grammar.parseSource source false).program ∧
      (Grammar.parseSource source tracing).faults = (Grammar.parseSource source false).faults :=
    Grammar.parse_untraced (.ofSource source)
  obtain ⟨hprogram, hfaults⟩ := hread i.tracing
  obtain ⟨hprogram', hfaults'⟩ := hread j.tracing
  unfold Interpreter.parse
  rw [h.cache]
  cases i.cache.find? source with
  | some found => exact ⟨rfl, h.heap, rfl, h.bound⟩
  | none =>
      obtain ⟨_, hi⟩ := foldl_note Grammar.TraceNote.record
        (Grammar.parseSource source i.tracing).trace i
      obtain ⟨_, hj⟩ := foldl_note Grammar.TraceNote.record
        (Grammar.parseSource source j.tracing).trace j
      simp only [hi, hj, hprogram, hfaults, hprogram', hfaults']
      split
      · exact ⟨rfl, h.heap, by rw [h.cache], h.bound⟩
      · exact ⟨rfl, h.heap, h.cache, h.bound⟩

theorem SameWork.run (h : SameWork i j) (p : Program) :
    SameAnswer SameWork (i.run p) (j.run p) := by
  unfold Interpreter.run
  rw [h.heap, h.bound]
  cases Evaluation.eval i.bound globalScope (.program p) ⟨i.heap, []⟩ with
  | done r s =>
      dsimp only
      split <;> exact .some ⟨rfl, rfl, h.cache, rfl⟩
  | stuck => exact .none
  | exhausted => exact .none

theorem indistinct_sameWork : Indistinct SameWork := ⟨fun h => h.heap, SameWork.parse, SameWork.run⟩

/-- Tracing changes nothing and is balanced. A stream is read as the same program and with the same
faults as without it. The trace says which rules call each other when the stream is read: each call
has its two notes, and there are no others. The lines of the trace are well bracketed, none of them
is indented by less than nothing, and the level is zero at the end. So nothing that can be seen of
an interpreter depends on its verbosity. -/
theorem tracing_balanced (input : Token.Stream) :
    let traced := Grammar.parse input true
    let plain := Grammar.parse input false
    traced.program = plain.program ∧ traced.faults = plain.faults ∧ plain.trace = [] ∧
      traced.trace = ((Grammar.program (Grammar.boundFor input)).calls
        (.ofStream false input)).notes 0 ∧
      Grammar.Bracketed 0 traced.trace ∧
      Grammar.BracketedLines 0 (Grammar.traceLines traced.trace) ∧
      Grammar.Indented 0 traced.trace ∧ Grammar.levelAfter 0 traced.trace = 0 ∧
      (∃ p s, Grammar.program (Grammar.boundFor input) (.ofStream true input) = .found p s ∧
        s.depth = 0) ∧
      ∀ (settings : Settings) (verbosity : Bytes) (bound : Nat) (requests : List Request),
        (fresh { settings with verbosity } bound).transcript requests =
          (fresh settings bound).transcript requests := by
  obtain ⟨hprogram, hfaults⟩ := Grammar.parse_untraced input true
  obtain ⟨hdepth, htrace⟩ := Grammar.parse_notes input true
  obtain ⟨-, hplain⟩ := Grammar.parse_notes input false
  have hbracketed : Grammar.Bracketed 0 (Grammar.parse input true).trace := by
    rw [htrace]
    exact Grammar.Calls.bracketed _ 0
  obtain ⟨hindented, hlevel⟩ := hbracketed.indented
  refine ⟨hprogram, hfaults, hplain, htrace, hbracketed, hbracketed.lines, hindented, hlevel,
    hdepth, ?_⟩
  intro settings verbosity bound requests
  have hsame : SameWork (fresh settings bound) (fresh { settings with verbosity } bound) :=
    ⟨rfl, rfl, rfl⟩
  exact indistinct_sameWork.transcript_eq hsame requests

end Interpreter

end Monkey

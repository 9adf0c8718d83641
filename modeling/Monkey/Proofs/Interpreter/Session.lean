import Mathlib.Tactic.Common
import Monkey.Interpreter.Basic

/-!
# Sessions

What an interpreter comes to when it evaluates one source after the other. The cache holds nothing
but programs that reading their sources would give again, so that a source that is evaluated is
always evaluated as the program that is read from it, and `eval_cases` says what one evaluation
does in terms of `Evaluation.eval` alone.
-/

namespace Monkey.Interpreter

/-- The source is read as the program, without a fault. -/
def ReadsAs (tracing : Bool) (source : Bytes) (p : Program) : Prop :=
  (Grammar.parseSource source tracing).faults = [] ∧
    (Grammar.parseSource source tracing).program = p

/-- The cache holds what is read from the sources. -/
def CacheSound (i : Interpreter) : Prop :=
  ∀ entry ∈ i.cache.entries, ReadsAs i.tracing entry.1 entry.2

/-- The interpreters differ at most in their caches and journals. -/
structure SameHeap (i i' : Interpreter) : Prop where
  heap : i'.heap = i.heap
  tracing : i'.tracing = i.tracing
  bound : i'.bound = i.bound

theorem foldl_note {α : Type} (record : α → Journal.Record) (notes : List α) (i : Interpreter) :
    ∃ journal, notes.foldl (fun i n => i.note (record n)) i = { i with journal } := by
  induction notes generalizing i with
  | nil => exact ⟨i.journal, rfl⟩
  | cons n notes ih =>
      obtain ⟨journal, hjournal⟩ := ih (i.note (record n))
      exact ⟨journal, hjournal⟩

theorem mem_without {c : ProgramCache} {source : Bytes} {entry : Bytes × Program}
    (h : entry ∈ c.without source) : entry ∈ c.entries := (List.mem_filter.mp h).1

/-- Reading a source keeps the heap, and gives what is read from it even if that is taken from the
cache. -/
theorem parse_cases {i : Interpreter} (hcache : i.CacheSound) (source : Bytes) :
    SameHeap i (i.parse source).2 ∧ (i.parse source).2.CacheSound ∧
      ∀ p, (i.parse source).1 = .ok p → ReadsAs i.tracing source p := by
  unfold parse
  split
  · next program cache hfind =>
      rw [ProgramCache.find?, Option.map_eq_some_iff] at hfind
      obtain ⟨found, hlookup, hfound⟩ := hfind
      cases hfound
      obtain ⟨before, after, hentries, -⟩ := List.lookup_eq_some_iff.mp hlookup
      have hreads : ReadsAs i.tracing source program :=
        hcache (source, program) (by simp [hentries])
      refine ⟨⟨rfl, rfl, rfl⟩, ?_, ?_⟩
      · intro entry hentry
        rcases List.mem_cons.mp hentry with rfl | hentry
        · exact hreads
        · exact hcache entry (mem_without hentry)
      · rintro p ⟨⟩
        exact hreads
  · obtain ⟨journal, hjournal⟩ :=
      foldl_note Grammar.TraceNote.record (Grammar.parseSource source i.tracing).trace i
    simp only [hjournal]
    split
    · next hfaults =>
        have hreads : ReadsAs i.tracing source (Grammar.parseSource source i.tracing).program :=
          ⟨List.isEmpty_iff.mp hfaults, rfl⟩
        refine ⟨⟨rfl, rfl, rfl⟩, ?_, ?_⟩
        · intro entry hentry
          rcases List.mem_cons.mp (List.mem_of_mem_take hentry) with rfl | hentry
          · exact hreads
          · exact hcache entry (mem_without hentry)
        · rintro p ⟨⟩
          exact hreads
    · refine ⟨⟨rfl, rfl, rfl⟩, hcache, ?_⟩
      rintro p ⟨⟩

/-- What running a program changes. -/
theorem run_eq_some {i i' : Interpreter} {p : Program} {r : Option Value}
    (h : i.run p = some (r, i')) :
    ∃ s, Evaluation.eval i.bound globalScope (.program p) ⟨i.heap, []⟩ = .done r s ∧
      i'.heap = s.heap ∧ i'.cache = i.cache ∧ i'.tracing = i.tracing ∧ i'.bound = i.bound := by
  unfold run at h
  split at h
  · next r' s heval =>
      split at h <;> cases h <;> exact ⟨s, heval, rfl, rfl, rfl, rfl⟩
  · cases h
  · cases h

theorem run_of_done {i : Interpreter} {p : Program} {r : Option Value} {s : Evaluation.State}
    (h : Evaluation.eval i.bound globalScope (.program p) ⟨i.heap, []⟩ = .done r s) :
    ∃ i', i.run p = some (r, i') ∧ i'.heap = s.heap := by
  rw [run, h]
  dsimp only
  split
  · refine ⟨_, rfl, ?_⟩
    rfl
  · refine ⟨_, rfl, ?_⟩
    rfl

/-- What evaluating a source changes. -/
theorem eval_cases {i i' : Interpreter} {source : Bytes}
    {answer : Except (List Grammar.Fault) (Option Value)} (hcache : i.CacheSound)
    (h : i.eval source = some (answer, i')) :
    i'.tracing = i.tracing ∧ i'.CacheSound ∧
      ((∃ faults, answer = .error faults ∧ i'.heap = i.heap) ∨
        ∃ p r s, answer = .ok r ∧ ReadsAs i.tracing source p ∧
          Evaluation.eval i.bound globalScope (.program p) ⟨i.heap, []⟩ = .done r s ∧
          i'.heap = s.heap) := by
  obtain ⟨hsame, hcache₁, hreads⟩ := parse_cases hcache source
  unfold eval at h
  split at h
  · next faults i₁ hparse =>
      cases h
      rw [hparse] at hsame hcache₁
      exact ⟨hsame.tracing, hcache₁, .inl ⟨faults, rfl, hsame.heap⟩⟩
  · next p i₁ hparse =>
      rw [hparse] at hsame hcache₁ hreads
      split at h
      · next r i₂ hrun =>
          cases h
          obtain ⟨s, heval, hheap, hcache₂, htracing, -⟩ := run_eq_some hrun
          rw [hsame.bound, hsame.heap] at heval
          refine ⟨htracing.trans hsame.tracing, ?_, .inr ⟨p, r, s, rfl, hreads p rfl, heval, hheap⟩⟩
          rw [CacheSound, hcache₂, htracing]
          exact hcache₁
      · cases h

/-- The value that an evaluation gives, if it gives one. -/
def answerValues : Except (List Grammar.Fault) (Option Value) → List Value
  | .ok (some v) => [v]
  | _ => []

/-- From the first interpreter the evaluation of sources leads to another one. The sources and the
values of the evaluations are listed with the newest first. -/
inductive Session (first : Interpreter) : Interpreter → List Bytes → List Value → Prop where
  | start : Session first first [] []
  | eval {i i' : Interpreter} {sources : List Bytes} {values : List Value} {source : Bytes}
      {answer : Except (List Grammar.Fault) (Option Value)}
      (before : Session first i sources values) (h : i.eval source = some (answer, i')) :
      Session first i' (source :: sources) (answerValues answer ++ values)

/-- An interpreter that has evaluated nothing yet. -/
def fresh (settings : Settings) (bound : Nat) : Interpreter :=
  { ofSettings settings with bound }

theorem cacheSound_fresh (settings : Settings) (bound : Nat) : (fresh settings bound).CacheSound :=
  fun _ hentry => absurd hentry (by simp [fresh, ofSettings, ProgramCache.ofSize])

/-- The program is that of one of the sources. -/
def Evaluated (tracing : Bool) (sources : List Bytes) (p : Program) : Prop :=
  ∃ source ∈ sources, ReadsAs tracing source p

end Monkey.Interpreter

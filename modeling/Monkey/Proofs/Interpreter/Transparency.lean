import Monkey.Proofs.Interpreter.Session

/-!
# The cache does not show

An interpreter is asked to read or to evaluate one source after the other. Whatever the size of its
cache, it gives the same answers, and after each of them its heap, and with that its global
bindings, are the same as if it had no cache at all.

The reason is that a cache holds only what reading the sources would give again, and that no
evaluation looks at it. Two interpreters that differ in nothing but sound caches and journals are
`Alike`; one request keeps them so, and therefore any number of requests does. That step is the same
for any relation between interpreters that reading and running respect, which is then `Indistinct`.
-/

namespace Monkey.Interpreter

/-- What reading a source gives where nothing is kept. -/
def reading (tracing : Bool) (source : Bytes) : Except (List Grammar.Fault) Program :=
  let parsed := Grammar.parseSource source tracing
  if parsed.faults.isEmpty then .ok parsed.program else .error parsed.faults

theorem ReadsAs.reading_eq {tracing : Bool} {source : Bytes} {p : Program}
    (h : ReadsAs tracing source p) : reading tracing source = .ok p := by
  simp [reading, h.1, h.2]

/-- The answer is the same whether or not it is taken from the cache. -/
theorem parse_eq_reading {i : Interpreter} (hcache : i.CacheSound) (source : Bytes) :
    (i.parse source).1 = reading i.tracing source := by
  have hreads := (parse_cases hcache source).2.2
  cases hanswer : (i.parse source).1 with
  | ok p => exact (hreads p hanswer).reading_eq.symm
  | error faults =>
      unfold parse at hanswer
      split at hanswer
      · cases hanswer
      · dsimp only at hanswer
        split at hanswer
        · cases hanswer
        · next hfaults =>
            cases hanswer
            simp [reading, hfaults]

/-- A source with faults is read and not evaluated. -/
theorem eval_of_faults {i : Interpreter} (hcache : i.CacheSound) {source : Bytes}
    (hfaults : (Grammar.parseSource source i.tracing).faults ≠ []) :
    i.eval source =
      some (.error (Grammar.parseSource source i.tracing).faults, (i.parse source).2) := by
  have hanswer := parse_eq_reading hcache source
  simp only [reading, List.isEmpty_iff, hfaults, if_false] at hanswer
  rw [eval]
  generalize i.parse source = parsed at hanswer ⊢
  obtain ⟨answer, i'⟩ := parsed
  cases hanswer
  rfl

/-- A source without faults is evaluated as the program that is read from it. -/
theorem eval_of_readsAs {i : Interpreter} (hcache : i.CacheSound) {source : Bytes} {p : Program}
    (hreads : ReadsAs i.tracing source p) {r : Option Value} {s : Evaluation.State}
    (hrun : Evaluation.eval i.bound globalScope (.program p) ⟨i.heap, []⟩ = .done r s) :
    ∃ i', i.eval source = some (.ok r, i') ∧ i'.heap = s.heap := by
  have hanswer := (parse_eq_reading hcache source).trans hreads.reading_eq
  obtain ⟨hsame, -, -⟩ := parse_cases hcache source
  rw [eval]
  generalize i.parse source = parsed at hanswer hsame ⊢
  obtain ⟨answer, i₁⟩ := parsed
  cases hanswer
  dsimp only
  rw [← hsame.bound, ← hsame.heap] at hrun
  obtain ⟨i₂, hrun', hheap⟩ := run_of_done hrun
  exact ⟨i₂, by rw [hrun'], hheap⟩

/-- What an interpreter can be asked for. -/
inductive Request where
  | parse (source : Bytes)
  | eval (source : Bytes)

inductive Answer where
  | read (answer : Except (List Grammar.Fault) Program)
  | evaluated (answer : Except (List Grammar.Fault) (Option Value))

/-- The answer to a request and the interpreter after it, or nothing where an evaluation does not
come to an end. -/
def serve (i : Interpreter) : Request → Option (Answer × Interpreter)
  | .parse source => some (.read (i.parse source).1, (i.parse source).2)
  | .eval source => (i.eval source).map fun (answer, i) => (.evaluated answer, i)

/-- The interpreters that there can be: one that has done nothing, one that was asked for something,
and one in whose scopes something was bound from outside. -/
inductive Made : Interpreter → Prop where
  | fresh (settings : Settings) (bound : Nat) : Made (fresh settings bound)
  | serve {i i' : Interpreter} {request : Request} {answer : Answer} (before : Made i)
      (h : i.serve request = some (answer, i')) : Made i'
  | define {i : Interpreter} (before : Made i) (heap : Heap) : Made { i with heap }

theorem Made.cacheSound {i : Interpreter} (h : i.Made) : i.CacheSound := by
  induction h with
  | fresh settings bound => exact cacheSound_fresh settings bound
  | @serve i i' request answer before h ih =>
      cases request with
      | parse source =>
          cases h
          exact (parse_cases ih source).2.1
      | eval source =>
          obtain ⟨found, heval, hfound⟩ := Option.map_eq_some_iff.mp h
          cases hfound
          exact (eval_cases ih heval).2.1
  | define before heap ih => exact ih

/-- What can be seen after a request: the answer, the global bindings, and all scopes that the
functions among these refer to. -/
structure Observation where
  answer : Answer
  bindings : Bindings
  heap : Heap

/-- What can be seen of a sequence of requests, up to the first that does not come to an end. -/
def transcript (i : Interpreter) : List Request → List (Option Observation)
  | [] => []
  | request :: rest =>
    match i.serve request with
    | some (answer, i) => some ⟨answer, i.bindings, i.heap⟩ :: i.transcript rest
    | none => [none]

/-- Two interpreters give the same answer, and are related after it, or give none. -/
def SameAnswer (R : Interpreter → Interpreter → Prop) {α : Type} :
    Option (α × Interpreter) → Option (α × Interpreter) → Prop :=
  Option.Rel fun a b => b.1 = a.1 ∧ R a.2 b.2

/-- Related interpreters have the same heap, and reading a source or running a program keeps them
related and gives the same. -/
structure Indistinct (R : Interpreter → Interpreter → Prop) : Prop where
  heap : ∀ {i j}, R i j → j.heap = i.heap
  parse : ∀ {i j}, R i j → ∀ source,
    (j.parse source).1 = (i.parse source).1 ∧ R (i.parse source).2 (j.parse source).2
  run : ∀ {i j}, R i j → ∀ p, SameAnswer R (i.run p) (j.run p)

namespace Indistinct

variable {R : Interpreter → Interpreter → Prop} {i j : Interpreter}

theorem eval (hR : Indistinct R) (h : R i j) (source : Bytes) :
    SameAnswer R (i.eval source) (j.eval source) := by
  obtain ⟨hanswer, hparsed⟩ := hR.parse h source
  unfold Interpreter.eval
  cases hi : i.parse source with
  | mk answer i₁ =>
      cases hj : j.parse source with
      | mk answer' j₁ =>
          rw [hi, hj] at hanswer hparsed
          dsimp only at hanswer hparsed
          subst hanswer
          cases answer' with
          | error faults => exact .some ⟨rfl, hparsed⟩
          | ok p =>
              have hrun := hR.run hparsed p
              dsimp only
              generalize i₁.run p = a at hrun ⊢
              generalize j₁.run p = b at hrun ⊢
              cases hrun with
              | none => exact .none
              | some hab => exact .some ⟨congrArg Except.ok hab.1, hab.2⟩

theorem serve (hR : Indistinct R) (h : R i j) (request : Request) :
    SameAnswer R (i.serve request) (j.serve request) := by
  cases request with
  | parse source =>
      obtain ⟨hanswer, hparsed⟩ := hR.parse h source
      exact .some ⟨congrArg Answer.read hanswer, hparsed⟩
  | eval source =>
      have heval := hR.eval h source
      simp only [Interpreter.serve]
      generalize i.eval source = a at heval ⊢
      generalize j.eval source = b at heval ⊢
      cases heval with
      | none => exact .none
      | some hab => exact .some ⟨congrArg Answer.evaluated hab.1, hab.2⟩

/-- Related interpreters cannot be told apart by any sequence of requests. -/
theorem transcript_eq (hR : Indistinct R) (h : R i j) (requests : List Request) :
    j.transcript requests = i.transcript requests := by
  induction requests generalizing i j with
  | nil => rfl
  | cons request rest ih =>
      have hserve := hR.serve h request
      unfold transcript
      generalize i.serve request = a at hserve ⊢
      generalize j.serve request = b at hserve ⊢
      cases hserve with
      | none => rfl
      | some hab =>
          obtain ⟨hanswer, hserved⟩ := hab
          dsimp only
          rw [hanswer, bindings, bindings, hR.heap hserved, ih hserved]

end Indistinct

/-- The interpreters differ in nothing but sound caches and journals. -/
structure Alike (i j : Interpreter) : Prop extends SameHeap i j where
  sound : i.CacheSound
  sound' : j.CacheSound

variable {i j : Interpreter}

theorem Alike.parse (h : Alike i j) (source : Bytes) :
    (j.parse source).1 = (i.parse source).1 ∧ Alike (i.parse source).2 (j.parse source).2 := by
  obtain ⟨hi, hsound, -⟩ := parse_cases h.sound source
  obtain ⟨hj, hsound', -⟩ := parse_cases h.sound' source
  constructor
  · rw [parse_eq_reading h.sound, parse_eq_reading h.sound', h.tracing]
  · exact {
      heap := hj.heap.trans (h.heap.trans hi.heap.symm)
      tracing := hj.tracing.trans (h.tracing.trans hi.tracing.symm)
      bound := hj.bound.trans (h.bound.trans hi.bound.symm)
      sound := hsound
      sound' := hsound' }

theorem Alike.run (h : Alike i j) (p : Program) : SameAnswer Alike (i.run p) (j.run p) := by
  unfold Interpreter.run
  rw [h.heap, h.bound]
  cases Evaluation.eval i.bound globalScope (.program p) ⟨i.heap, []⟩ with
  | done r s =>
      dsimp only
      split <;> exact .some ⟨rfl, ⟨rfl, h.tracing, rfl⟩, h.sound, h.sound'⟩
  | stuck => exact .none
  | exhausted => exact .none

theorem indistinct_alike : Indistinct Alike := ⟨fun h => h.heap, Alike.parse, Alike.run⟩

theorem Alike.eval (h : Alike i j) (source : Bytes) :
    SameAnswer Alike (i.eval source) (j.eval source) :=
  indistinct_alike.eval h source

theorem Alike.transcript_eq (h : Alike i j) (requests : List Request) :
    j.transcript requests = i.transcript requests :=
  indistinct_alike.transcript_eq h requests

/-- Nothing that can be seen of an interpreter depends on the size of its cache. -/
theorem transcript_parseCache (settings : Settings) (bound : Nat) (size : Int)
    (requests : List Request) :
    (fresh { settings with parseCache := size } bound).transcript requests =
      (fresh { settings with parseCache := 0 } bound).transcript requests := by
  have halike : Alike (fresh { settings with parseCache := 0 } bound)
      (fresh { settings with parseCache := size } bound) :=
    ⟨⟨rfl, rfl, rfl⟩, cacheSound_fresh _ bound, cacheSound_fresh _ bound⟩
  exact halike.transcript_eq requests

end Monkey.Interpreter

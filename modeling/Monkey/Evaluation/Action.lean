import Monkey.Scope.Heap

/-!
# Actions

A step of evaluation reads and changes the heap and leaves a record of what it did. It is done
with a result, or it is stuck because a value was needed where there is none, or it is cut off
because evaluations are nested too deeply. Being stuck and being cut off are not errors of the
program that is run: those are values.

An action is written down as the steps that it takes, and `run` takes them. So it can also be said
which changes it makes to the heap on the way.
-/

namespace Monkey.Evaluation

/-- What can be observed of an evaluation: a node is about to be evaluated, which is a hole if it
has no kind, or a name is about to be bound to a value of some kind. -/
inductive Event where
  | visit (kind : Option Node.Kind)
  | bound (name : Bytes) (kind : Value.Kind)
  deriving DecidableEq, Repr

/-- The heap, and the events so far, newest first. -/
structure State where
  heap : Heap
  events : List Event

inductive Outcome (α : Type) where
  | done (a : α) (s : State)
  | stuck
  | exhausted

/-- The steps of an evaluation. -/
inductive Action : Type → Type 1 where
  /-- Gives a result. -/
  | protected pure {α : Type} (a : α) : Action α
  /-- One action, and then another one that depends on the result of the first. -/
  | protected bind {α β : Type} (x : Action α) (f : α → Action β) : Action β
  | stuck {α : Type} : Action α
  /-- The bound for the nesting has been met. -/
  | exhausted {α : Type} : Action α
  /-- What can be read off the state. -/
  | observe {α : Type} (f : State → α) : Action α
  | note (e : Event) : Action Unit
  | bindName (scope : ScopeId) (name : Bytes) (value : Value) : Action Unit
  /-- Makes a scope inside another one and binds the given names there. -/
  | enclose (outer : ScopeId) (pairs : List (Bytes × Value)) : Action ScopeId

namespace Action

variable {α β : Type}

/-- Takes the steps of an action. -/
def run : {α : Type} → Action α → State → Outcome α
  | _, .pure a, s => .done a s
  | _, .bind x f, s =>
    match x.run s with
    | .done a s => (f a).run s
    | .stuck => .stuck
    | .exhausted => .exhausted
  | _, stuck, _ => .stuck
  | _, exhausted, _ => .exhausted
  | _, observe f, s => .done (f s) s
  | _, note e, s => .done () { s with events := e :: s.events }
  | _, bindName scope name value, s =>
    .done () { s with heap := s.heap.bind scope name value }
  | _, enclose outer pairs, s =>
    .done s.heap.size
      { s with heap := (s.heap.alloc (some outer)).bindAll s.heap.size pairs }

instance : CoeFun (Action α) (fun _ => State → Outcome α) := ⟨run⟩

instance : Monad Action where
  pure := .pure
  bind := .bind

def lookup? (scope : ScopeId) (name : Bytes) : Action (Option Value) :=
  observe fun s => s.heap.lookup? scope name

section Bind

variable {x : Action α} {f : α → Action β} {s s' : State}

theorem bind_done {a : α} (h : x s = .done a s') : (x >>= f) s = f a s' := by
  change run (.bind x f) s = _
  rw [run, h]

theorem bind_stuck (h : x s = .stuck) : (x >>= f) s = .stuck := by
  change run (.bind x f) s = _
  rw [run, h]

theorem bind_exhausted (h : x s = .exhausted) : (x >>= f) s = .exhausted := by
  change run (.bind x f) s = _
  rw [run, h]

/-- What comes after an action depends on nothing but how that ends. -/
theorem bind_congr {y : Action α} (h : x s = y s') : (x >>= f) s = (y >>= f) s' := by
  change run (.bind x f) s = run (.bind y f) s'
  rw [run, run, h]

theorem bind_assoc {γ : Type} (g : β → Action γ) :
    ((x >>= f) >>= g) s = (x >>= fun a => f a >>= g) s := by
  cases hx : x s with
  | done a t =>
      rw [bind_done hx]
      exact bind_congr (bind_done hx)
  | stuck => rw [bind_stuck hx, bind_stuck (bind_stuck hx)]
  | exhausted => rw [bind_exhausted hx, bind_exhausted (bind_exhausted hx)]

theorem bind_eq_done {b : β} :
    (x >>= f) s = .done b s' ↔ ∃ a t, x s = .done a t ∧ f a t = .done b s' := by
  constructor
  · intro h
    cases hx : x s with
    | done a t => exact ⟨a, t, rfl, (bind_done hx).symm.trans h⟩
    | stuck => cases (bind_stuck hx).symm.trans h
    | exhausted => cases (bind_exhausted hx).symm.trans h
  · rintro ⟨a, t, hx, hf⟩
    exact (bind_done hx).trans hf

end Bind

end Action

end Monkey.Evaluation

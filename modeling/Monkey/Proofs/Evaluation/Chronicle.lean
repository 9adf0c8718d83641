import Mathlib.Logic.Relation
import Monkey.Grammar.Parse
import Monkey.Proofs.Evaluation.Repetition
import Monkey.Proofs.Scope.History

/-!
# Scopes and what has happened to them

Scopes are made, on their own or inside others, names are bound in them, and nodes are evaluated in
them, in any order. An evaluation makes further scopes and binds names in scopes that functions
share, and all of this goes into one history, in the order in which it happens. The history of an
evaluation is read off its steps. Every scope and every name can be told from the history alone
(`lookup_from_history`).
-/

namespace Monkey.Evaluation

open Monkey.Heap Monkey.History

/-- What follows a run, if it is done. -/
def Outcome.andThen {α β : Type} : Outcome α → (α → State → List β) → List β
  | .done a s, f => f a s
  | .stuck, _ => []
  | .exhausted, _ => []

namespace Action

variable {α : Type} {s s' : State} {history : History}

/-- The changes that an action makes to the heap, in order. To bind a name in a scope that there is
not changes nothing. -/
def changes : {α : Type} → Action α → State → History
  | _, .bind x f, s => x.changes s ++ (x s).andThen fun a t => (f a).changes t
  | _, bindName scope name value, s =>
    if scope < s.heap.size then [.bound scope name value] else []
  | _, enclose outer pairs, s =>
    .made (some outer) :: pairs.map fun pair => .bound s.heap.size pair.1 pair.2
  | _, .pure _, _ => []
  | _, stuck, _ => []
  | _, exhausted, _ => []
  | _, observe _, _ => []
  | _, note _, _ => []

/-- An action continues the history of the heap by its changes. -/
theorem records_run {a : α} (x : Action α) (hrec : Records history s.heap)
    (hrun : x s = .done a s') : Records (history ++ x.changes s) s'.heap := by
  induction x generalizing s s' history with
  | bind x f ihx ihf =>
      obtain ⟨b, t, hx, hf⟩ := bind_eq_done.mp hrun
      rw [changes, hx, Outcome.andThen, ← List.append_assoc]
      exact ihf b (ihx hrec hx) hf
  | bindName scope name value =>
      cases hrun
      rw [changes]
      by_cases hscope : scope < s.heap.size
      · rw [if_pos hscope]
        exact hrec.bind hscope name value
      · have hsame := Heap.bind_of_size_le name value (Nat.le_of_not_lt hscope)
        rw [if_neg hscope, List.append_nil, hsame]
        exact hrec
  | enclose outer pairs =>
      cases hrun
      have hnew : s.heap.size < (s.heap.alloc (some outer)).size := by simp
      have hrec' := (hrec.alloc (some outer)).bindAll hnew pairs
      rw [List.append_assoc] at hrec'
      exact hrec'
  | stuck => cases hrun
  | exhausted => cases hrun
  | _ =>
      cases hrun
      rw [changes, List.append_nil]
      exact hrec

end Action

/-- A heap, and what has happened to it. -/
structure World where
  heap : Heap
  history : History

namespace World

/-- A scope is made, a name is bound, or a node is evaluated to the end. Only what exists can be
named: scopes that have been made, and values whose functions belong to such scopes. -/
inductive Step (w : World) : World → Prop where
  | make : Step w ⟨w.heap.alloc none, w.history ++ [.made none]⟩
  | enclose {outer : ScopeId} (houter : outer < w.heap.size) :
      Step w ⟨w.heap.alloc (some outer), w.history ++ [.made (some outer)]⟩
  | set {scope : ScopeId} {name : Bytes} {v : Value} (hscope : scope < w.heap.size)
      (hv : v.Known w.heap.size) :
      Step w ⟨w.heap.bind scope name v, w.history ++ [.bound scope name v]⟩
  | evaluate {bound : Nat} {scope : ScopeId} {n : Node} {events : List Event} {r : Option Value}
      {s : State} (hscope : scope < w.heap.size)
      (hrun : eval bound scope n ⟨w.heap, events⟩ = .done r s) :
      Step w ⟨s.heap, w.history ++ (eval bound scope n).changes ⟨w.heap, events⟩⟩

/-- Some steps lead from one world to the other. -/
def Leads : World → World → Prop := Relation.ReflTransGen Step

/-- The heap can come about, and the history is its own. -/
structure Sound (w : World) : Prop where
  reachable : w.heap.Reachable
  records : Records w.history w.heap

theorem Sound.step {w w' : World} (hw : w.Sound) (hstep : w.Step w') :
    w'.Sound ∧ w.history <+: w'.history := by
  cases hstep with
  | make =>
      have hnone : ∀ o ∈ (none : Option ScopeId), o < w.heap.size := by simp
      exact ⟨⟨hw.reachable.alloc hnone, hw.records.alloc none⟩, List.prefix_append _ _⟩
  | @enclose outer houter =>
      have hsome : ∀ o ∈ some outer, o < w.heap.size := by simpa using houter
      exact ⟨⟨hw.reachable.alloc hsome, hw.records.alloc _⟩, List.prefix_append _ _⟩
  | set hscope hv =>
      exact ⟨⟨hw.reachable.bind hscope hv, hw.records.bind hscope _ _⟩, List.prefix_append _ _⟩
  | @evaluate bound scope n events r s hscope hrun =>
      have hreach := (reachable_of_eval hw.reachable hscope hrun).1
      have hrec := Action.records_run _ hw.records hrun
      exact ⟨⟨hreach, hrec⟩, List.prefix_append _ _⟩

theorem Sound.leads {w w' : World} (hw : w.Sound) (hleads : w.Leads w') :
    w'.Sound ∧ w.history <+: w'.history := by
  induction hleads with
  | refl => exact ⟨hw, List.prefix_refl _⟩
  | tail _ hstep ih =>
      obtain ⟨hsound, hearlier⟩ := ih
      obtain ⟨hsound', hearlier'⟩ := hsound.step hstep
      exact ⟨hsound', hearlier.trans hearlier'⟩

end World

open World

end Monkey.Evaluation

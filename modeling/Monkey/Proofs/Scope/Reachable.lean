import Monkey.Proofs.Scope.Matching

/-!
# The heaps that can come about

Scopes are made, on their own or inside others that exist, and names are bound in them to values
whose functions belong to scopes that exist. However this goes on, scopes lie inside older ones and
no function belongs to a scope that is not there.
-/

namespace Monkey

/-- The functions that the value holds belong to the first `size` scopes. -/
def Value.Known (size : Nat) : Value → Prop
  | .ret inner => inner.Known size
  | .function _ _ scope => scope < size
  | _ => True

theorem Value.Known.mono {size size' : Nat} (hsize : size ≤ size') :
    ∀ {v : Value}, v.Known size → v.Known size'
  | .ret inner, hv => @Value.Known.mono size size' hsize inner hv
  | .function _ _ _, hv => Nat.lt_of_lt_of_le hv hsize
  | .int _, _ => trivial
  | .bool _ _, _ => trivial
  | .null _, _ => trivial
  | .error _, _ => trivial

namespace Heap

inductive Reachable : Heap → Prop where
  | empty : Reachable .empty
  | alloc {h : Heap} {outer : Option ScopeId} (before : Reachable h)
      (houter : ∀ o ∈ outer, o < h.size) : Reachable (h.alloc outer)
  | bind {h : Heap} {id : ScopeId} {name : Bytes} {v : Value} (before : Reachable h)
      (hid : id < h.size) (hv : v.Known h.size) : Reachable (h.bind id name v)

namespace Reachable

variable {h : Heap}

theorem ordered (hreach : h.Reachable) : h.Ordered := by
  induction hreach with
  | empty =>
      intro id outer houter
      rw [outer?_of_size_le (Nat.zero_le id)] at houter
      cases houter
  | @alloc h outer' before hlt ih =>
      intro id outer houter
      by_cases heq : id = h.size
      · subst heq
        rw [outer?_alloc_self] at houter
        exact hlt outer houter
      · rw [outer?_alloc_of_ne _ _ _ heq] at houter
        exact ih id outer houter
  | bind before hid hv ih =>
      intro other outer houter
      rw [outer?_bind] at houter
      exact ih other outer houter

theorem known (hreach : h.Reachable) {id : ScopeId} {entry : Bytes × Value}
    (hentry : entry ∈ h.bindings id) : entry.2.Known h.size := by
  induction hreach with
  | empty =>
      rw [bindings_of_size_le (Nat.zero_le id)] at hentry
      cases hentry
  | @alloc h outer before hlt ih =>
      rw [bindings_alloc] at hentry
      rw [size_alloc]
      exact (ih hentry).mono (Nat.le_succ _)
  | @bind h id' name v before hid hv ih =>
      rw [size_bind]
      by_cases heq : id = id'
      · subst heq
        rw [bindings_bind_self _ _ _ _ hid] at hentry
        rcases Bindings.mem_of_mem_insert hentry with rfl | hold
        · exact hv
        · exact ih hold
      · rw [bindings_bind_of_ne _ _ _ _ _ heq] at hentry
        exact ih hentry

theorem bindAll (hreach : h.Reachable) {id : ScopeId} (hid : id < h.size)
    {pairs : List (Bytes × Value)} (hpairs : ∀ pair ∈ pairs, pair.2.Known h.size) :
    (h.bindAll id pairs).Reachable := by
  induction pairs generalizing h with
  | nil => exact hreach
  | cons pair pairs ih =>
      refine ih (hreach.bind hid (hpairs pair (.head _))) (by simpa using hid) fun pair' hmem => ?_
      rw [size_bind]
      exact hpairs pair' (.tail _ hmem)

end Reachable

end Heap

end Monkey

import Mathlib.Tactic.Common
import Monkey.Scope.Heap

/-!
# What the operations on a heap change

A new scope leaves all others as they are, and binding a name changes the bindings of one scope
only, and in it only that name. Along a chain of scopes each one but the last lies inside the
next.
-/

namespace Monkey

namespace Bindings

variable {name other : Bytes} {value : Value} {entry : Bytes × Value} {bindings : Bindings}

theorem mem_of_mem_insert (h : entry ∈ insert name value bindings) :
    entry = (name, value) ∨ entry ∈ bindings := by
  induction bindings with
  | nil => simpa [insert] using h
  | cons head rest ih =>
      obtain ⟨key, old⟩ := head
      simp only [insert] at h
      split at h
      · simpa using h
      · split at h
        · rcases List.mem_cons.mp h with h | h
          · exact .inl h
          · exact .inr (.tail _ h)
        · rcases List.mem_cons.mp h with h | h
          · exact .inr (h ▸ .head _)
          · exact (ih h).imp_right (.tail _)

theorem mem_names_insert :
    other ∈ (insert name value bindings).names ↔ other = name ∨ other ∈ bindings.names := by
  induction bindings with
  | nil => simp [insert, names]
  | cons head rest ih =>
      obtain ⟨key, old⟩ := head
      simp only [names, List.map_cons, List.mem_cons] at ih ⊢
      simp only [insert]
      split
      · simp
      · split
        · next heq => simp [heq]
        · rw [List.map_cons, List.mem_cons, ih]
          exact or_left_comm

theorem mem_of_get? (h : bindings.get? name = some value) : (name, value) ∈ bindings := by
  obtain ⟨before, after, rfl, -⟩ := List.lookup_eq_some_iff.mp h
  simp

theorem get?_insert_of_ne (hne : other ≠ name) :
    (insert name value bindings).get? other = bindings.get? other := by
  have hbeq : (other == name) = false := beq_eq_false_iff_ne.mpr hne
  induction bindings with
  | nil => simp [insert, get?, List.lookup_cons, hbeq]
  | cons head rest ih =>
      obtain ⟨key, old⟩ := head
      simp only [get?] at ih ⊢
      simp only [insert]
      split
      · simp [List.lookup_cons, hbeq]
      · split
        · next heq =>
            subst heq
            simp [List.lookup_cons, hbeq]
        · rw [List.lookup_cons, List.lookup_cons, ih]

end Bindings

namespace Heap

variable (h : Heap) (id other : ScopeId) (name : Bytes) (value : Value) (outer : Option ScopeId)

@[simp] theorem size_alloc : (h.alloc outer).size = h.size + 1 := by
  simp [alloc, size]

@[simp] theorem size_bind : (h.bind id name value).size = h.size := by
  simp [bind, size]

theorem outer?_alloc_self : (h.alloc outer).outer? h.size = outer := by
  simp [alloc, outer?, size]

theorem outer?_alloc_of_ne (hne : other ≠ h.size) :
    (h.alloc outer).outer? other = h.outer? other := by
  have hne' : other ≠ h.scopes.size := hne
  simp [alloc, outer?, Array.getElem?_push, hne']

@[simp] theorem bindings_alloc : (h.alloc outer).bindings other = h.bindings other := by
  by_cases heq : other = h.scopes.size
  · simp [alloc, bindings, heq]
  · simp [alloc, bindings, Array.getElem?_push, heq]

@[simp] theorem outer?_bind : (h.bind id name value).outer? other = h.outer? other := by
  simp only [bind, outer?, Array.getElem?_modify]
  split
  · cases h.scopes[other]? <;> rfl
  · rfl

theorem bindings_bind_of_ne (hne : other ≠ id) :
    (h.bind id name value).bindings other = h.bindings other := by
  simp [bind, bindings, Array.getElem?_modify, hne.symm]

theorem bindings_bind_self (hid : id < h.size) :
    (h.bind id name value).bindings id = (h.bindings id).insert name value := by
  have hscope : h.scopes[id]? = some h.scopes[id] := Array.getElem?_eq_getElem hid
  simp only [bind, bindings, Array.getElem?_modify, if_true, hscope, Option.map_some]

variable (pairs : List (Bytes × Value))

@[simp] theorem size_bindAll : (h.bindAll id pairs).size = h.size := by
  induction pairs generalizing h with
  | nil => rfl
  | cons pair pairs ih => exact (ih _).trans (h.size_bind id _ _)

@[simp] theorem outer?_bindAll : (h.bindAll id pairs).outer? other = h.outer? other := by
  induction pairs generalizing h with
  | nil => rfl
  | cons pair pairs ih => exact (ih _).trans (h.outer?_bind id other _ _)

theorem bindings_bindAll_of_ne (hne : other ≠ id) :
    (h.bindAll id pairs).bindings other = h.bindings other := by
  induction pairs generalizing h with
  | nil => rfl
  | cons pair pairs ih => exact (ih _).trans (h.bindings_bind_of_ne id other _ _ hne)

variable {h id pairs}

theorem mem_of_mem_bindAll (hid : id < h.size) {entry : Bytes × Value}
    (hentry : entry ∈ (h.bindAll id pairs).bindings id) :
    entry ∈ pairs ∨ entry ∈ h.bindings id := by
  induction pairs generalizing h with
  | nil => exact .inr hentry
  | cons pair pairs ih =>
      rcases ih (by simpa using hid) hentry with hmem | hmem
      · exact .inl (.tail _ hmem)
      · rw [bindings_bind_self _ _ _ _ hid] at hmem
        rcases Bindings.mem_of_mem_insert hmem with rfl | hmem
        · exact .inl (.head _)
        · exact .inr hmem

theorem mem_names_bindAll (hid : id < h.size) {name : Bytes} :
    name ∈ (h.bindAll id pairs).names id ↔ name ∈ pairs.map Prod.fst ∨ name ∈ h.names id := by
  induction pairs generalizing h with
  | nil => simp [bindAll]
  | cons pair pairs ih =>
      have hstep : name ∈ (h.bind id pair.1 pair.2).names id ↔
          name = pair.1 ∨ name ∈ h.names id := by
        rw [names, bindings_bind_self _ _ _ _ hid, Bindings.mem_names_insert, names]
      have hrest := @ih (h.bind id pair.1 pair.2) (by simpa using hid)
      rw [hstep] at hrest
      rw [List.map_cons, List.mem_cons, or_assoc, or_left_comm]
      exact hrest

theorem bindings_of_size_le (hle : h.size ≤ id) : h.bindings id = [] := by
  have hnone : h.scopes[id]? = none := Array.getElem?_eq_none hle
  simp [bindings, hnone]

theorem outer?_of_size_le (hle : h.size ≤ id) : h.outer? id = none := by
  have hnone : h.scopes[id]? = none := Array.getElem?_eq_none hle
  simp [outer?, hnone]

theorem bind_of_size_le (name : Bytes) (value : Value) (hle : h.size ≤ id) :
    h.bind id name value = h := by
  obtain ⟨scopes⟩ := h
  have hsame : scopes.modify id (fun scope =>
      { scope with bindings := scope.bindings.insert name value }) = scopes := by
    apply Array.ext_getElem?
    intro i
    rw [Array.getElem?_modify]
    split
    · next heq =>
        subst heq
        rw [Array.getElem?_eq_none hle, Option.map_none]
    · rfl
  exact congrArg Heap.mk hsame

theorem mem_of_mem_bind {other : ScopeId} {name : Bytes} {value : Value} {entry : Bytes × Value}
    (hentry : entry ∈ (h.bind id name value).bindings other) :
    entry = (name, value) ∨ entry ∈ h.bindings other := by
  by_cases heq : other = id
  · subst heq
    rcases Nat.lt_or_ge other h.size with hlt | hge
    · rw [bindings_bind_self _ _ _ _ hlt] at hentry
      exact Bindings.mem_of_mem_insert hentry
    · rw [bindings_of_size_le (by simpa using hge)] at hentry
      cases hentry
  · rw [bindings_bind_of_ne _ _ _ _ _ heq] at hentry
    exact .inr hentry

theorem bindings_size : h.bindings h.size = [] := bindings_of_size_le (Nat.le_refl _)

/-- The names in a scope that has just been made for a call. -/
theorem mem_names_enclose {outer : ScopeId} {names : List Bytes} {values : List Value}
    (hlength : values.length = names.length) {name : Bytes} :
    name ∈ ((h.alloc (some outer)).bindAll h.size (names.zip values)).names h.size ↔
      name ∈ names := by
  have hnew : (h.alloc (some outer)).names h.size = [] := by
    rw [Heap.names, bindings_alloc, bindings_size]
    rfl
  rw [mem_names_bindAll (by simp), hnew, List.map_fst_zip (Nat.le_of_eq hlength.symm)]
  simp

theorem exists_mem_of_lookup? {name : Bytes} {value : Value}
    (hlookup : h.lookup? id name = some value) : ∃ scope, (name, value) ∈ h.bindings scope := by
  obtain ⟨scope, -, hget⟩ := List.exists_of_findSome?_eq_some hlookup
  exact ⟨scope, Bindings.mem_of_get? hget⟩

end Heap

end Monkey

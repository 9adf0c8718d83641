import Monkey.Proofs.Scope.Reachable

/-!
# A heap and its history

A heap changes in two ways: a scope is made, or a name is bound in one. A history lists such changes
in the order in which they were made. It determines what can be seen of the heap (`Records`): a name
has the value that it was bound to last, the names of a scope are those that were ever bound in it,
and a scope lies where it was made.

Scopes lie inside older ones, so that the way outwards ends and passes no scope twice. `chain` is
the whole of it (`Ordered.leadsOut_chain`).
-/

namespace Monkey

/-- A change of a heap. -/
inductive Change where
  | made (outer : Option ScopeId)
  | bound (scope : ScopeId) (name : Bytes) (value : Value)

/-- What a scope is made inside of, if the change makes one. -/
def Change.outer? : Change → Option (Option ScopeId)
  | .made outer => some outer
  | .bound _ _ _ => none

/-- The changes of a heap, oldest first. -/
abbrev History := List Change

namespace History

variable {history : History} {scope : ScopeId} {name : Bytes} {v v' : Value}

/-- The name was bound in the scope at some time. -/
def EverBound (history : History) (scope : ScopeId) (name : Bytes) : Prop :=
  ∃ v, .bound scope name v ∈ history

/-- The value is the one that the name was bound to last in the scope. -/
def LastBound (history : History) (scope : ScopeId) (name : Bytes) (v : Value) : Prop :=
  ∃ before since, history = before ++ .bound scope name v :: since ∧ ¬EverBound since scope name

/-- What the scopes were made inside of, in the order in which they were made. -/
def outers (history : History) : List (Option ScopeId) := history.filterMap Change.outer?

theorem outers_append (history later : History) :
    outers (history ++ later) = outers history ++ outers later := List.filterMap_append

theorem everBound_append {later : History} :
    EverBound (history ++ later) scope name ↔
      EverBound history scope name ∨ EverBound later scope name := by
  simp only [EverBound, List.mem_append, exists_or]

theorem not_everBound_nil : ¬EverBound [] scope name := by simp [EverBound]

theorem everBound_bound {scope' : ScopeId} {name' : Bytes} :
    EverBound [.bound scope name v] scope' name' ↔ scope' = scope ∧ name' = name := by
  simp [EverBound]

theorem not_everBound_made {outer : Option ScopeId} : ¬EverBound [.made outer] scope name := by
  simp [EverBound]

theorem lastBound_append_of_not {later : History} (hlater : ¬EverBound later scope name) :
    LastBound (history ++ later) scope name v ↔ LastBound history scope name v := by
  constructor
  · rintro ⟨before, since, heq, hsince⟩
    -- the binding stands in the first part, since the second has none
    rcases List.append_eq_append_iff.mp heq with ⟨mid, -, hmid⟩ | ⟨mid, hhistory, hmid⟩
    · exact absurd ⟨v, by simp [hmid]⟩ hlater
    · cases mid with
      | nil =>
          rw [List.nil_append] at hmid
          exact absurd ⟨v, hmid ▸ .head _⟩ hlater
      | cons c mid =>
          obtain ⟨rfl, rfl⟩ := List.cons.inj hmid
          exact ⟨before, mid, hhistory, fun h => hsince (everBound_append.mpr (.inl h))⟩
  · rintro ⟨before, since, rfl, hsince⟩
    refine ⟨before, since ++ later, by simp, ?_⟩
    rw [everBound_append]
    exact not_or.mpr ⟨hsince, hlater⟩

theorem lastBound_bound : LastBound (history ++ [.bound scope name v]) scope name v' ↔ v' = v := by
  constructor
  · rintro ⟨before, since, heq, hsince⟩
    rcases List.eq_nil_or_concat since with rfl | ⟨since, c, rfl⟩
    · have hlast := (List.append_inj' heq rfl).2
      simp only [List.cons.injEq, Change.bound.injEq] at hlast
      exact hlast.1.2.2.symm
    · rw [List.concat_eq_append, ← List.cons_append, ← List.append_assoc] at heq
      have hlast := (List.append_inj' heq rfl).2
      refine absurd ⟨v, ?_⟩ hsince
      simp [← hlast]
  · rintro rfl
    exact ⟨history, [], rfl, not_everBound_nil⟩

end History

namespace Bindings

variable {name : Bytes} {value : Value} {bindings : Bindings}

theorem get?_insert_self : (insert name value bindings).get? name = some value := by
  induction bindings with
  | nil => simp [insert, get?]
  | cons head rest ih =>
      obtain ⟨key, old⟩ := head
      simp only [get?] at ih ⊢
      simp only [insert]
      split
      · simp
      · split
        · simp
        · next hne =>
            rw [List.lookup_cons, beq_eq_false_iff_ne.mpr hne]
            exact ih

/-- The names stand in the order of their bytes, each once. -/
def Sorted (bindings : Bindings) : Prop := bindings.names.Pairwise (· < ·)

theorem Sorted.insert (h : bindings.Sorted) : (insert name value bindings).Sorted := by
  induction bindings with
  | nil => exact List.pairwise_singleton _ _
  | cons head rest ih =>
      obtain ⟨key, old⟩ := head
      obtain ⟨hkey, hrest⟩ := List.pairwise_cons.mp h
      simp only [Bindings.insert]
      split
      · next hlt =>
          apply List.pairwise_cons.mpr
          constructor
          · intro other hother
            rcases List.mem_cons.mp hother with rfl | hother
            · exact hlt
            · exact List.lt_trans hlt (hkey other hother)
          · exact h
      · next hnlt =>
          split
          · next heq =>
              subst heq
              exact h
          · next hne =>
              have hlt : key < name := Std.lt_of_le_of_ne (List.not_lt.mp hnlt) (Ne.symm hne)
              apply List.pairwise_cons.mpr
              constructor
              · intro other hother
                rcases mem_names_insert.mp hother with rfl | hother
                · exact hlt
                · exact hkey other hother
              · exact ih hrest

end Bindings

namespace Heap

open History

variable {h : Heap} {history : History}

/-- The history is what has happened to the heap. -/
structure Records (history : History) (h : Heap) : Prop where
  size : h.size = (outers history).length
  outer : ∀ id : ScopeId, h.outer? id = ((outers history)[id]?).join
  get? : ∀ id name v, (h.bindings id).get? name = some v ↔ LastBound history id name v
  names : ∀ id name, name ∈ h.names id ↔ EverBound history id name
  sorted : ∀ id, (h.bindings id).Sorted

namespace Records

theorem empty : Records [] .empty where
  size := rfl
  outer id := outer?_of_size_le (Nat.zero_le id)
  get? id name v := by
    rw [bindings_of_size_le (Nat.zero_le id)]
    simp [Bindings.get?, LastBound]
  names id name := by
    rw [Heap.names, bindings_of_size_le (Nat.zero_le id)]
    simp [Bindings.names, not_everBound_nil]
  sorted id := by
    rw [bindings_of_size_le (Nat.zero_le id)]
    exact .nil

theorem alloc (hrec : Records history h) (outer : Option ScopeId) :
    Records (history ++ [.made outer]) (h.alloc outer) where
  size := by
    rw [size_alloc, hrec.size, outers_append, List.length_append]
    rfl
  outer id := by
    have houters : outers (history ++ [.made outer]) = outers history ++ [outer] :=
      outers_append _ _
    by_cases heq : id = h.size
    · subst heq
      rw [outer?_alloc_self, houters, hrec.size]
      simp
    · rw [outer?_alloc_of_ne _ _ _ heq, hrec.outer, houters]
      rw [hrec.size] at heq
      rcases Nat.lt_or_gt_of_ne heq with hlt | hgt
      · rw [List.getElem?_append_left hlt]
      · rw [List.getElem?_eq_none (Nat.le_of_lt hgt), List.getElem?_eq_none]
        simpa using Nat.succ_le_of_lt hgt
  get? id name v := by
    rw [bindings_alloc, hrec.get?, lastBound_append_of_not not_everBound_made]
  names id name := by
    rw [Heap.names, bindings_alloc, everBound_append, or_iff_left not_everBound_made]
    exact hrec.names id name
  sorted id := by
    rw [bindings_alloc]
    exact hrec.sorted id

theorem bind (hrec : Records history h) {scope : ScopeId} (hscope : scope < h.size) (name : Bytes)
    (v : Value) : Records (history ++ [.bound scope name v]) (h.bind scope name v) where
  size := by
    rw [size_bind, hrec.size, outers_append, List.length_append]
    rfl
  outer id := by
    have houters : outers (history ++ [.bound scope name v]) = outers history :=
      (outers_append _ _).trans (List.append_nil _)
    rw [outer?_bind, hrec.outer, houters]
  get? id other v' := by
    by_cases hid : id = scope
    · subst hid
      rw [bindings_bind_self _ _ _ _ hscope]
      by_cases hname : other = name
      · subst hname
        rw [Bindings.get?_insert_self, lastBound_bound, Option.some_inj, eq_comm]
      · rw [Bindings.get?_insert_of_ne hname, hrec.get?, lastBound_append_of_not]
        exact fun hbound => hname (everBound_bound.mp hbound).2
    · rw [bindings_bind_of_ne _ _ _ _ _ hid, hrec.get?, lastBound_append_of_not]
      exact fun hbound => hid (everBound_bound.mp hbound).1
  names id other := by
    rw [everBound_append, everBound_bound, ← hrec.names]
    by_cases hid : id = scope
    · subst hid
      rw [Heap.names, bindings_bind_self _ _ _ _ hscope, Bindings.mem_names_insert, Heap.names,
        or_comm]
      simp
    · rw [Heap.names, bindings_bind_of_ne _ _ _ _ _ hid, Heap.names]
      simp [hid]
  sorted id := by
    by_cases hid : id = scope
    · subst hid
      rw [bindings_bind_self _ _ _ _ hscope]
      exact (hrec.sorted id).insert
    · rw [bindings_bind_of_ne _ _ _ _ _ hid]
      exact hrec.sorted id

theorem bindAll (hrec : Records history h) {scope : ScopeId} (hscope : scope < h.size)
    (pairs : List (Bytes × Value)) :
    Records (history ++ pairs.map fun pair => .bound scope pair.1 pair.2)
      (h.bindAll scope pairs) := by
  induction pairs generalizing h history with
  | nil => simpa [Heap.bindAll] using hrec
  | cons pair pairs ih =>
      have hrest := ih (hrec.bind hscope pair.1 pair.2) (by simpa using hscope)
      rwa [List.append_assoc] at hrest

end Records

end Heap

end Monkey

import Mathlib.Data.List.Forall2
import Mathlib.Order.WellFounded
import Mathlib.Tactic.Common
import Monkey.Proofs.Scope.Heap

/-!
# A heap found again in another one

The scopes of one heap are found in another heap under other numbers. Wherever a scope of the first
one lies inside another, so it does in the second, and where it binds a name to a value, the second
one binds the same name to a value that corresponds to it. The second heap may have more scopes,
between those that correspond to scopes of the first one. Both heaps number their next scopes
alike, so that they can grow side by side.

The numbers keep their order, and so a chain of scopes is found again as a whole and every name is
looked up alike.
-/

namespace Monkey

namespace Bindings

variable {P : Value → Value → Prop} {bindings bindings' : Bindings} {name : Bytes}
  {v v' : Value}

/-- The same names are bound, to values of which `P` holds. -/
def Matches (P : Value → Value → Prop) : Bindings → Bindings → Prop :=
  List.Forall₂ fun entry entry' => entry'.1 = entry.1 ∧ P entry.2 entry'.2

theorem Matches.mono {Q : Value → Value → Prop} (h : bindings.Matches P bindings')
    (hPQ : ∀ v v', P v v' → Q v v') : bindings.Matches Q bindings' :=
  List.Forall₂.imp (fun _ _ hentry => ⟨hentry.1, hPQ _ _ hentry.2⟩) h

theorem Matches.insert (h : bindings.Matches P bindings') (hv : P v v') :
    (bindings.insert name v).Matches P (bindings'.insert name v') := by
  induction h with
  | nil => exact .cons ⟨rfl, hv⟩ .nil
  | @cons entry entry' rest rest' hentry hrest ih =>
      obtain ⟨key, old⟩ := entry
      obtain ⟨key', old'⟩ := entry'
      obtain ⟨rfl, hold⟩ := hentry
      unfold Bindings.insert
      split
      · exact .cons ⟨rfl, hv⟩ (.cons ⟨rfl, hold⟩ hrest)
      · split
        · exact .cons ⟨rfl, hv⟩ hrest
        · exact .cons ⟨rfl, hold⟩ ih

theorem Matches.get? (h : bindings.Matches P bindings') :
    Option.Rel P (bindings.get? name) (bindings'.get? name) := by
  unfold Bindings.get?
  induction h with
  | nil => exact .none
  | @cons entry entry' rest rest' hentry hrest ih =>
      obtain ⟨key, old⟩ := entry
      obtain ⟨key', old'⟩ := entry'
      obtain ⟨rfl, hold⟩ := hentry
      rw [List.lookup_cons, List.lookup_cons]
      cases name == key' with
      | true => exact .some hold
      | false => exact ih

end Bindings

theorem findSome?_rel {α β γ : Type} {R : β → γ → Prop} {f : α → Option β} {g : α → Option γ}
    (h : ∀ a, Option.Rel R (f a) (g a)) (as : List α) :
    Option.Rel R (as.findSome? f) (as.findSome? g) := by
  induction as with
  | nil => exact .none
  | cons a as ih =>
      rw [List.findSome?_cons, List.findSome?_cons]
      have ha := h a
      generalize f a = b at ha ⊢
      generalize g a = c at ha ⊢
      cases ha with
      | none => exact ih
      | some hbc => exact .some hbc

namespace Heap

/-- A heap is known by the bindings of its scopes and by how these lie inside each other. -/
theorem ext_scopes {h h' : Heap} (hsize : h.size = h'.size)
    (houter : ∀ id, h.outer? id = h'.outer? id) (hbindings : ∀ id, h.bindings id = h'.bindings id) :
    h = h' := by
  obtain ⟨scopes⟩ := h
  obtain ⟨scopes'⟩ := h'
  refine congrArg Heap.mk (Array.ext hsize fun id hid hid' => ?_)
  have ho := houter id
  have hb := hbindings id
  simp only [outer?, bindings, Array.getElem?_eq_getElem hid, Array.getElem?_eq_getElem hid',
    Option.bind_some] at ho hb
  cases hscope : scopes[id]
  cases hscope' : scopes'[id]
  rw [hscope, hscope'] at ho hb
  exact congrArg₂ Scope.mk hb ho

/-- Scopes lie inside older ones. -/
def Ordered (h : Heap) : Prop := ∀ id outer, h.outer? id = some outer → outer < id

/-- A chain is not cut off as long as there are more steps at hand than its number. -/
theorem Ordered.chainWithin_eq {h : Heap} (hordered : h.Ordered) {bound bound' id : Nat}
    (hbound : id < bound) (hbound' : id < bound') :
    h.chainWithin bound id = h.chainWithin bound' id := by
  induction bound generalizing bound' id with
  | zero => exact absurd hbound (Nat.not_lt_zero id)
  | succ bound ih =>
      cases bound' with
      | zero => exact absurd hbound' (Nat.not_lt_zero id)
      | succ bound' =>
          unfold chainWithin
          cases houter : h.outer? id with
          | none => rfl
          | some outer =>
              have hlt := hordered id outer houter
              have hrest := @ih bound' outer (Nat.lt_of_lt_of_le hlt (Nat.le_of_lt_succ hbound))
                (Nat.lt_of_lt_of_le hlt (Nat.le_of_lt_succ hbound'))
              simp only [hrest]

/-- The scopes of the first heap are found in the second one under the numbers that `ρ` gives, with
values that correspond by `P`. -/
structure Matches (ρ : ScopeId → ScopeId) (P : Value → Value → Prop) (h h' : Heap) : Prop where
  ordered : h.Ordered
  /-- The next scopes correspond. -/
  next : ∀ k, ρ (h.size + k) = h'.size + k
  outer : ∀ id, h'.outer? (ρ id) = (h.outer? id).map ρ
  bindings : ∀ id, (h.bindings id).Matches P (h'.bindings (ρ id))

namespace Matches

variable {ρ : ScopeId → ScopeId} {P : Value → Value → Prop} {h h' : Heap} {id : ScopeId}

theorem apply_size (hm : Matches ρ P h h') : ρ h.size = h'.size := hm.next 0

theorem lt_size (hm : Matches ρ P h h') (hρ : StrictMono ρ) (hid : id < h.size) :
    ρ id < h'.size := hm.apply_size ▸ hρ hid

theorem mono {Q : Value → Value → Prop} (hm : Matches ρ P h h')
    (hPQ : ∀ v v', P v v' → Q v v') : Matches ρ Q h h' :=
  { hm with bindings := fun id => (hm.bindings id).mono hPQ }

theorem bind (hm : Matches ρ P h h') (hρ : StrictMono ρ) (hid : id < h.size) (name : Bytes)
    {v v' : Value} (hv : P v v') : Matches ρ P (h.bind id name v) (h'.bind (ρ id) name v') where
  ordered other outer houter := hm.ordered other outer (by rwa [outer?_bind] at houter)
  next k := by rw [size_bind, size_bind, hm.next]
  outer other := by rw [outer?_bind, outer?_bind, hm.outer]
  bindings other := by
    by_cases heq : other = id
    · subst heq
      rw [bindings_bind_self _ _ _ _ hid, bindings_bind_self _ _ _ _ (hm.lt_size hρ hid)]
      exact (hm.bindings other).insert hv
    · have hne : ρ other ≠ ρ id := fun h => heq (hρ.injective h)
      rw [bindings_bind_of_ne _ _ _ _ _ heq, bindings_bind_of_ne _ _ _ _ _ hne]
      exact hm.bindings other

theorem alloc (hm : Matches ρ P h h') (hρ : StrictMono ρ) {outer : Option ScopeId}
    (houter : ∀ o ∈ outer, o < h.size) :
    Matches ρ P (h.alloc outer) (h'.alloc (outer.map ρ)) where
  ordered other o ho := by
    by_cases heq : other = h.size
    · subst heq
      rw [outer?_alloc_self] at ho
      exact houter o ho
    · rw [outer?_alloc_of_ne _ _ _ heq] at ho
      exact hm.ordered other o ho
  next k := by
    have hnext := hm.next (k + 1)
    rw [size_alloc, size_alloc, Nat.add_assoc, Nat.add_assoc, Nat.add_comm 1 k, hnext]
  outer other := by
    by_cases heq : other = h.size
    · subst heq
      rw [outer?_alloc_self, hm.apply_size, outer?_alloc_self]
    · have hne : ρ other ≠ h'.size := fun h => heq (hρ.injective (h.trans hm.apply_size.symm))
      rw [outer?_alloc_of_ne _ _ _ heq, outer?_alloc_of_ne _ _ _ hne, hm.outer]
  bindings other := by
    rw [bindings_alloc, bindings_alloc]
    exact hm.bindings other

theorem bindAll (hm : Matches ρ P h h') (hρ : StrictMono ρ) (hid : id < h.size)
    (names : List Bytes) {args args' : List Value} (hargs : List.Forall₂ P args args') :
    Matches ρ P (h.bindAll id (names.zip args)) (h'.bindAll (ρ id) (names.zip args')) := by
  induction hargs generalizing h h' names with
  | nil => simpa [Heap.bindAll] using hm
  | cons hv hrest ih =>
      cases names with
      | nil => exact hm
      | cons name names => exact ih (hm.bind hρ hid name hv) (by simpa using hid) names

/-- The scope of a call is found again. -/
theorem enclose (hm : Matches ρ P h h') (hρ : StrictMono ρ) (hid : id < h.size)
    (names : List Bytes) {args args' : List Value} (hargs : List.Forall₂ P args args') :
    Matches ρ P ((h.alloc (some id)).bindAll h.size (names.zip args))
      ((h'.alloc (some (ρ id))).bindAll h'.size (names.zip args')) := by
  have houter : ∀ o ∈ some id, o < h.size := by simpa using hid
  have hbound := (hm.alloc hρ houter).bindAll hρ (by simp : h.size < (h.alloc (some id)).size)
    names hargs
  rwa [hm.apply_size] at hbound

theorem chainWithin_eq (hm : Matches ρ P h h') (bound : Nat) (id : ScopeId) :
    h'.chainWithin bound (ρ id) = (h.chainWithin bound id).map ρ := by
  induction bound generalizing id with
  | zero => rfl
  | succ bound ih =>
      unfold chainWithin
      rw [hm.outer]
      cases h.outer? id with
      | none => rfl
      | some outer => simp [ih]

/-- Names are looked up alike. -/
theorem lookup? (hm : Matches ρ P h h') (hρ : StrictMono ρ) (id : ScopeId) (name : Bytes) :
    Option.Rel P (h.lookup? id name) (h'.lookup? (ρ id) name) := by
  have hchain : h'.chain (ρ id) = (h.chain id).map ρ := by
    have hlong : id < ρ id + 1 := Nat.lt_succ_of_le hρ.le_apply
    rw [chain, hm.chainWithin_eq, hm.ordered.chainWithin_eq hlong (Nat.lt_succ_self id), chain]
  rw [Heap.lookup?, Heap.lookup?, hchain, List.findSome?_map]
  exact findSome?_rel (fun other => (hm.bindings other).get?) _

end Matches

end Heap

end Monkey

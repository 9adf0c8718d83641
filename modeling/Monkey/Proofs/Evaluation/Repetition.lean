import Monkey.Proofs.Evaluation.Frame
import Monkey.Proofs.Evaluation.Simulation
import Monkey.Proofs.Scope.Reachable

/-!
# Calls can be repeated

A function that is applied to the same arguments a second time, in the heap that the first call left
behind, comes to an end as well and gives the same again: the same integer, boolean, null or error,
or a function with the same parameters and the same body. Only the scope to which such a function
belongs is another one.

The first call has changed no scope that was there before it. So the heap before the first call is
found again in the heap before the second one, the scopes that the two calls make being moved by as
many numbers as the first call made scopes, and the second call takes the same course.
-/

namespace Monkey

/-- The value with the scopes of its functions forgotten. -/
def Value.unscoped : Value → Value
  | .ret inner => .ret inner.unscoped
  | .function params body _ => .function params body 0
  | v => v

namespace Evaluation

/-- The heaps that can come about are not left by evaluation. -/
def reachability : Invariant Nat where
  grows size size' := size ≤ size'
  heap size h := h.size = size ∧ h.Reachable
  value size v := v.Known size
  node size scope _ := scope < size
  refl := Nat.le_refl
  trans := Nat.le_trans
  value_mono hsize hv := hv.mono hsize
  node_mono hsize hscope := Nat.lt_of_lt_of_le hscope hsize
  int _ _ := trivial
  ofBool _ _ := trivial
  null _ := trivial
  error _ _ := trivial
  ret := Iff.rfl
  operands hscope _ := hscope
  lookup := by
    rintro size h scope name v ⟨rfl, hreach⟩ hlookup
    obtain ⟨_, hmem⟩ := Heap.exists_mem_of_lookup? hlookup
    exact hreach.known hmem
  made hscope := hscope
  bound := by
    rintro size h scope token id e v hscope hv ⟨rfl, hreach⟩
    exact ⟨h.size, Nat.le_refl _, Heap.size_bind _ _ _ _, hreach.bind hscope hv⟩
  called := by
    rintro size h params body scope args hscope hargs - ⟨rfl, hreach⟩
    have hscope' : scope < h.size := hscope
    refine ⟨h.size + 1, Nat.le_succ _, ⟨by simp, ?_⟩, Nat.lt_succ_self _⟩
    refine (hreach.alloc (by simpa using hscope')).bindAll (by simp) fun pair hpair => ?_
    rw [Heap.size_alloc]
    exact (hargs _ (List.of_mem_zip hpair).2).mono (Nat.le_succ _)

/-- Evaluation leads from heaps that can come about to such heaps. -/
theorem reachable_of_eval {bound : Nat} {scope : ScopeId} {n : Node} {s s' : State}
    {r : Option Value} (hreach : s.heap.Reachable) (hscope : scope < s.heap.size)
    (hrun : eval bound scope n s = .done r s') :
    s'.heap.Reachable ∧ ∀ v ∈ r, v.Known s'.heap.size := by
  obtain ⟨_, -, ⟨rfl, hreach'⟩, hresult⟩ :=
    @Invariant.respects_eval _ reachability bound s.heap.size scope n hscope s ⟨rfl, hreach⟩ r s'
      hrun
  exact ⟨hreach', hresult⟩

theorem fits_lax_iff {size : Nat} : ∀ {v : Value}, Discipline.lax.Fits size v ↔ v.Known size
  | .ret inner => @fits_lax_iff size inner
  | .function _ _ _ => and_iff_left trivial
  | .int _ => Iff.rfl
  | .bool _ _ => Iff.rfl
  | .null _ => Iff.rfl
  | .error _ => Iff.rfl

namespace Renaming

variable {ρ : ScopeId → ScopeId} {hρ : StrictMono ρ}

theorem inspect_value_ofScopes : ∀ v : Value, ((ofScopes ρ hρ).value v).inspect = v.inspect
  | .ret inner => inspect_value_ofScopes inner
  | .function params body scope => by rw [value_ofScopes_function]; rfl
  | .int _ => rfl
  | .bool _ _ => rfl
  | .null _ => rfl
  | .error _ => rfl

theorem unscoped_value_ofScopes : ∀ v : Value, ((ofScopes ρ hρ).value v).unscoped = v.unscoped
  | .ret inner => congrArg Value.ret (unscoped_value_ofScopes inner)
  | .function params body scope => by rw [value_ofScopes_function]; rfl
  | .int _ => rfl
  | .bool _ _ => rfl
  | .null _ => rfl
  | .error _ => rfl

end Renaming

/-- The first `old` scopes keep their numbers, and those after them are moved by `gap`. -/
def shift (old gap id : Nat) : Nat := if id < old then id else id + gap

theorem shift_of_lt {old gap id : Nat} (h : id < old) : shift old gap id = id := if_pos h

theorem shift_of_le {old gap id : Nat} (h : old ≤ id) : shift old gap id = id + gap :=
  if_neg (Nat.not_lt_of_le h)

theorem strictMono_shift (old gap : Nat) : StrictMono (shift old gap) := by
  intro a b hab
  unfold shift
  split <;> split <;> omega

/-- A heap is found again in one in which no scope of it has changed. -/
theorem image_shift {h h' : Heap} (hreach : h.Reachable) (hsize : h.size ≤ h'.size)
    (houter : ∀ id < h.size, h'.outer? id = h.outer? id)
    (hbindings : ∀ id < h.size, h'.bindings id = h.bindings id) :
    (Renaming.ofScopes (shift h.size (h'.size - h.size)) (strictMono_shift _ _)).Image
      Discipline.lax h h' where
  ordered := hreach.ordered
  next k := by
    change shift h.size (h'.size - h.size) (h.size + k) = h'.size + k
    rw [shift_of_le (Nat.le_add_right _ _), Nat.add_right_comm, Nat.add_sub_of_le hsize]
  outer id := by
    change h'.outer? (shift h.size (h'.size - h.size) id) = (h.outer? id).map (shift _ _)
    rcases Nat.lt_or_ge id h.size with hlt | hge
    · rw [shift_of_lt hlt, houter id hlt]
      cases hid : h.outer? id with
      | none => rfl
      | some o => rw [Option.map_some, shift_of_lt (Nat.lt_trans (hreach.ordered id o hid) hlt)]
    · rw [shift_of_le hge, Heap.outer?_of_size_le hge, Heap.outer?_of_size_le (by omega)]
      rfl
  bindings id := by
    change (h.bindings id).Matches _ (h'.bindings (shift h.size (h'.size - h.size) id))
    rcases Nat.lt_or_ge id h.size with hlt | hge
    · rw [shift_of_lt hlt, hbindings id hlt, Bindings.Matches, List.forall₂_same]
      intro entry hentry
      have hknown := hreach.known hentry
      have hfits := fits_lax_iff.mpr hknown
      refine ⟨rfl, ?_, hfits⟩
      exact (Renaming.value_ofScopes_of_fits (fun id hid => shift_of_lt hid) hfits).symm
    · rw [shift_of_le hge, Heap.bindings_of_size_le hge, Heap.bindings_of_size_le (by omega)]
      exact .nil

/-- A call that has come to an end does so again, and gives the same but for the scopes of
functions. -/
theorem apply_repeats {s s' : State} (hreach : s.heap.Reachable) {params : List Ident}
    {body : Block} {scope : ScopeId} {args : List Value} (hscope : scope < s.heap.size)
    (hargs : ∀ v ∈ args, v.Known s.heap.size) {bound : Nat} {r : Option Value}
    (hrun : apply (eval bound) (.function params body scope) args s = .done r s') :
    ∃ v v' s'', r = some v ∧
      apply (eval bound) (.function params body scope) args s' = .done (some v') s'' ∧
      v'.kind = v.kind ∧ v'.inspect = v.inspect ∧ v'.unscoped = v.unscoped := by
  have hchanges := changesOnly_of_apply hrun
  have himage := image_shift hreach hchanges.size hchanges.outer
    fun id hid => hchanges.others id hid (Nat.ne_of_lt hid)
  generalize hT : Renaming.ofScopes (shift s.heap.size (s'.heap.size - s.heap.size))
    (strictMono_shift _ _) = T at himage
  have hfix : ∀ {v : Value}, v.Known s.heap.size → T.value v = v := by
    intro v hv
    rw [← hT]
    exact Renaming.value_ofScopes_of_fits (fun id hid => shift_of_lt hid) (fits_lax_iff.mpr hv)
  have hfunction : (Value.function params body scope).Known s.heap.size := hscope
  have hsimulates := Renaming.simulates_apply (T.respects_eval bound)
    (fits_lax_iff.mpr hfunction) (fun v hv => fits_lax_iff.mpr (hargs v hv)) s s' rfl himage
  rw [hfix hfunction, List.map_congr_left fun v hv => hfix (hargs v hv), List.map_id', hrun]
    at hsimulates
  generalize hagain : apply (eval bound) (.function params body scope) args s' = o at hsimulates
  cases hsimulates with
  | @done _ _ r' s'' h =>
      obtain ⟨v, rfl, rfl, -⟩ := h.2.exists_value
      refine ⟨v, T.value v, s'', rfl, rfl, T.kind_value v, ?_, ?_⟩
      · rw [← hT, Renaming.inspect_value_ofScopes]
      · rw [← hT, Renaming.unscoped_value_ofScopes]

/-- A function that returns a function each time it is called, and reads a name of the scope around
it. -/
theorem apply_repeats_closure :
    let t : Token := ⟨.ident, [], .start⟩
    let x : Ident := ⟨t, utf8 "x"⟩
    let y : Ident := ⟨t, utf8 "y"⟩
    let k : Ident := ⟨t, utf8 "k"⟩
    let inner : Expr :=
      .function t [y] (.mk t [.expr t (.binary t (utf8 "*") (.ident x) (.ident y))])
    let body : Block :=
      .mk t [.bind t x (.binary t (utf8 "+") (.ident x) (.ident k)), .expr t inner]
    let s : State := ⟨(Heap.empty.alloc none).bind 0 k.name (.int 10), []⟩
    ∃ v v' s' s'', s.heap.Reachable ∧
      apply (eval 20) (.function [x] body 0) [.int 5] s = .done (some v) s' ∧
      apply (eval 20) (.function [x] body 0) [.int 5] s' = .done (some v') s'' ∧
      v'.inspect = v.inspect ∧ v'.unscoped = v.unscoped := by
  intro t x y k inner body s
  have hreach : s.heap.Reachable := .bind (.alloc .empty (by simp)) (by decide) trivial
  have hrun : (apply (eval 20) (.function [x] body 0) [.int 5] s).isDone = true := by
    decide +kernel
  obtain ⟨r, s', hrun⟩ := Outcome.exists_of_isDone hrun
  have hargs : ∀ v ∈ [Value.int 5], v.Known s.heap.size := by simp [Value.Known]
  obtain ⟨v, v', s'', rfl, hagain, -, hinspect, hunscoped⟩ :=
    apply_repeats hreach (by decide) hargs hrun
  exact ⟨v, v', s', s'', hreach, hrun, hagain, hinspect, hunscoped⟩

end Evaluation

end Monkey

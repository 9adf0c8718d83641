import Monkey.Proofs.Evaluation.Repetition

/-!
# Places make no difference

Programs that are the same but for the places of their tokens give results that are the same but
for places, and leave such heaps. So the results look the same, and so do the bindings, scope by
scope: values of the same kinds with the same texts. They need not be equal, for a function keeps
the tokens of its body.

The two evaluations do not correspond to each other token by token, as the heaps may hold functions
from elsewhere, in which the same tokens stand at other places or at the same. Both are compared
with a third one, in which no token has a place.
-/

namespace Monkey

/-- What can be seen of a value. -/
def Value.shown (v : Value) : Value.Kind × Bytes := (v.kind, v.inspect)

namespace Heap

/-- What can be seen of the bindings of a scope. -/
def shown (h : Heap) (id : ScopeId) : List (Bytes × Value.Kind × Bytes) :=
  (h.bindings id).map fun entry => (entry.1, entry.2.shown)

/-- The heap with every value changed that is bound in it. -/
def mapValues (f : Value → Value) (h : Heap) : Heap :=
  ⟨h.scopes.map fun scope => { scope with bindings := scope.bindings.map (Prod.map id f) }⟩

variable (f : Value → Value) (h : Heap) (scope : ScopeId)

@[simp] theorem size_mapValues : (h.mapValues f).size = h.size := by
  simp [size, mapValues]

@[simp] theorem outer?_mapValues : (h.mapValues f).outer? scope = h.outer? scope := by
  simp only [outer?, mapValues, Array.getElem?_map]
  cases h.scopes[scope]? <;> rfl

@[simp] theorem bindings_mapValues :
    (h.mapValues f).bindings scope = (h.bindings scope).map (Prod.map id f) := by
  simp only [bindings, mapValues, Array.getElem?_map]
  cases h.scopes[scope]? <;> rfl

end Heap

namespace Evaluation

/-- All scopes show the same bindings. -/
def SameBindings (s s' : State) : Prop := ∀ id, s.heap.shown id = s'.heap.shown id

/-- The results and all bindings look the same. -/
def LookAlike (r : Option Value) (s : State) (r' : Option Value) (s' : State) : Prop :=
  r.map Value.shown = r'.map Value.shown ∧ SameBindings s s'

/-- Tokens without their places. -/
def Renaming.withoutPlaces : Renaming := ⟨id, strictMono_id, Token.unplaced, fun _ => .blank⟩

end Evaluation

/-- A value without the places of its tokens. -/
def Value.unplaced (v : Value) : Value := Evaluation.Renaming.withoutPlaces.value v

theorem Value.inspect_unplaced : ∀ v : Value, v.unplaced.inspect = v.inspect
  | .ret inner => inspect_unplaced inner
  | .function params body scope => by
      have hnames : (params.map (Ident.relabel Token.unplaced)).map Ident.name =
          params.map Ident.name := by
        simp [Ident.relabel]
      have hbody : (body.relabel Token.unplaced fun _ => .blank).render = body.render :=
        Block.render_relabel _ _ body
      simp only [unplaced, Evaluation.Renaming.value, Evaluation.Renaming.withoutPlaces,
        Value.inspect, renderParams, hnames, hbody]
  | .int _ => rfl
  | .bool _ _ => rfl
  | .null _ => rfl
  | .error _ => rfl

@[simp] theorem Value.shown_unplaced (v : Value) : v.unplaced.shown = v.shown :=
  congrArg₂ Prod.mk (Evaluation.Renaming.withoutPlaces.kind_value v) v.inspect_unplaced

/-- A heap without the places of the tokens in it. -/
def Heap.unplaced (h : Heap) : Heap := h.mapValues Value.unplaced

@[simp] theorem Heap.shown_unplaced (h : Heap) (id : ScopeId) :
    h.unplaced.shown id = h.shown id := by
  simp [Heap.shown, Heap.unplaced]

namespace Evaluation

/-- The results and the heaps are the same but for places. -/
def SameUnplaced (r : Option Value) (s : State) (r' : Option Value) (s' : State) : Prop :=
  r.map Value.unplaced = r'.map Value.unplaced ∧ s.heap.unplaced = s'.heap.unplaced

theorem SameUnplaced.lookAlike {r r' : Option Value} {s s' : State}
    (h : SameUnplaced r s r' s') : LookAlike r s r' s' := by
  refine ⟨?_, fun id => ?_⟩
  · have hshown : ∀ r : Option Value,
        (r.map Value.unplaced).map Value.shown = r.map Value.shown := by
      intro r
      rw [Option.map_map]
      exact congrArg (Option.map · r) (funext Value.shown_unplaced)
    rw [← hshown r, h.1, hshown r']
  · rw [← Heap.shown_unplaced, h.2, Heap.shown_unplaced]

namespace Renaming

/-- Every heap that can come about is found again without places. -/
theorem image_unplaced {h : Heap} (hreach : h.Reachable) :
    withoutPlaces.Image .lax h h.unplaced where
  ordered := hreach.ordered
  next k := by
    rw [Heap.unplaced, Heap.size_mapValues]
    rfl
  outer id := by
    rw [Heap.unplaced, Heap.outer?_mapValues]
    exact Option.map_id'.symm
  bindings id := by
    change List.Forall₂ _ (h.bindings id) (h.unplaced.bindings id)
    rw [Heap.unplaced, Heap.bindings_mapValues, List.forall₂_map_right_iff, List.forall₂_same]
    exact fun entry hentry => ⟨rfl, rfl, fits_lax_iff.mpr (hreach.known hentry)⟩

theorem Image.eq_unplaced {h h' : Heap} (himage : withoutPlaces.Image .lax h h') :
    h' = h.unplaced := by
  refine Heap.ext_scopes ?_ (fun id => ?_) fun id => ?_
  · rw [Heap.unplaced, Heap.size_mapValues]
    exact (Heap.Matches.apply_size himage).symm
  · rw [Heap.unplaced, Heap.outer?_mapValues]
    have houter : h'.outer? id = (h.outer? id).map _ := himage.outer id
    exact houter.trans Option.map_id'
  · have hbindings : List.Forall₂ _ (h.bindings id) (h'.bindings id) := himage.bindings id
    have heq : List.Forall₂ Eq (h.unplaced.bindings id) (h'.bindings id) := by
      rw [Heap.unplaced, Heap.bindings_mapValues, List.forall₂_map_left_iff]
      refine hbindings.imp fun entry entry' hentry => ?_
      obtain ⟨hname, hvalue, -⟩ := hentry
      exact Prod.ext hname.symm hvalue.symm
    rw [List.forall₂_eq_eq_eq] at heq
    exact heq.symm

end Renaming

theorem Outcome.Agree.common {α β γ : Type} {Q : α → State → γ → State → Prop}
    {Q' : β → State → γ → State → Prop} {R : α → State → β → State → Prop} {o : Outcome α}
    {o' : Outcome β} {third : Outcome γ} (h : o.Agree Q third) (h' : o'.Agree Q' third)
    (hR : ∀ a s b t c u, Q a s c u → Q' b t c u → R a s b t) : o.Agree R o' := by
  cases h with
  | done h =>
      cases h' with
      | done h' => exact .done (hR _ _ _ _ _ _ h h')
  | exhausted =>
      cases h' with
      | exhausted => exact .exhausted

theorem Outcome.Agree.exists_of_done {α β : Type} {Q : α → State → β → State → Prop} {a : α}
    {s : State} {o : Outcome β} (h : (Outcome.done a s).Agree Q o) :
    ∃ b t, o = .done b t ∧ Q a s b t := by
  cases h with
  | done h => exact ⟨_, _, rfl, h⟩

/-- In heaps that are the same but for places, the course of a program does not depend on places,
nor on what has been recorded before. -/
theorem evalProgram_sameUnplaced {p q : Program} (hpq : p.unplaced = q.unplaced) {h h' : Heap}
    (hreach : h.Reachable) (hreach' : h'.Reachable) (hheaps : h.unplaced = h'.unplaced)
    {scope : ScopeId} (hscope : scope < h.size) (bound : Nat) (events events' : List Event) :
    (evalProgram (eval bound) scope p ⟨h, events⟩).Agree SameUnplaced
      (evalProgram (eval bound) scope q ⟨h', events'⟩) := by
  have hscope' : scope < h'.size := by
    rwa [← Heap.size_mapValues Value.unplaced h', ← Heap.unplaced, ← hheaps, Heap.unplaced,
      Heap.size_mapValues]
  have hsimulates : ∀ (p : Program) {h : Heap} (_ : h.Reachable) (_ : scope < h.size)
      (events : List Event), _ := fun p h hreach hscope events =>
    Renaming.simulates_evalProgram (d := .lax) (Renaming.withoutPlaces.respects_eval bound)
      (p := p) trivial hscope ⟨h, events⟩ ⟨h.unplaced, []⟩ rfl (Renaming.image_unplaced hreach)
  have hp := hsimulates p hreach hscope events
  have hq := hsimulates q hreach' hscope' events'
  have hsame : p.relabel Renaming.withoutPlaces.token Renaming.withoutPlaces.start =
      q.relabel Renaming.withoutPlaces.token Renaming.withoutPlaces.start := hpq
  rw [hsame, hheaps] at hp
  refine hp.common hq ?_
  rintro r s r' s' third t ⟨hadvance, hr, -⟩ ⟨hadvance', hr', -⟩
  exact ⟨hr.symm.trans hr', hadvance.image.eq_unplaced.symm.trans hadvance'.image.eq_unplaced⟩

/-- The course of a program does not depend on places, nor on what has been recorded before. -/
theorem evalProgram_lookAlike {p q : Program} (hpq : p.unplaced = q.unplaced) {h : Heap}
    (hreach : h.Reachable) {scope : ScopeId} (hscope : scope < h.size) (bound : Nat)
    (events events' : List Event) :
    (evalProgram (eval bound) scope p ⟨h, events⟩).Agree LookAlike
      (evalProgram (eval bound) scope q ⟨h, events'⟩) :=
  (evalProgram_sameUnplaced hpq hreach hreach rfl hscope bound events events').mono
    fun _ _ _ _ hsame => hsame.lookAlike

end Evaluation

end Monkey

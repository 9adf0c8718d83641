import Monkey.Proofs.Evaluation.Nesting

/-!
# Evaluation writes only in its own scope

Whatever is evaluated in a scope, all scopes that were there before stay inside the same scopes,
and all of them but that one keep their bindings. In the scope itself only those names may be bound
anew that the node binds outside of its function literals. A call evaluates the body of the function
in a scope that it makes for that purpose, and so it leaves all scopes that were there before as
they are.

The invariant is about the heap at the beginning, so its world is a `Frame` that never changes.
A node may be evaluated in a scope that was made later, whatever it binds, or in the scope of the
frame if the frame has all names it binds.
-/

namespace Monkey

/-- The second heap has the scopes of the first one. These lie inside the same scopes as before, and
their bindings differ at most in `scope`, and there at most at the given names. -/
structure Heap.ChangesOnly (h h' : Heap) (scope : ScopeId) (names : Bytes → Prop) : Prop where
  size : h.size ≤ h'.size
  outer : ∀ id < h.size, h'.outer? id = h.outer? id
  others : ∀ id < h.size, id ≠ scope → h'.bindings id = h.bindings id
  own : scope < h.size → ∀ name, ¬ names name →
    (h'.bindings scope).get? name = (h.bindings scope).get? name

/-- A heap, and what may be changed in it. -/
structure Frame where
  heap : Heap
  scope : ScopeId
  names : Bytes → Prop

namespace Frame

variable {w : Frame} {h : Heap}

/-- The heap differs from that of the frame only in what may be changed. -/
def Keeps (w : Frame) (h : Heap) : Prop := w.heap.ChangesOnly h w.scope w.names

/-- The scope is a new one, or the node binds in it only what may be changed. -/
def Allows (w : Frame) (scope : ScopeId) (n : Node) : Prop :=
  w.heap.size ≤ scope ∨ (scope = w.scope ∧ ∀ name, n.Binds name → w.names name)

theorem keeps_self : w.Keeps w.heap where
  size := Nat.le_refl _
  outer _ _ := rfl
  others _ _ _ := rfl
  own _ _ _ := rfl

theorem Keeps.bind (hkeeps : w.Keeps h) {scope : ScopeId} {name : Bytes} (v : Value)
    (hallowed : w.heap.size ≤ scope ∨ (scope = w.scope ∧ w.names name)) :
    w.Keeps (h.bind scope name v) where
  size := by rw [Heap.size_bind]; exact hkeeps.size
  outer id hid := by rw [Heap.outer?_bind, hkeeps.outer id hid]
  others id hid hne := by
    have hne' : id ≠ scope := by
      rintro rfl
      rcases hallowed with hnew | ⟨hown, -⟩
      · exact absurd hid (Nat.not_lt_of_le hnew)
      · exact hne hown
    rw [Heap.bindings_bind_of_ne _ _ _ _ _ hne', hkeeps.others id hid hne]
  own hscope other hother := by
    have hold := hkeeps.own hscope other hother
    rcases hallowed with hnew | ⟨rfl, hname⟩
    · have hne : w.scope ≠ scope := Nat.ne_of_lt (Nat.lt_of_lt_of_le hscope hnew)
      rw [Heap.bindings_bind_of_ne _ _ _ _ _ hne, hold]
    · have hne : other ≠ name := by
        rintro rfl
        exact hother hname
      have hlt : w.scope < h.size := Nat.lt_of_lt_of_le hscope hkeeps.size
      rw [Heap.bindings_bind_self _ _ _ _ hlt, Bindings.get?_insert_of_ne hne, hold]

/-- A new scope, and what is bound in it, is nothing that was there before. -/
theorem Keeps.enclose (hkeeps : w.Keeps h) (outer : ScopeId) (pairs : List (Bytes × Value)) :
    w.Keeps ((h.alloc (some outer)).bindAll h.size pairs) := by
  have hne : ∀ {id}, id < w.heap.size → id ≠ h.size :=
    fun hid => Nat.ne_of_lt (Nat.lt_of_lt_of_le hid hkeeps.size)
  have hbindings : ∀ {id}, id < w.heap.size →
      ((h.alloc (some outer)).bindAll h.size pairs).bindings id = h.bindings id := by
    intro id hid
    rw [Heap.bindings_bindAll_of_ne _ _ _ _ (hne hid), Heap.bindings_alloc]
  exact {
    size := by
      rw [Heap.size_bindAll, Heap.size_alloc]
      exact Nat.le_succ_of_le hkeeps.size
    outer := by
      intro id hid
      rw [Heap.outer?_bindAll, Heap.outer?_alloc_of_ne _ _ _ (hne hid), hkeeps.outer id hid]
    others := by
      intro id hid hscope
      rw [hbindings hid, hkeeps.others id hid hscope]
    own := by
      intro hscope name hname
      rw [hbindings hscope, hkeeps.own hscope name hname] }

end Frame

namespace Evaluation

/-- What may be changed stays the same for a whole evaluation. -/
def framing : Invariant Frame where
  grows w w' := w = w'
  heap := Frame.Keeps
  value _ _ := True
  node := Frame.Allows
  refl _ := rfl
  trans := Eq.trans
  value_mono _ _ := trivial
  node_mono hw hn := hw ▸ hn
  int _ _ := trivial
  ofBool _ _ := trivial
  null _ := trivial
  error _ _ := trivial
  ret := Iff.rfl
  operands := by
    rintro w scope n m hn hm
    exact hn.imp_right fun ⟨hown, hnames⟩ => ⟨hown, fun name h => hnames name (h.of_operand hm)⟩
  lookup _ _ := trivial
  made _ := trivial
  bound := by
    rintro w h scope token id e v hn - hkeeps
    have hallowed := hn.imp_right fun ⟨hown, hnames⟩ =>
      And.intro hown (hnames id.name ⟨token, id, e, .refl, rfl⟩)
    exact ⟨w, rfl, hkeeps.bind v hallowed⟩
  called := by
    rintro w h params body scope args - - - hkeeps
    exact ⟨w, rfl, hkeeps.enclose scope _, .inl hkeeps.size⟩

section Runs

variable {bound : Nat} {s s' : State} {r : Option Value}

theorem changesOnly_of_eval {scope : ScopeId} {n : Node}
    (hrun : eval bound scope n s = .done r s') : s.heap.ChangesOnly s'.heap scope n.Binds := by
  let w : Frame := ⟨s.heap, scope, n.Binds⟩
  have hn : w.Allows scope n := .inr ⟨rfl, fun _ h => h⟩
  obtain ⟨_, rfl, hkeeps, -⟩ :=
    @Invariant.respects_eval _ framing bound w scope n hn s Frame.keeps_self r s' hrun
  exact hkeeps

/-- What a call changes is in the first new scope, which is none of those that were there. -/
theorem changesOnly_of_apply {callee : Value} {args : List Value}
    (hrun : apply (eval bound) callee args s = .done r s') :
    s.heap.ChangesOnly s'.heap s.heap.size fun _ => False := by
  let w : Frame := ⟨s.heap, s.heap.size, fun _ => False⟩
  have happly := @Invariant.keeps_apply _ framing w (eval bound) (Invariant.respects_eval bound)
    callee args trivial (fun _ _ => trivial)
  obtain ⟨_, rfl, hkeeps, -⟩ := happly s Frame.keeps_self r s' hrun
  exact hkeeps

end Runs

/-- An evaluation changes only its own scope, and there only names that the node binds; and
applying a value to arguments changes no scope at all. -/
theorem eval_changesOnly (bound : Nat) (s s' : State) (r : Option Value) :
    (∀ scope n, eval bound scope n s = .done r s' →
      s.heap.ChangesOnly s'.heap scope n.Binds) ∧
    ∀ callee args, apply (eval bound) callee args s = .done r s' →
      ∀ id < s.heap.size, s'.heap.outer? id = s.heap.outer? id ∧
        s'.heap.bindings id = s.heap.bindings id := by
  refine ⟨fun scope n hrun => changesOnly_of_eval hrun, fun callee args hrun id hid => ?_⟩
  have hchanges := changesOnly_of_apply hrun
  exact ⟨hchanges.outer id hid, hchanges.others id hid (Nat.ne_of_lt hid)⟩

/-- A block binds `y` in the global scope, and the function called in it binds a `y` of its own and
its parameter anew. -/
theorem eval_changesOnly_shadowing :
    let p := (Grammar.parseSource (utf8 ("let f = fn(x) \x7b let y = x; let x = 0; y \x7d; " ++
      "if (true) \x7b let y = f(2) \x7d")) false).program
    let x : Ident := ⟨⟨.ident, utf8 "x", .start⟩, utf8 "x"⟩
    let f : Value := .function [x] (.mk x.token [.bind x.token x (.int x.token 0)]) globalScope
    let s : State := ⟨(Heap.empty.alloc none).bind globalScope x.name (.int 1), []⟩
    (∃ r s', eval 20 globalScope (.program p) s = .done r s' ∧
      s.heap.ChangesOnly s'.heap globalScope (Node.program p).Binds) ∧
    ∃ r s', apply (eval 20) f [.int 2] s = .done r s' ∧
      s'.heap.bindings globalScope = s.heap.bindings globalScope := by
  intro p x f s
  have heval : (eval 20 globalScope (.program p) s).isDone = true := by decide +kernel
  have happly : (apply (eval 20) f [.int 2] s).isDone = true := by decide +kernel
  obtain ⟨r, s₁, heval⟩ := Outcome.exists_of_isDone heval
  obtain ⟨v, s₂, happly⟩ := Outcome.exists_of_isDone happly
  refine ⟨⟨r, s₁, heval, (eval_changesOnly 20 s s₁ r).1 globalScope (.program p) heval⟩, ?_⟩
  exact ⟨v, s₂, happly, ((eval_changesOnly 20 s s₂ v).2 f [.int 2] happly globalScope
    (by decide)).2⟩

end Evaluation

end Monkey

import Mathlib.Data.List.Forall2
import Mathlib.Logic.Relation
import Monkey.Interpreter.Basic
import Monkey.Proofs.Evaluation.Invariant
import Monkey.Proofs.Scope.Heap

/-!
# Scopes lie inside each other as function literals do

A function literal lies inside a number of others, and a function that is made from it keeps a
chain of scopes. There is one scope in that chain for each of the literals around, in the same
order, and after these the global scope. The scope for a literal binds its parameters, and apart
from them only names that the body of the literal binds itself.

The invariant gives each scope the literals around it. A call puts the literal that is called in
front of those of the scope in which the function was made, wherever the call stands.
-/

namespace Monkey

/-- What a function is made from. -/
structure Literal where
  params : List Ident
  body : Block

namespace Node

/-- The second node is part of the first, and lies in none of the function literals of it. -/
def Contains : Node → Node → Prop := Relation.ReflTransGen fun n m => m ∈ n.operands

def HasLiteral (n : Node) (l : Literal) : Prop :=
  ∃ token, n.Contains (.expr (.function token l.params l.body))

/-- The node binds the name outside of its function literals. -/
def Binds (n : Node) (name : Bytes) : Prop :=
  ∃ token id value, n.Contains (.stmt (.bind token id value)) ∧ id.name = name

theorem HasLiteral.of_operand {n m : Node} {l : Literal} (hm : m ∈ n.operands)
    (h : m.HasLiteral l) : n.HasLiteral l := by
  obtain ⟨token, hcontains⟩ := h
  exact ⟨token, .head hm hcontains⟩

theorem Binds.of_operand {n m : Node} {name : Bytes} (hm : m ∈ n.operands) (h : m.Binds name) :
    n.Binds name := by
  obtain ⟨token, id, value, hcontains, hname⟩ := h
  exact ⟨token, id, value, .head hm hcontains, hname⟩

end Node

/-- The body of a literal, as it is evaluated. -/
def Literal.node (l : Literal) : Node := .stmt (.block l.body)

/-- The literal `l` lies in the program, inside the literals `around`, the innermost of which
comes first. -/
inductive Nested (p : Program) : Literal → List Literal → Prop where
  | outermost {l : Literal} (h : (Node.program p).HasLiteral l) : Nested p l []
  | inside {l outer : Literal} {around : List Literal} (h : outer.node.HasLiteral l)
      (more : Nested p outer around) : Nested p l (outer :: around)

/-- The scope binds the parameters of the literal, and otherwise only what its body binds. -/
def IsFrame (h : Heap) (id : ScopeId) (l : Literal) : Prop :=
  (∀ param ∈ l.params, param.name ∈ h.names id) ∧
    ∀ name ∈ h.names id, name ∈ l.params.map Ident.name ∨ l.node.Binds name

/-- The chain of a scope has one scope for each of the literals around, and the global scope after
them. -/
def Mirrors (h : Heap) (id : ScopeId) (around : List Literal) : Prop :=
  ∃ frames, h.chain id = frames ++ [globalScope] ∧ List.Forall₂ (IsFrame h) frames around

/-- The literals around each scope. -/
abbrev Layout := List (List Literal)

section Layout

variable {S : Program → Prop} {w w' : Layout} {h : Heap}

/-- The literal lies in one of the programs of `S`, inside the literals around the scope. -/
def LiesAt (S : Program → Prop) (w : Layout) (scope : ScopeId) (l : Literal) : Prop :=
  ∃ around p, w[scope]? = some around ∧ S p ∧ Nested p l around

/-- Every function that the value holds was made from a literal around which there are the same
literals as around the scope of the function. -/
def Placed (S : Program → Prop) (w : Layout) : Value → Prop
  | .ret inner => Placed S w inner
  | .function params body scope => LiesAt S w scope ⟨params, body⟩
  | _ => True

/-- The heap is laid out as `w` says. -/
structure LaidOut (S : Program → Prop) (w : Layout) (h : Heap) : Prop where
  size : w.length = h.size
  root : w[globalScope]? = some []
  root_outer : h.outer? globalScope = none
  root_unique : ∀ {id}, w[id]? = some [] → id = globalScope
  outer : ∀ {id l around}, w[id]? = some (l :: around) →
    ∃ o, o < id ∧ h.outer? id = some o ∧ w[o]? = some around
  frame : ∀ {id l around}, w[id]? = some (l :: around) → IsFrame h id l
  placed : ∀ {id entry}, entry ∈ h.bindings id → Placed S w entry.2

theorem getElem?_of_grows {scope : ScopeId} {around : List Literal} (hw : w <+: w')
    (hscope : w[scope]? = some around) : w'[scope]? = some around := by
  obtain ⟨more, rfl⟩ := hw
  rw [List.getElem?_append_left (List.getElem?_eq_some_iff.mp hscope).1, hscope]

theorem Placed.mono {S' : Program → Prop} (hw : w <+: w') (hS : ∀ p, S p → S' p) :
    ∀ {v : Value}, Placed S w v → Placed S' w' v
  | .ret inner, hv => @Placed.mono S' hw hS inner hv
  | .function _ _ _, ⟨around, p, hscope, hp, hnested⟩ =>
      ⟨around, p, getElem?_of_grows hw hscope, hS p hp, hnested⟩
  | .int _, _ => trivial
  | .bool _ _, _ => trivial
  | .null _, _ => trivial
  | .error _, _ => trivial

/-- The chain of a scope follows the literals around it. -/
theorem LaidOut.chainWithin_eq (hlaid : LaidOut S w h) {around : List Literal} {id : ScopeId}
    (hid : w[id]? = some around) {bound : Nat} (hbound : id < bound) :
    ∃ frames, h.chainWithin bound id = frames ++ [globalScope] ∧
      List.Forall₂ (IsFrame h) frames around := by
  induction around generalizing id bound with
  | nil =>
      obtain rfl := hlaid.root_unique hid
      obtain ⟨bound, rfl⟩ := Nat.exists_eq_succ_of_ne_zero (Nat.ne_of_gt hbound)
      refine ⟨[], ?_, .nil⟩
      simp [Heap.chainWithin, hlaid.root_outer]
  | cons l around ih =>
      obtain ⟨o, hlt, houter, ho⟩ := hlaid.outer hid
      obtain ⟨bound, rfl⟩ := Nat.exists_eq_succ_of_ne_zero (Nat.ne_of_gt (Nat.zero_lt_of_lt hbound))
      obtain ⟨frames, hchain, hframes⟩ := ih ho (Nat.lt_of_lt_of_le hlt (Nat.le_of_lt_succ hbound))
      refine ⟨id :: frames, ?_, .cons (hlaid.frame hid) hframes⟩
      simp [Heap.chainWithin, houter, hchain]

/-- A scope with other bindings is the frame of a literal as long as the names in it are the
same. -/
theorem IsFrame.of_bindings_eq {h' : Heap} {id : ScopeId} {l : Literal} (hframe : IsFrame h id l)
    (heq : h'.bindings id = h.bindings id) : IsFrame h' id l := by
  rw [IsFrame, Heap.names, heq]
  exact hframe

/-- Binding a name in a scope, if the body of the innermost literal around it binds that name. -/
theorem LaidOut.bind (hlaid : LaidOut S w h) {scope : ScopeId} {around : List Literal}
    {name : Bytes} {v : Value} (hscope : w[scope]? = some around)
    (hname : ∀ l ∈ around.head?, l.node.Binds name) (hv : Placed S w v) :
    LaidOut S w (h.bind scope name v) where
  size := by rw [Heap.size_bind, hlaid.size]
  root := hlaid.root
  root_outer := by rw [Heap.outer?_bind, hlaid.root_outer]
  root_unique := hlaid.root_unique
  outer hid := by
    rw [Heap.outer?_bind]
    exact hlaid.outer hid
  frame := by
    intro id l around' hid
    have hframe := hlaid.frame hid
    by_cases heq : id = scope
    · subst heq
      obtain rfl : l :: around' = around := Option.some.inj (hid.symm.trans hscope)
      have hlt : id < h.size := hlaid.size ▸ (List.getElem?_eq_some_iff.mp hscope).1
      have hnames : ∀ other, other ∈ (h.bind id name v).names id ↔
          other = name ∨ other ∈ h.names id := by
        intro other
        rw [Heap.names, Heap.bindings_bind_self _ _ _ _ hlt, Bindings.mem_names_insert, Heap.names]
      refine ⟨fun param hparam => (hnames _).mpr (.inr (hframe.1 param hparam)), ?_⟩
      intro other hother
      rcases (hnames other).mp hother with rfl | hold
      · exact .inr (hname l rfl)
      · exact hframe.2 other hold
    · exact hframe.of_bindings_eq (Heap.bindings_bind_of_ne _ _ _ _ _ heq)
  placed := by
    intro id entry hentry
    by_cases heq : id = scope
    · subst heq
      have hlt : id < h.size := hlaid.size ▸ (List.getElem?_eq_some_iff.mp hscope).1
      rw [Heap.bindings_bind_self _ _ _ _ hlt] at hentry
      rcases Bindings.mem_of_mem_insert hentry with rfl | hold
      · exact hv
      · exact hlaid.placed hold
    · rw [Heap.bindings_bind_of_ne _ _ _ _ _ heq] at hentry
      exact hlaid.placed hentry

theorem getElem?_concat {x y : List Literal} {id : ScopeId} (hid : (w ++ [x])[id]? = some y) :
    w[id]? = some y ∨ (id = w.length ∧ y = x) := by
  by_cases hlt : id < w.length
  · rw [List.getElem?_append_left hlt] at hid
    exact .inl hid
  · rw [List.getElem?_append_right (Nat.le_of_not_lt hlt), List.getElem?_singleton] at hid
    split at hid
    · next hzero =>
        have heq := Nat.le_antisymm (Nat.le_of_sub_eq_zero hzero) (Nat.le_of_not_lt hlt)
        exact .inr ⟨heq, (Option.some.inj hid).symm⟩
    · cases hid

/-- Calling a function makes a frame for its literal. -/
theorem LaidOut.enclose (hlaid : LaidOut S w h) {scope : ScopeId} {around : List Literal}
    {l : Literal} {args : List Value} (hscope : w[scope]? = some around)
    (hargs : ∀ v ∈ args, Placed S w v) (hlength : args.length = l.params.length) :
    LaidOut S (w ++ [l :: around])
      ((h.alloc (some scope)).bindAll h.size ((l.params.map Ident.name).zip args)) := by
  have hgrows : w <+: w ++ [l :: around] := List.prefix_append w _
  have hlt : ∀ {id around'}, w[id]? = some around' → id < h.size :=
    fun hid => hlaid.size ▸ (List.getElem?_eq_some_iff.mp hid).1
  have houter : ∀ {id around'}, w[id]? = some around' →
      ((h.alloc (some scope)).bindAll h.size ((l.params.map Ident.name).zip args)).outer? id =
        h.outer? id := by
    intro id around' hid
    rw [Heap.outer?_bindAll, Heap.outer?_alloc_of_ne _ _ _ (Nat.ne_of_lt (hlt hid))]
  have hbindings : ∀ {id}, id ≠ h.size →
      ((h.alloc (some scope)).bindAll h.size ((l.params.map Ident.name).zip args)).bindings id =
        h.bindings id := by
    intro id hne
    rw [Heap.bindings_bindAll_of_ne _ _ _ _ hne, Heap.bindings_alloc]
  exact {
    size := by simp [hlaid.size]
    root := getElem?_of_grows hgrows hlaid.root
    root_outer := by rw [houter hlaid.root, hlaid.root_outer]
    root_unique := by
      intro id hid
      rcases getElem?_concat hid with hold | ⟨-, hnew⟩
      · exact hlaid.root_unique hold
      · cases hnew
    outer := by
      intro id l' around' hid
      rcases getElem?_concat hid with hold | ⟨rfl, hnew⟩
      · obtain ⟨o, holt, ho, hwo⟩ := hlaid.outer hold
        exact ⟨o, holt, (houter hold).trans ho, getElem?_of_grows hgrows hwo⟩
      · cases hnew
        refine ⟨scope, hlaid.size ▸ hlt hscope, ?_, getElem?_of_grows hgrows hscope⟩
        rw [Heap.outer?_bindAll, hlaid.size, Heap.outer?_alloc_self]
    frame := by
      intro id l' around' hid
      rcases getElem?_concat hid with hold | ⟨rfl, hnew⟩
      · exact (hlaid.frame hold).of_bindings_eq (hbindings (Nat.ne_of_lt (hlt hold)))
      · cases hnew
        have hnames := fun name => @Heap.mem_names_enclose h scope (l.params.map Ident.name) args
          (by simpa using hlength) name
        rw [hlaid.size]
        refine ⟨fun param hparam => (hnames _).mpr (List.mem_map_of_mem hparam), ?_⟩
        exact fun name hname => .inl ((hnames name).mp hname)
    placed := by
      intro id entry hentry
      by_cases heq : id = h.size
      · subst heq
        rcases Heap.mem_of_mem_bindAll (by simp) hentry with hpair | hold
        · exact (hargs _ (List.of_mem_zip hpair).2).mono hgrows fun _ hp => hp
        · rw [Heap.bindings_alloc] at hold
          exact (hlaid.placed hold).mono hgrows fun _ hp => hp
      · rw [hbindings heq] at hentry
        exact (hlaid.placed hentry).mono hgrows fun _ hp => hp }

/-- The function literals of the node lie inside the literals around the scope, and the body of the
innermost of these binds every name that the node binds. -/
def FitsIn (S : Program → Prop) (w : Layout) (scope : ScopeId) (n : Node) : Prop :=
  ∃ around, w[scope]? = some around ∧
    (∀ l, n.HasLiteral l → ∃ p, S p ∧ Nested p l around) ∧
    ∀ outer ∈ around.head?, ∀ name, n.Binds name → outer.node.Binds name

/-- The body of a literal fits into a frame of it. -/
theorem fitsIn_body {l : Literal} {around : List Literal} {p : Program} {scope : ScopeId}
    (hscope : w[scope]? = some (l :: around)) (hp : S p) (hl : Nested p l around) :
    FitsIn S w scope l.node := by
  refine ⟨l :: around, hscope, fun inner hinner => ⟨p, hp, .inside hinner hl⟩, ?_⟩
  rintro _ ⟨⟩ name hname
  exact hname

end Layout

open Evaluation in
/-- Scopes follow the literals of the programs of `S`. -/
def nesting (S : Program → Prop) : Invariant Layout where
  grows w w' := w <+: w'
  heap := LaidOut S
  value := Placed S
  node := FitsIn S
  refl _ := List.prefix_rfl
  trans := List.IsPrefix.trans
  value_mono hw hv := hv.mono hw fun _ hp => hp
  node_mono := by
    rintro w w' scope n hw ⟨around, hscope, hfits⟩
    exact ⟨around, getElem?_of_grows hw hscope, hfits⟩
  int _ _ := trivial
  ofBool _ _ := trivial
  null _ := trivial
  error _ _ := trivial
  ret := Iff.rfl
  operands := by
    rintro w scope n m ⟨around, hscope, hliterals, hbinds⟩ hm
    exact ⟨around, hscope, fun l hl => hliterals l (hl.of_operand hm),
      fun outer houter name hname => hbinds outer houter name (hname.of_operand hm)⟩
  lookup hlaid hv := by
    obtain ⟨scope, hmem⟩ := Heap.exists_mem_of_lookup? hv
    exact hlaid.placed hmem
  made := by
    rintro w scope token params body ⟨around, hscope, hliterals, -⟩
    obtain ⟨p, hp, hnested⟩ := hliterals ⟨params, body⟩ ⟨token, .refl⟩
    exact ⟨around, p, hscope, hp, hnested⟩
  bound := by
    rintro w h scope token name e v ⟨around, hscope, -, hbinds⟩ hv hlaid
    have hname : ∀ l ∈ around.head?, l.node.Binds name.name :=
      fun l hl => hbinds l hl _ ⟨token, name, e, .refl, rfl⟩
    exact ⟨w, List.prefix_rfl, hlaid.bind hscope hname hv⟩
  called := by
    rintro w h params body scope args ⟨around, p, hscope, hp, hnested⟩ hargs hlength hlaid
    refine ⟨w ++ [⟨params, body⟩ :: around], List.prefix_append w _,
      @LaidOut.enclose S w h hlaid scope around ⟨params, body⟩ args hscope hargs hlength, ?_⟩
    refine @fitsIn_body S _ ⟨params, body⟩ around p h.size ?_ hp hnested
    rw [← hlaid.size]
    exact List.getElem?_concat_length

end Monkey

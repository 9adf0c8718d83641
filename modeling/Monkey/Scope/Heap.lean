import Monkey.Value.Basic

/-!
# Scopes

A scope binds names to values and may lie inside another one. All scopes are kept in a heap and
are named by their number there, so that several functions can share a scope and see what is bound
in it later. A scope is made inside one that exists already, and that never changes: along a chain
of scopes the numbers decrease, and `chain` follows it with that many steps at hand.

The bindings of one scope are kept in the order of their names, byte by byte, each name once.
-/

namespace Monkey

/-- The bindings of a scope, in increasing order of names. -/
abbrev Bindings := List (Bytes × Value)

namespace Bindings

/-- Binds a name, in place of what it was bound to before. -/
def insert (name : Bytes) (value : Value) : Bindings → Bindings
  | [] => [(name, value)]
  | (key, old) :: rest =>
    if name < key then (name, value) :: (key, old) :: rest
    else if name = key then (name, value) :: rest
    else (key, old) :: insert name value rest

def get? (bindings : Bindings) (name : Bytes) : Option Value := bindings.lookup name

def names (bindings : Bindings) : List Bytes := bindings.map Prod.fst

end Bindings

structure Scope where
  bindings : Bindings
  outer : Option ScopeId

structure Heap where
  scopes : Array Scope

namespace Heap

def empty : Heap := ⟨#[]⟩

def size (h : Heap) : Nat := h.scopes.size

/-- Adds a scope without bindings; its number is the size of the heap before. -/
def alloc (h : Heap) (outer : Option ScopeId) : Heap := ⟨h.scopes.push ⟨[], outer⟩⟩

def bind (h : Heap) (id : ScopeId) (name : Bytes) (value : Value) : Heap :=
  ⟨h.scopes.modify id fun scope => { scope with bindings := scope.bindings.insert name value }⟩

/-- Binds names one after the other. -/
def bindAll (h : Heap) (id : ScopeId) (pairs : List (Bytes × Value)) : Heap :=
  pairs.foldl (fun h pair => h.bind id pair.1 pair.2) h

def bindings (h : Heap) (id : ScopeId) : Bindings :=
  match h.scopes[id]? with
  | some scope => scope.bindings
  | none => []

def outer? (h : Heap) (id : ScopeId) : Option ScopeId :=
  h.scopes[id]?.bind Scope.outer

/-- At most `bound` scopes, from `id` outwards. -/
def chainWithin (h : Heap) : Nat → ScopeId → List ScopeId
  | 0, _ => []
  | bound + 1, id =>
    id :: match h.outer? id with
      | some outer => chainWithin h bound outer
      | none => []

/-- A scope and the ones around it, from the inside out. -/
def chain (h : Heap) (id : ScopeId) : List ScopeId := h.chainWithin (id + 1) id

/-- What a name is bound to in the innermost scope that binds it. -/
def lookup? (h : Heap) (id : ScopeId) (name : Bytes) : Option Value :=
  (h.chain id).findSome? fun i => (h.bindings i).get? name

/-- The names bound in a scope itself. -/
def names (h : Heap) (id : ScopeId) : List Bytes := (h.bindings id).names

end Heap

end Monkey

import Monkey.Proofs.Evaluation.Nesting
import Monkey.Proofs.Interpreter.Session

/-!
# Functions see the scopes of the literals around them

In a session every function that is bound to a name in any scope, or was the value of a source,
was made from a function literal of one of the sources. Its chain of scopes has one frame for each
literal around that one and ends in the global scope, however it was called and handed around.
-/

namespace Monkey

/-- The value without the returns around it. -/
def Value.payload : Value → Value
  | .ret inner => inner.payload
  | v => v

theorem Placed.liesAt {S : Program → Prop} {w : Layout} {params : List Ident} {body : Block}
    {scope : ScopeId} : ∀ {v : Value}, Placed S w v → v.payload = .function params body scope →
      LiesAt S w scope ⟨params, body⟩
  | .ret inner, hv, heq => @Placed.liesAt S w params body scope inner hv heq
  | .function _ _ _, hv, heq => by
      cases heq
      exact hv

/-- More programs do no harm. -/
theorem LaidOut.mono {S S' : Program → Prop} {w : Layout} {h : Heap} (hlaid : LaidOut S w h)
    (hS : ∀ p, S p → S' p) : LaidOut S' w h :=
  { hlaid with placed := fun hentry => (hlaid.placed hentry).mono List.prefix_rfl hS }

namespace Interpreter

/-- The heap of an interpreter that has evaluated nothing has the global scope only. -/
theorem laidOut_fresh (S : Program → Prop) (settings : Settings) (bound : Nat) :
    LaidOut S [[]] (fresh settings bound).heap where
  size := rfl
  root := rfl
  root_outer := rfl
  root_unique := by
    intro id hid
    exact Nat.lt_one_iff.mp (List.getElem?_eq_some_iff.mp hid).1
  outer := by
    intro id l around hid
    simp [List.getElem?_singleton] at hid
  frame := by
    intro id l around hid
    simp [List.getElem?_singleton] at hid
  placed := by
    intro id entry hentry
    have hempty : (fresh settings bound).heap.bindings id = [] := Heap.bindings_alloc _ _ _
    rw [hempty] at hentry
    cases hentry

/-- The invariant of a session. -/
structure Laid (i : Interpreter) (sources : List Bytes) (values : List Value) (w : Layout) :
    Prop where
  cache : i.CacheSound
  heap : LaidOut (Evaluated i.tracing sources) w i.heap
  values : ∀ v ∈ values, Placed (Evaluated i.tracing sources) w v

/-- A program fits into the global scope. -/
theorem fitsIn_program {S : Program → Prop} {w : Layout} {p : Program}
    (hroot : w[globalScope]? = some []) (hp : S p) : FitsIn S w globalScope (.program p) :=
  ⟨[], hroot, fun _ hl => ⟨p, hp, .outermost hl⟩, by simp⟩

theorem Laid.eval {i i' : Interpreter} {sources : List Bytes} {values : List Value} {w : Layout}
    {source : Bytes} {answer : Except (List Grammar.Fault) (Option Value)}
    (h : i.Laid sources values w) (heval : i.eval source = some (answer, i')) :
    ∃ w', i'.Laid (source :: sources) (answerValues answer ++ values) w' := by
  obtain ⟨htracing, hcache, hcases⟩ := eval_cases h.cache heval
  have hmore : ∀ p, Evaluated i.tracing sources p → Evaluated i.tracing (source :: sources) p :=
    fun p ⟨old, hold, hreads⟩ => ⟨old, .tail _ hold, hreads⟩
  have hlaid := h.heap.mono hmore
  rcases hcases with ⟨faults, rfl, hheap⟩ | ⟨p, r, s, rfl, hreads, hrun, hheap⟩
  · refine ⟨w, hcache, ?_, ?_⟩
    · rwa [htracing, hheap]
    · intro v hv
      rw [htracing]
      exact (h.values v hv).mono List.prefix_rfl hmore
  · have hp : Evaluated i.tracing (source :: sources) p := ⟨source, .head _, hreads⟩
    have hfits := fitsIn_program hlaid.root hp
    obtain ⟨w', hgrows, hlaid', hresult⟩ :=
      @Evaluation.Invariant.respects_eval _ (nesting (Evaluated i.tracing (source :: sources)))
        i.bound _ _ _ hfits ⟨i.heap, []⟩ hlaid r s hrun
    refine ⟨w', hcache, ?_, ?_⟩
    · rw [htracing, hheap]
      exact hlaid'
    · intro v hv
      rw [htracing]
      rcases List.mem_append.mp hv with hnew | hold
      · refine hresult v ?_
        cases r with
        | none => cases hnew
        | some r =>
            simp only [answerValues, List.mem_singleton] at hnew
            simp [hnew]
      · exact (h.values v hold).mono hgrows hmore

theorem Session.exists_laid {settings : Settings} {bound : Nat} {i : Interpreter}
    {sources : List Bytes} {values : List Value}
    (h : Session (fresh settings bound) i sources values) : ∃ w, i.Laid sources values w := by
  induction h with
  | start => exact ⟨[[]], cacheSound_fresh settings bound, laidOut_fresh _ settings bound, by simp⟩
  | eval _ heval ih =>
      obtain ⟨w, hlaid⟩ := ih
      exact hlaid.eval heval

/-- A function that is held anywhere in a session was made from a literal of a source, and its
chain of scopes mirrors the literals around that one. -/
theorem Session.function_mirrors {settings : Settings} {bound : Nat} {i : Interpreter}
    {sources : List Bytes} {values : List Value}
    (h : Session (fresh settings bound) i sources values) {v : Value}
    (hv : v ∈ values ∨ ∃ scope name, (name, v) ∈ i.heap.bindings scope) {params : List Ident}
    {body : Block} {scope : ScopeId} (hfunction : v.payload = .function params body scope) :
    ∃ source ∈ sources, ∃ p around, ReadsAs i.tracing source p ∧ Nested p ⟨params, body⟩ around ∧
      (i.heap.chain scope).length = around.length + 1 ∧ Mirrors i.heap scope around := by
  obtain ⟨w, hlaid⟩ := h.exists_laid
  have hplaced : Placed (Evaluated i.tracing sources) w v := by
    rcases hv with hv | ⟨scope', name, hv⟩
    · exact hlaid.values v hv
    · exact hlaid.heap.placed hv
  obtain ⟨around, p, hscope, ⟨source, hsource, hreads⟩, hnested⟩ := hplaced.liesAt hfunction
  obtain ⟨frames, hchain, hframes⟩ := hlaid.heap.chainWithin_eq hscope (Nat.lt_succ_self scope)
  refine ⟨source, hsource, p, around, hreads, hnested, ?_, frames, hchain, hframes⟩
  have hlength : (i.heap.chain scope).length = (frames ++ [globalScope]).length :=
    congrArg List.length hchain
  rw [hlength, List.length_append, hframes.length_eq]
  rfl

/-- The scope of a function. -/
def functionScope? : Value → Option ScopeId
  | .function _ _ scope => some scope
  | _ => none

/-- A function that calls itself twice before it returns another one, which has a single scope
before the global one all the same. -/
theorem Session.function_mirrors_closure :
    let source := utf8 ("let f = fn(x) \x7b if (x > 0) \x7b return f(x - 1); \x7d " ++
      "let y = x; fn(z) \x7b y + z \x7d \x7d; f(2)")
    ∃ i values params body scope, Session (fresh .defaults 100) i [source] values ∧
      Value.function params body scope ∈ values ∧
      ∃ p around, Nested p ⟨params, body⟩ around ∧ around.length = 1 ∧
        Mirrors i.heap scope around := by
  intro source
  have hrun : (((fresh .defaults 100).eval source).map fun a =>
      ((answerValues a.1).filterMap functionScope?).map fun scope =>
        (a.2.heap.chain scope).length) = some [2] := by decide +kernel
  obtain ⟨⟨answer, i⟩, heval, hlengths⟩ := Option.map_eq_some_iff.mp hrun
  have hsession : Session (fresh .defaults 100) i [source] (answerValues answer ++ []) :=
    .eval .start heval
  obtain ⟨scope, hscope, hlength⟩ := List.mem_map.mp (hlengths ▸ List.mem_singleton_self 2)
  obtain ⟨v, hv, hvscope⟩ := List.mem_filterMap.mp hscope
  have hmem : v ∈ answerValues answer ++ [] := by simpa using hv
  cases v with
  | function params body scope' =>
      cases hvscope
      obtain ⟨_, -, p, around, -, hnested, hchain, hmirrors⟩ :=
        hsession.function_mirrors (.inl hmem) rfl
      rw [hlength] at hchain
      exact ⟨i, _, params, body, scope, hsession, hmem, p, around, hnested,
        (Nat.succ.inj hchain).symm, hmirrors⟩
  | _ => cases hvscope

end Interpreter

end Monkey

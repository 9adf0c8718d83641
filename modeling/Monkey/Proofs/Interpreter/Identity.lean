import Monkey.Proofs.Evaluation.Watched
import Monkey.Proofs.Interpreter.Session

/-!
# Booleans and nulls are known by what they are

The evaluator tells booleans and nulls apart by what they are and not by what they hold: two
booleans are equal if they are the same one, and in a condition only the false and the null of the
language count as false. In a session that starts with a fresh interpreter there are no booleans
but the two of the language and no null but the one of the language. An evaluator that goes by what
values hold therefore gives the same answers and leaves the same bindings.
-/

namespace Monkey

namespace Value

/-- A boolean or a null is one of the language, also if it stands in a return. -/
def Canonical : Value → Prop
  | bool _ origin => origin = .language
  | null origin => origin = .language
  | ret inner => inner.Canonical
  | _ => True

/-- Everything holds true but the nulls and the booleans that hold false. -/
def holdsTrue : Value → Bool
  | bool b _ => b
  | null _ => false
  | _ => true

def unaryByValue (op : Bytes) (right : Value) : Value :=
  if op = utf8 "!" then ofBool !right.holdsTrue else unary op right

def binaryByValue (op : Bytes) (left right : Value) : Value :=
  match left, right with
  | bool a _, bool b _ => binaryBool op (a = b)
  | left, right => binary op left right

variable {u v : Value}

theorem holdsTrue_eq_isTruthy (hv : v.Canonical) : v.holdsTrue = v.isTruthy := by
  cases v with
  | bool b origin =>
      cases hv
      cases b <;> rfl
  | null origin =>
      cases hv
      rfl
  | _ => rfl

theorem unaryByValue_eq_unary (op : Bytes) (hv : v.Canonical) : unaryByValue op v = unary op v := by
  by_cases hop : op = utf8 "!"
  · simp only [unaryByValue, unary, hop, if_true, holdsTrue_eq_isTruthy hv]
  · exact if_neg hop

theorem binaryByValue_eq_binary (op : Bytes) (hu : u.Canonical) (hv : v.Canonical) :
    binaryByValue op u v = binary op u v := by
  cases u with
  | bool a p =>
      cases v with
      | bool b q =>
          cases hu
          cases hv
          simp [binaryByValue, binary]
      | _ => rfl
  | _ => cases v <;> rfl

end Value

namespace Evaluation

open Monkey.Evaluation.Action

/-- An expression, in which booleans and nulls count for what they hold. -/
def evalExprByValue (sub : Evaluator) (scope : ScopeId) : Expr → Action (Option Value)
  | .unary _ op right =>
    operand (sub scope (.expr right)) fun r => pure (some (.unaryByValue op r))
  | .binary _ op left right =>
    operand (sub scope (.expr left)) fun l =>
      operand (sub scope (.expr right)) fun r => pure (some (.binaryByValue op l r))
  | .cond _ condition consequence alternative =>
    operand (sub scope (.expr condition)) fun c =>
      if c.holdsTrue then do
        let result ← sub scope (.stmt (.block consequence))
        pure (some (blockValue result))
      else match alternative with
        | some block => do
          let result ← sub scope (.stmt (.block block))
          pure (some (blockValue result))
        | none => pure (some .null)
  | expr => evalExpr sub scope expr

def stepByValue (sub : Evaluator) : Evaluator := fun scope node => do
  note (.visit node.kind?)
  match node with
  | .program program => evalProgram sub scope program
  | .stmt stmt => evalStmt sub scope stmt
  | .expr expr => evalExprByValue sub scope expr

def evalByValue : Nat → Evaluator
  | 0 => fun _ _ => exhausted
  | bound + 1 => stepByValue (evalByValue bound)

/-- All values are canonical, those that are held and those that come of a node. -/
def canonicalOnly : Contract where
  held := Value.Canonical
  node _ := True
  gives _ r := ∀ v ∈ r, v.Canonical
  operands _ _ := trivial
  made _ _ := trivial
  body _ := trivial
  int _ := trivial
  ofBool _ := rfl
  null := rfl
  void _ := by simp
  error _ fault := by simp [Value.Canonical]
  expr _ hv := by simpa using hv
  returned _ hv := by
    rintro _ ⟨⟩
    exact hv
  used _ _ _ hv := .inr (hv _ rfl)
  handedOn := by
    intro n m r _ _ _ hr
    cases r with
    | none => cases n <;> simp [Node.conclude, programResult, blockValue, Value.Canonical]
    | some v =>
        have hv := hr v rfl
        cases n with
        | program p => cases v <;> (rintro _ ⟨⟩; exact hv)
        | _ => simpa [Node.conclude, blockValue] using hv
  called := by
    intro body r _ hr
    cases r with
    | none => exact .inr rfl
    | some v =>
        have hv := hr v rfl
        cases v <;> exact .inr hv

open Contract

variable {final : Value.Fault → State → Prop} {sub sub' : Evaluator} {scope : ScopeId}

theorem shadows_evalExprByValue {e : Expr}
    (hparts : ∀ m ∈ (Node.expr e).operands, canonicalOnly.ShadowsAt final sub sub' m)
    (hbodies : canonicalOnly.ShadowsBodies final sub sub') :
    canonicalOnly.Shadows (Passes final) (evalExpr sub scope e) (evalExprByValue sub' scope e)
      (canonicalOnly.gives (.expr e)) := by
  have hn : canonicalOnly.node (.expr e) := trivial
  cases e with
  | unary token op right =>
      refine shadows_part hn (.head _) rfl (hparts _ (.head _)) fun v hv => ?_
      rw [Value.unaryByValue_eq_unary op hv]
      exact shadows_pure (gives_usable hn (usable_unary op v))
  | binary token op left right =>
      refine shadows_part hn (.head _) rfl (hparts _ (.head _)) fun u hu => ?_
      refine shadows_part hn (.tail _ (.head _)) rfl (hparts _ (.tail _ (.head _))) fun v hv => ?_
      rw [Value.binaryByValue_eq_binary op hu hv]
      exact shadows_pure (gives_usable hn (usable_binary op u v))
  | cond token condition consequence alternative =>
      refine shadows_part hn (.head _) rfl (hparts _ (.head _)) fun v hv => ?_
      rw [Value.holdsTrue_eq_isTruthy hv]
      split
      · exact shadows_branch hn (.tail _ (.head _)) (hparts _ (.tail _ (.head _)))
      · cases alternative with
        | none => exact shadows_pure (canonicalOnly.expr hn canonicalOnly.null)
        | some block =>
            exact shadows_branch hn (.tail _ (.tail _ (.head _)))
              (hparts _ (.tail _ (.tail _ (.head _))))
  | _ => exact shadows_evalExpr hn hparts hbodies

/-- Where all booleans and nulls are those of the language, going by what they hold changes
nothing. -/
theorem respects_evalByValue (bound : Nat) :
    canonicalOnly.Respects final (eval bound) (evalByValue bound) := by
  induction bound with
  | zero => exact respects_exhausted
  | succ bound ih =>
      intro n hn scope
      have hparts := ih.parts hn
      refine shadows_bind_free (shadows_note _) fun _ _ => ?_
      cases n with
      | program p => exact shadows_evalProgram hn hparts
      | stmt stmt => exact shadows_evalStmt hn hparts
      | expr e => exact shadows_evalExprByValue hparts ih.bodies

/-- Asks that every value that is bound, passed or given is canonical. -/
def canonicalValues : Watch where
  part _ _ r s := s.heap.Holds Value.Canonical ∧ ∀ v ∈ r, v.Canonical
  call callee args s := s.heap.Holds Value.Canonical ∧ callee.Canonical ∧ ∀ v ∈ args, v.Canonical

theorem allows_canonicalValues : canonicalOnly.Allows (fun _ _ => True) canonicalValues where
  part _ _ hr hs _ := ⟨hs, hr⟩
  call hcallee hargs hs := ⟨hs, hcallee, hargs⟩

end Evaluation

namespace Interpreter

open Evaluation (Evaluator evalByValue evalWatched canonicalValues)

/-- `run` with the evaluator `ev`. -/
def runWith (ev : Nat → Evaluator) (i : Interpreter) (program : Program) :
    Option (Option Value × Interpreter) :=
  match ev i.bound globalScope (.program program) ⟨i.heap, []⟩ with
  | .done result s =>
    let i := { i with heap := s.heap, journal := s.events.map Evaluation.Event.record ++ i.journal }
    match result with
    | some (.error fault) => some (result, i.note (evalFailed fault))
    | _ => some (result, i)
  | .stuck => none
  | .exhausted => none

/-- Interpreter's `eval` with the evaluator `ev`. -/
def evalWith (ev : Nat → Evaluator) (i : Interpreter) (source : Bytes) :
    Option (Except (List Grammar.Fault) (Option Value) × Interpreter) :=
  match i.parse source with
  | (.error faults, i) => some (.error faults, i)
  | (.ok program, i) =>
    match i.runWith ev program with
    | some (result, i) => some (.ok result, i)
    | none => none

/-- The answer to each of the sources and what the interpreter is after it, up to a source that is
cut off. -/
def answers (ev : Nat → Evaluator) : Interpreter → List Bytes →
    List (Except (List Grammar.Fault) (Option Value) × Interpreter)
  | _, [] => []
  | i, source :: rest =>
    match i.evalWith ev source with
    | some (answer, i') => (answer, i') :: answers ev i' rest
    | none => []

theorem shadowsAt_program (bound : Nat) (p : Program) :
    Evaluation.canonicalOnly.Shadows (Evaluation.Contract.Passes fun _ _ => True)
      (Evaluation.eval bound globalScope (.program p)) (evalByValue bound globalScope (.program p))
      (Evaluation.canonicalOnly.gives (.program p)) :=
  Evaluation.respects_evalByValue bound (.program p) trivial globalScope

theorem runWith_evalByValue {i : Interpreter} (hheap : i.heap.Holds Value.Canonical) (p : Program) :
    i.runWith evalByValue p = i.run p := by
  have heval : evalByValue i.bound globalScope (.program p) ⟨i.heap, []⟩ =
      Evaluation.eval i.bound globalScope (.program p) ⟨i.heap, []⟩ :=
    (shadowsAt_program i.bound p ⟨i.heap, []⟩ hheap).2 fun _ _ _ _ _ => trivial
  rw [runWith, heval]
  rfl

theorem evalWith_evalByValue {i : Interpreter} (hcache : i.CacheSound)
    (hheap : i.heap.Holds Value.Canonical) (source : Bytes) :
    i.evalWith evalByValue source = i.eval source := by
  obtain ⟨hsame, -, -⟩ := parse_cases hcache source
  rcases hparse : i.parse source with ⟨faults | p, i'⟩
  · simp only [evalWith, eval, hparse]
  · have hheap' : i'.heap.Holds Value.Canonical := by
      rw [hparse] at hsame
      rw [hsame.heap]
      exact hheap
    have hrun := runWith_evalByValue hheap' p
    rcases hran : i'.run p with _ | ⟨result, i''⟩ <;>
      simp only [evalWith, eval, hparse, hrun, hran]

theorem eval_canonical {i i' : Interpreter} (hcache : i.CacheSound)
    (hheap : i.heap.Holds Value.Canonical) {source : Bytes}
    {answer : Except (List Grammar.Fault) (Option Value)} (h : i.eval source = some (answer, i')) :
    i'.CacheSound ∧ i'.heap.Holds Value.Canonical ∧ ∀ v ∈ answerValues answer, v.Canonical := by
  obtain ⟨-, hcache', hcases⟩ := eval_cases hcache h
  refine ⟨hcache', ?_⟩
  rcases hcases with ⟨faults, rfl, hsame⟩ | ⟨p, r, s, rfl, -, hrun, hafter⟩
  · exact ⟨hsame ▸ hheap, by simp [answerValues]⟩
  · obtain ⟨hs, hr⟩ := (shadowsAt_program i.bound p ⟨i.heap, []⟩ hheap).1 r s hrun
    refine ⟨hafter ▸ hs, ?_⟩
    cases r with
    | none => simp [answerValues]
    | some v => simpa [answerValues] using hr v rfl

theorem answers_evalByValue {i : Interpreter} (hcache : i.CacheSound)
    (hheap : i.heap.Holds Value.Canonical) (sources : List Bytes) :
    answers evalByValue i sources = answers Evaluation.eval i sources := by
  induction sources generalizing i with
  | nil => rfl
  | cons source rest ih =>
      have hsame : i.evalWith evalByValue source = i.evalWith Evaluation.eval source :=
        evalWith_evalByValue hcache hheap source
      unfold answers
      rw [hsame]
      cases heval : i.evalWith Evaluation.eval source with
      | none => rfl
      | some found =>
          obtain ⟨answer, i'⟩ := found
          obtain ⟨hcache', hheap', -⟩ := eval_canonical hcache hheap heval
          exact congrArg (_ :: ·) (ih hcache' hheap')

theorem Session.canonical {first i : Interpreter} {sources : List Bytes} {values : List Value}
    (hcache : first.CacheSound) (hheap : first.heap.Holds Value.Canonical)
    (h : Session first i sources values) :
    i.CacheSound ∧ i.heap.Holds Value.Canonical ∧ ∀ v ∈ values, v.Canonical := by
  induction h with
  | start => exact ⟨hcache, hheap, by simp⟩
  | eval before heval ih =>
      obtain ⟨hcache₁, hheap₁, hvalues₁⟩ := ih
      obtain ⟨hcache₂, hheap₂, hvalues₂⟩ := eval_canonical hcache₁ hheap₁ heval
      exact ⟨hcache₂, hheap₂, fun v hv => (List.mem_append.mp hv).elim (hvalues₂ v) (hvalues₁ v)⟩

/-- In a session of a fresh interpreter all booleans and nulls are those of the language, so that
going by what they hold gives the same answers and the same bindings. -/
theorem answers_byValue_eq (settings : Settings) (bound : Nat) (sources : List Bytes) :
    answers evalByValue (fresh settings bound) sources =
        answers Evaluation.eval (fresh settings bound) sources ∧
      ∀ i seen values, Session (fresh settings bound) i seen values →
        i.heap.Holds Value.Canonical ∧ (∀ v ∈ values, v.Canonical) ∧
        ∀ p, evalWatched canonicalValues i.bound globalScope (.program p) ⟨i.heap, []⟩ =
          Evaluation.eval i.bound globalScope (.program p) ⟨i.heap, []⟩ := by
  have hcache := cacheSound_fresh settings bound
  have hstart : (fresh settings bound).heap.Holds Value.Canonical := .start
  refine ⟨answers_evalByValue hcache hstart sources, fun i seen values hsession => ?_⟩
  obtain ⟨-, hheap, hvalues⟩ := hsession.canonical hcache hstart
  refine ⟨hheap, hvalues, fun p => ?_⟩
  exact (Evaluation.Contract.respects_evalWatched Evaluation.allows_canonicalValues i.bound
    (.program p) trivial globalScope ⟨i.heap, []⟩ hheap).2 fun _ _ _ _ _ => trivial

/-- A source that binds booleans and null, and one that compares them. -/
theorem answers_byValue_eq_flags :
    let first := utf8 ("let t = 1 < 2; let n = if (false) \x7b 1 \x7d; " ++
      "let f = fn(x) \x7b !x == t \x7d;")
    let second := utf8 "if (f(n)) \x7b f(!t) != false \x7d else \x7b n \x7d"
    answers evalByValue (fresh .defaults 30) [first, second] =
        answers Evaluation.eval (fresh .defaults 30) [first, second] ∧
      ∃ i v, Session (fresh .defaults 30) i [second, first] [v] ∧ v.inspect = utf8 "true" ∧
        v.Canonical ∧ i.heap.Holds Value.Canonical := by
  intro first second
  have hrun : (((fresh .defaults 30).eval first).bind fun a => (a.2.eval second).map fun b =>
      (answerValues b.1 ++ (answerValues a.1 ++ [])).map Value.inspect) = some [utf8 "true"] := by
    decide +kernel
  clear_value first second
  obtain ⟨⟨answer, i⟩, hfirst, hrest⟩ := Option.bind_eq_some_iff.mp hrun
  obtain ⟨⟨answer', i'⟩, hsecond, hinspect⟩ := Option.map_eq_some_iff.mp hrest
  have hsession : Session (fresh .defaults 30) i' [second, first] _ :=
    .eval (.eval .start hfirst) hsecond
  obtain ⟨v, hv, hshown⟩ := List.map_eq_singleton_iff.mp hinspect
  rw [hv] at hsession
  obtain ⟨hsame, hcanonical⟩ := answers_byValue_eq .defaults 30 [first, second]
  obtain ⟨hheap, hvalues, -⟩ := hcanonical _ _ _ hsession
  exact ⟨hsame, i', v, hsession, hshown, hvalues v (.head _), hheap⟩

/-- A false from outside is another one than that of the language, and no false in a condition. -/
example : let v : Value := .bool false (.outside 0)
    (Value.binary (utf8 "==") v (.ofBool false)).inspect = utf8 "false" ∧
      (Value.binaryByValue (utf8 "==") v (.ofBool false)).inspect = utf8 "true" ∧
      v.isTruthy = true ∧ v.holdsTrue = false := by
  decide

/-- A null from outside is another one too, and it counts as true in a condition. -/
example : let v : Value := .null (.outside 0)
    (Value.unary (utf8 "!") v).inspect = utf8 "false" ∧
      (Value.unaryByValue (utf8 "!") v).inspect = utf8 "true" ∧
      v.isTruthy = true ∧ v.holdsTrue = false := by
  decide

end Interpreter

end Monkey

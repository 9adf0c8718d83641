import Mathlib.Tactic.Common
import Monkey.Evaluation.Eval

/-!
# Integer arithmetic

What an expression over numbers is worth, said in integers without a bound. `Formula.exact` is the
plain mathematical value. `Formula.value` reduces the result of each operation into 64 bits with a
sign, and `Formula.divisions` lists what is divided by what, in the order in which it is done. A
division by zero ends the evaluation, so only the first of them can be seen.

Reduction goes well with sums, differences and products, and it makes no difference to these whether
it is done at every operation or once at the end; a division does not bear it inside. Comparisons
are about the reduced values.
-/

namespace Monkey

namespace Arithmetic

/-- The operators that make an integer of two integers. -/
inductive Operator where
  | add
  | sub
  | mul
  | div
  deriving DecidableEq, Repr

namespace Operator

def text : Operator → Bytes
  | add => utf8 "+"
  | sub => utf8 "-"
  | mul => utf8 "*"
  | div => utf8 "/"

/-- What an operator does with integers of any size. Division goes toward zero. -/
def exact : Operator → Int → Int → Int
  | add, m, n => m + n
  | sub, m, n => m - n
  | mul, m, n => m * n
  | div, m, n => m.tdiv n

end Operator

/-- The operators that compare two integers. -/
inductive Comparison where
  | less
  | greater
  | equal
  | notEqual
  deriving DecidableEq, Repr

namespace Comparison

def text : Comparison → Bytes
  | less => utf8 "<"
  | greater => utf8 ">"
  | equal => utf8 "=="
  | notEqual => utf8 "!="

def holds : Comparison → Int → Int → Bool
  | less, m, n => m < n
  | greater, m, n => m > n
  | equal, m, n => m = n
  | notEqual, m, n => m ≠ n

end Comparison

/-- The integer with a sign that fits into 64 bits and is the same modulo `2 ^ 64`. -/
def reduce (n : Int) : Int := n.bmod 18446744073709551616

/-- The expressions over integers. A literal has no sign and is less than `2 ^ 63`. -/
inductive Formula where
  | literal (n : Fin 9223372036854775808)
  | neg (right : Formula)
  | binary (op : Operator) (left right : Formula)

/-- The expression is the formula, whatever its tokens are. -/
inductive Formula.Matches : Formula → Expr → Prop where
  | literal {token : Token} (n : Fin 9223372036854775808) :
      Matches (.literal n) (.int token (Int64.ofNat n))
  | neg {token : Token} {a : Formula} {e : Expr} (right : Matches a e) :
      Matches (.neg a) (.unary token (utf8 "-") e)
  | binary {token : Token} {op : Operator} {a b : Formula} {e e' : Expr} (left : Matches a e)
      (right : Matches b e') : Matches (.binary op a b) (.binary token op.text e e')

namespace Formula

/-- How many expressions are inside each other. -/
def height : Formula → Nat
  | literal _ => 1
  | neg a => a.height + 1
  | binary _ a b => max a.height b.height + 1

/-- The value in integers of any size. -/
def exact : Formula → Int
  | literal n => n.val
  | neg a => -a.exact
  | binary op a b => op.exact a.exact b.exact

/-- The value, where every operation is exact and its result is reduced. -/
def value : Formula → Int
  | literal n => n.val
  | neg a => reduce (-a.value)
  | binary op a b => reduce (op.exact a.value b.value)

/-- The dividends and divisors of all divisions, from left to right, those in the operands of a
division before it. -/
def divisions : Formula → List (Int × Int)
  | literal _ => []
  | neg a => a.divisions
  | binary op a b =>
    a.divisions ++ b.divisions ++ if op = .div then [(a.value, b.value)] else []

def hasDivision : Formula → Bool
  | literal _ => false
  | neg a => a.hasDivision
  | binary op a b => op = .div || a.hasDivision || b.hasDivision

end Formula

/-- The dividend of the first division by zero. -/
def firstByZero (divisions : List (Int × Int)) : Option Int :=
  (divisions.find? fun d => d.2 = 0).map Prod.fst

theorem firstByZero_append (ds es : List (Int × Int)) :
    firstByZero (ds ++ es) = (firstByZero ds).or (firstByZero es) := by
  rw [firstByZero, List.find?_append, Option.map_or]
  rfl

section Reduction

/-- An operator other than division may be given reduced operands. -/
theorem reduce_exact_reduce {op : Operator} (hop : op ≠ .div) (m n : Int) :
    reduce (op.exact (reduce m) (reduce n)) = reduce (op.exact m n) := by
  unfold reduce
  cases op with
  | add => exact Int.bmod_add_bmod.trans Int.add_bmod_bmod
  | sub => exact Int.bmod_sub_bmod.trans Int.sub_bmod_bmod
  | mul => exact Int.bmod_mul_bmod.trans Int.mul_bmod_bmod
  | div => exact absurd rfl hop

theorem reduce_of_lt (n : Fin 9223372036854775808) : reduce n.val = n.val := by
  have hlt := n.isLt
  exact Int.bmod_eq_of_le (by omega) (by omega)

/-- Without a division it is enough to reduce once. -/
theorem Formula.value_eq_reduce_exact {a : Formula} (h : a.hasDivision = false) :
    a.value = reduce a.exact := by
  induction a with
  | literal n => exact (reduce_of_lt n).symm
  | neg a ih =>
      rw [value, ih h, exact]
      exact Int.bmod_neg_bmod
  | binary op a b iha ihb =>
      simp only [hasDivision, Bool.or_eq_false_iff, decide_eq_false_iff_not] at h
      obtain ⟨⟨hop, ha⟩, hb⟩ := h
      rw [value, iha ha, ihb hb, exact]
      exact reduce_exact_reduce hop _ _

theorem Formula.divisions_eq_nil {a : Formula} (h : a.hasDivision = false) : a.divisions = [] := by
  induction a with
  | literal n => rfl
  | neg a ih => exact ih h
  | binary op a b iha ihb =>
      simp only [hasDivision, Bool.or_eq_false_iff, decide_eq_false_iff_not] at h
      obtain ⟨⟨hop, ha⟩, hb⟩ := h
      simp [divisions, iha ha, ihb hb, hop]

end Reduction

end Arithmetic

namespace Value

/-- The value is the integer. -/
def IsInt (n : Int) (v : Value) : Prop := ∃ m : Int64, v = .int m ∧ m.toInt = n

/-- What is expected of a value after an integer was divided by zero, or after none was. -/
def Answers (P : Value → Prop) : Option Int → Value → Prop
  | none, v => P v
  | some dividend, v => ∃ fault, v = .error fault ∧
      fault.message =
        utf8 "division by zero: " ++ Text.Decimal.ofInt dividend ++ utf8 " / 0"

open Arithmetic

theorem isInt_neg (n : Int64) : (unary (utf8 "-") (.int n)).IsInt (reduce (-n.toInt)) :=
  ⟨-n, rfl, Int64.toInt_neg n⟩

/-- What an operator makes of two integers. -/
theorem answers_binary (op : Operator) (m n : Int64) :
    (binary op.text (.int m) (.int n)).Answers (IsInt (reduce (op.exact m.toInt n.toInt)))
      (firstByZero (if op = .div then [(m.toInt, n.toInt)] else [])) := by
  cases op with
  | add => exact ⟨m + n, rfl, Int64.toInt_add m n⟩
  | sub => exact ⟨m - n, rfl, Int64.toInt_sub m n⟩
  | mul => exact ⟨m * n, rfl, Int64.toInt_mul m n⟩
  | div =>
      have hdiv : binary (Operator.text .div) (.int m) (.int n) =
          if n = 0 then .error (.divisionByZero m) else .int (m / n) := rfl
      rw [hdiv]
      by_cases hn : n = 0
      · subst hn
        exact ⟨_, rfl, rfl⟩
      · have hn' : n.toInt ≠ 0 := fun h => hn (Int64.toInt_inj.mp h)
        rw [if_neg hn, if_pos rfl, firstByZero, List.find?_cons_of_neg (by simpa using hn')]
        exact ⟨m / n, rfl, Int64.toInt_div m n⟩

theorem binary_comparison (c : Comparison) (m n : Int64) :
    binary c.text (.int m) (.int n) = .ofBool (c.holds m.toInt n.toInt) := by
  cases c with
  | less => exact congrArg ofBool (decide_eq_decide.mpr Int64.lt_iff_toInt_lt)
  | greater => exact congrArg ofBool (decide_eq_decide.mpr Int64.lt_iff_toInt_lt)
  | equal => exact congrArg ofBool (decide_eq_decide.mpr Int64.toInt_inj.symm)
  | notEqual => exact congrArg ofBool (decide_eq_decide.mpr (not_congr Int64.toInt_inj.symm))

end Value

namespace Evaluation

open Monkey.Evaluation.Action
open Arithmetic

/-- Whatever is bound, the action changes nothing and gives a value, which is an error if an integer
was divided by zero and has the property if none was. -/
def Yields (x : Action (Option Value)) (P : Value → Prop) (byZero : Option Int) : Prop :=
  ∀ (h : Heap) (events : List Event), ∃ v events',
    x ⟨h, events⟩ = .done (some v) ⟨h, events'⟩ ∧ v.Answers P byZero

section Yields

variable {P : Value → Prop} {byZero : Option Int}

theorem yields_pure {v : Value} (hv : v.Answers P byZero) : Yields (pure (some v)) P byZero :=
  fun _ events => ⟨v, events, rfl, hv⟩

theorem yields_note {x : Action (Option Value)} (e : Event) (hx : Yields x P byZero) :
    Yields (note e >>= fun _ => x) P byZero := fun h events => hx h (e :: events)

/-- Where an integer is used, either the operand has failed or the use of it may. -/
theorem yields_operand {sub : Action (Option Value)} {use : Value → Action (Option Value)} {m : Int}
    {byZero' : Option Int} (hsub : Yields sub (Value.IsInt m) byZero)
    (huse : ∀ n : Int64, n.toInt = m → Yields (use (.int n)) P byZero') :
    Yields (operand sub use) P (byZero.or byZero') := by
  intro h events
  obtain ⟨v, events₁, hrun, hv⟩ := hsub h events
  cases byZero with
  | none =>
      obtain ⟨n, rfl, hn⟩ := hv
      obtain ⟨w, events₂, huse, hw⟩ := huse n hn h events₁
      refine ⟨w, events₂, ?_, hw⟩
      exact (bind_done hrun).trans huse
  | some dividend =>
      obtain ⟨fault, rfl, hmessage⟩ := hv
      refine ⟨.error fault, events₁, ?_, fault, rfl, hmessage⟩
      exact bind_done hrun

/-- What hands integers and errors on as they are makes no difference. -/
theorem Yields.hand_on {x : Action (Option Value)} {f : Option Value → Action (Option Value)}
    {n : Int} (hx : Yields x (Value.IsInt n) byZero)
    (hint : ∀ m, f (some (.int m)) = pure (some (.int m)))
    (herror : ∀ fault, f (some (.error fault)) = pure (some (.error fault))) :
    Yields (x >>= f) (Value.IsInt n) byZero := by
  intro h events
  obtain ⟨v, events', hrun, hv⟩ := hx h events
  refine ⟨v, events', ?_, hv⟩
  rw [bind_done hrun]
  cases byZero with
  | none =>
      obtain ⟨m, rfl, -⟩ := hv
      rw [hint]
      rfl
  | some dividend =>
      obtain ⟨fault, rfl, -⟩ := hv
      rw [herror]
      rfl

end Yields

/-- Two operands from left to right. -/
theorem yields_binary {token : Token} {op : Bytes} {e e' : Expr} {scope : ScopeId} {bound : Nat}
    {m n : Int} {f g k : Option Int} {P : Value → Prop}
    (hleft : Yields (eval bound scope (.expr e)) (Value.IsInt m) f)
    (hright : Yields (eval bound scope (.expr e')) (Value.IsInt n) g)
    (hop : ∀ x y : Int64, x.toInt = m → y.toInt = n →
      (Value.binary op (.int x) (.int y)).Answers P k) :
    Yields (eval (bound + 1) scope (.expr (.binary token op e e'))) P (f.or (g.or k)) :=
  yields_note _ (yields_operand hleft fun x hx => yields_operand hright fun y hy =>
    yields_pure (hop x y hx hy))

theorem exists_succ_of_height_le {a : Formula} {bound : Nat} (h : a.height ≤ bound) :
    ∃ k, bound = k + 1 := by
  have hpos : 0 < a.height := by cases a <;> exact Nat.succ_pos _
  exact Nat.exists_eq_succ_of_ne_zero (Nat.ne_of_gt (Nat.lt_of_lt_of_le hpos h))

/-- The result of a formula, by induction on it: a failed operand is the result, and otherwise the
values of the operands are what the operator is given. -/
theorem yields_of_matches {a : Formula} {e : Expr} (h : a.Matches e) {bound : Nat}
    (hbound : a.height ≤ bound) (scope : ScopeId) :
    Yields (eval bound scope (.expr e)) (Value.IsInt a.value) (firstByZero a.divisions) := by
  induction h generalizing bound with
  | literal n =>
      obtain ⟨bound, rfl⟩ := exists_succ_of_height_le hbound
      exact yields_note _ (yields_pure ⟨_, rfl, Int64.toInt_ofNat_of_lt n.isLt⟩)
  | @neg token a e right ih =>
      obtain ⟨bound, rfl⟩ := exists_succ_of_height_le hbound
      have hright := ih (Nat.le_of_succ_le_succ hbound)
      rw [Formula.value, Formula.divisions, ← Option.or_none (o := firstByZero a.divisions)]
      refine yields_note _ (yields_operand hright fun n hn => yields_pure ?_)
      rw [← hn]
      exact Value.isInt_neg n
  | @binary token op a b e e' left right ihl ihr =>
      obtain ⟨bound, rfl⟩ := exists_succ_of_height_le hbound
      have hmax : max a.height b.height ≤ bound := Nat.le_of_succ_le_succ hbound
      have hleft := ihl (Nat.le_trans (Nat.le_max_left _ _) hmax)
      have hright := ihr (Nat.le_trans (Nat.le_max_right _ _) hmax)
      rw [Formula.value, Formula.divisions, firstByZero_append, firstByZero_append,
        Option.or_assoc]
      refine yields_binary hleft hright fun x y hx hy => ?_
      rw [← hx, ← hy]
      exact Value.answers_binary op x y

theorem yields_comparison {a b : Formula} {e e' : Expr} (ha : a.Matches e) (hb : b.Matches e')
    {bound : Nat} (hbound : max a.height b.height < bound) (c : Comparison) (token : Token)
    (scope : ScopeId) :
    Yields (eval bound scope (.expr (.binary token c.text e e')))
      (· = .ofBool (c.holds a.value b.value)) (firstByZero (a.divisions ++ b.divisions)) := by
  obtain ⟨bound, rfl⟩ := Nat.exists_eq_succ_of_ne_zero (Nat.ne_zero_of_lt hbound)
  have hmax : max a.height b.height ≤ bound := Nat.le_of_lt_succ hbound
  have hleft := yields_of_matches ha (Nat.le_trans (Nat.le_max_left _ _) hmax) scope
  have hright := yields_of_matches hb (Nat.le_trans (Nat.le_max_right _ _) hmax) scope
  rw [firstByZero_append, ← Option.or_none (o := firstByZero b.divisions)]
  refine yields_binary hleft hright fun x y hx hy => ?_
  rw [← hx, ← hy]
  exact Value.binary_comparison c x y

/-- A program that is one expression has its result. -/
theorem yields_program {e : Expr} {bound : Nat} {scope : ScopeId} {n : Int} {byZero : Option Int}
    (h : Yields (eval bound scope (.expr e)) (Value.IsInt n) byZero) (token : Token) :
    Yields (eval (bound + 2) scope (.program ⟨[.expr token e]⟩)) (Value.IsInt n) byZero := by
  have hstmt : Yields (eval (bound + 1) scope (.stmt (.expr token e))) (Value.IsInt n) byZero :=
    yields_note _ h
  -- After the only statement it makes no difference whether its value ends the list.
  have hstmts := hstmt.hand_on (f := fun r => if endsList r then pure r else pure r)
    (fun _ => rfl) (fun _ => rfl)
  exact yields_note _ (hstmts.hand_on (fun _ => rfl) (fun _ => rfl))

/-- Whatever is bound, an expression over integers gives the value of exact arithmetic with every
result reduced, or the error of the first division by zero. Without divisions the value is the exact
one, reduced once, and a comparison is one of reduced values. -/
theorem eval_formula (scope : ScopeId) :
    (∀ {a : Formula} {e : Expr} {bound : Nat}, a.Matches e → a.height ≤ bound →
        Yields (eval bound scope (.expr e)) (Value.IsInt a.value) (firstByZero a.divisions)) ∧
      (∀ {a : Formula}, a.hasDivision = false →
        firstByZero a.divisions = none ∧ a.value = reduce a.exact) ∧
      ∀ {a b : Formula} {e e' : Expr} {bound : Nat} (c : Comparison) (token : Token),
        a.Matches e → b.Matches e' → max a.height b.height < bound →
        Yields (eval bound scope (.expr (.binary token c.text e e')))
          (· = .ofBool (c.holds a.value b.value)) (firstByZero (a.divisions ++ b.divisions)) := by
  refine ⟨fun ha hbound => yields_of_matches ha hbound scope, fun ha => ⟨?_, ?_⟩,
    fun c token ha hb hbound => yields_comparison ha hb hbound c token scope⟩
  · rw [Formula.divisions_eq_nil ha]
    rfl
  · exact Formula.value_eq_reduce_exact ha

/-- The least integer divided by minus one is itself again. In a sum with this quotient,
`5 / (3 - 3)` fails before `7 / 0` does. The greatest integer and one make less than zero. -/
theorem eval_formula_boundary :
    let token : Token := ⟨.eof, [], .start⟩
    let int := fun n => Expr.int token (Int64.ofNat n)
    let join := fun op left right => Expr.binary token (utf8 op) left right
    let negative := fun right => Expr.unary token (utf8 "-") right
    let quotient :=
      join "/" (join "-" (negative (int 9223372036854775807)) (int 1)) (negative (int 1))
    let product := join "*" (join "/" (int 5) (join "-" (int 3) (int 3))) (join "/" (int 7) (int 0))
    let sum := join "+" (int 9223372036854775807) (int 1)
    Yields (eval 4 0 (.expr quotient)) (Value.IsInt (-9223372036854775808)) none ∧
      Yields (eval 5 0 (.expr (join "+" quotient product))) (Value.IsInt 0) (some 5) ∧
      Yields (eval 3 0 (.expr (join "<" sum (int 0)))) (· = .ofBool true) none := by
  intro token int join negative quotient product sum
  let literal := fun n (hn : n < 9223372036854775808) => Formula.literal ⟨n, hn⟩
  let a : Formula := .binary .div
    (.binary .sub (.neg (literal 9223372036854775807 (by decide))) (literal 1 (by decide)))
    (.neg (literal 1 (by decide)))
  let b : Formula := .binary .mul
    (.binary .div (literal 5 (by decide))
      (.binary .sub (literal 3 (by decide)) (literal 3 (by decide))))
    (.binary .div (literal 7 (by decide)) (literal 0 (by decide)))
  let c : Formula :=
    .binary .add (literal 9223372036854775807 (by decide)) (literal 1 (by decide))
  have ha : a.Matches quotient :=
    .binary (.binary (.neg (.literal _)) (.literal _)) (.neg (.literal _))
  have hb : b.Matches product :=
    .binary (.binary (.literal _) (.binary (.literal _) (.literal _)))
      (.binary (.literal _) (.literal _))
  have hc : c.Matches sum := .binary (.literal _) (.literal _)
  have hzero : (literal 0 (by decide)).Matches (int 0) := .literal _
  obtain ⟨hvalue, -, hcompare⟩ := eval_formula 0
  have hsum : (Formula.binary .add a b).Matches (join "+" quotient product) := .binary ha hb
  exact ⟨hvalue ha (by decide), hvalue hsum (by decide), hcompare .less token hc hzero (by decide)⟩

end Evaluation

end Monkey

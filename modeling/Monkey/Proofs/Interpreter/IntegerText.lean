import Monkey.Proofs.Evaluation.Arithmetic
import Monkey.Proofs.Grammar.Completeness
import Monkey.Proofs.Grammar.Foresight
import Monkey.Proofs.Interpreter.Transparency
import Monkey.Proofs.Text.Decimal
import Monkey.Proofs.Token.Scanning

/-!
# The texts of integers

A source that is nothing but digits is read without a fault if and only if their number is less than
`2 ^ 63`, and then it evaluates to that integer. The text that shows an integer evaluates to the
integer again: digits, or a minus sign and digits, which are read as a sign before the integer
without one. Only the least integer is an exception. Without its sign it is one too great for a
literal, so that its text is not read, and nothing is evaluated.
-/

namespace Monkey.Interpreter

open Grammar Token Arithmetic Evaluation

section Reading

variable {digits : Bytes} (hne : digits ≠ []) (hdigits : ∀ b ∈ digits, isDigit b = true)

include hne hdigits

/-- Digits are cut into one token. -/
theorem items_digits :
    ∃ t : Token, t.kind = .int ∧ t.literal = digits ∧ (Stream.ofSource digits).items = [t] := by
  have hspells : Spells digits [⟨.int, digits, .start⟩] := by
    have hnumber := Spells.number hne hdigits (by simp) .nil
    rwa [List.append_nil] at hnumber
  obtain ⟨t, hitems, ht⟩ := List.map_eq_singleton_iff.mp hspells.map_items
  exact ⟨t, congrArg Token.kind ht, congrArg Token.literal ht, hitems⟩

/-- A minus sign and digits are cut into two tokens. -/
theorem items_minus :
    ∃ m t : Token, m.kind = .minus ∧ m.literal = utf8 "-" ∧ t.kind = .int ∧ t.literal = digits ∧
      (Stream.ofSource (utf8 "-" ++ digits)).items = [m, t] := by
  have hspells : Spells (utf8 "-" ++ digits)
      [⟨.minus, utf8 "-", .start⟩, ⟨.int, digits, .start⟩] := by
    have hnumber := Spells.number hne hdigits (by simp) .nil
    rw [List.append_nil] at hnumber
    refine Spells.symbol .minus (by decide) (fun b hb heq => ?_) hnumber
    have hdigit := hdigits b (List.mem_of_mem_head? hb)
    rw [heq] at hdigit
    exact absurd hdigit (by decide)
  obtain ⟨m, rest, hitems, hm, hrest⟩ := List.map_eq_cons_iff.mp hspells.map_items
  obtain ⟨t, rfl, ht⟩ := List.map_eq_singleton_iff.mp hrest
  exact ⟨m, t, congrArg Token.kind hm, congrArg Token.literal hm, congrArg Token.kind ht,
    congrArg Token.literal ht, hitems⟩

variable (tracing : Bool)

/-- Digits with a number that fits are read as that number. -/
theorem readsAs_digits (hvalue : Text.Decimal.value digits < 9223372036854775808) :
    ∃ t, ReadsAs tracing digits
      ⟨[.expr t (.int t (Int64.ofNat (Text.Decimal.value digits)))]⟩ := by
  obtain ⟨t, hkind, rfl, hitems⟩ := items_digits hne hdigits
  have hint := (Text.Decimal.int64?_of_digits hne hdigits).trans (if_pos hvalue)
  refine ⟨t, Derives.parse_items ?_ tracing⟩
  rw [hitems]
  exact .unclosed (.exprStmt (.int hkind hint)) .noStmts (by decide)

/-- So are they after a minus sign. -/
theorem readsAs_minus (hvalue : Text.Decimal.value digits < 9223372036854775808) :
    ∃ m t, ReadsAs tracing (utf8 "-" ++ digits)
      ⟨[.expr m (.unary m (utf8 "-") (.int t (Int64.ofNat (Text.Decimal.value digits))))]⟩ := by
  obtain ⟨m, t, hsign, htext, hkind, rfl, hitems⟩ := items_minus hne hdigits
  have hint := (Text.Decimal.int64?_of_digits hne hdigits).trans (if_pos hvalue)
  refine ⟨m, t, Derives.parse_items ?_ tracing⟩
  rw [hitems, ← htext]
  exact .unclosed (.exprStmt (.unary (by decide) (by simp [hsign, signs]) (.int hkind hint)))
    .noStmts (by decide)

/-- Digits with a number that does not fit are a fault. -/
theorem faults_digits (hvalue : 9223372036854775808 ≤ Text.Decimal.value digits) :
    (parseSource digits tracing).faults ≠ [] := by
  obtain ⟨t, hkind, rfl, hitems⟩ := items_digits hne hdigits
  have hnone := (Text.Decimal.int64?_of_digits hne hdigits).trans (if_neg (Nat.not_lt.mpr hvalue))
  have hmeet : Expectation.program.meet t = .fails (.badInteger t.literal) := by
    simp [Expectation.meet, Expectation.statementReaction, Expectation.operandReaction,
      Reaction.andThen, hkind, hnone]
  refine faults_ne_nil (kind_ne_eof_ofSource _) (f := .badInteger t.literal) ?_
  rw [hitems]
  exact outlook_of_fails hmeet

/-- A minus sign before them does not help. -/
theorem faults_minus (hvalue : 9223372036854775808 ≤ Text.Decimal.value digits) :
    (parseSource (utf8 "-" ++ digits) tracing).faults ≠ [] := by
  obtain ⟨m, t, hsign, -, hkind, rfl, hitems⟩ := items_minus hne hdigits
  have hnone := (Text.Decimal.int64?_of_digits hne hdigits).trans (if_neg (Nat.not_lt.mpr hvalue))
  have hmeet : Expectation.program.meet (leadToken [m, t]) = .takes
      [.operand, .operators .unary, .operators .lowest, .semicolon, .program] := by
    simp [Expectation.meet, Expectation.statementReaction, Expectation.operandReaction,
      Expectation.signRest, Reaction.andThen, leadToken, hsign]
  have hmeet' : Expectation.operand.meet t = .fails (.badInteger t.literal) := by
    simp [Expectation.meet, Expectation.operandReaction, hkind, hnone]
  refine faults_ne_nil (kind_ne_eof_ofSource _) (f := .badInteger t.literal) ?_
  rw [hitems, outlook_of_takes hmeet]
  exact outlook_of_fails hmeet'

end Reading

/-- A source that is a formula without divisions evaluates to its value, and changes no binding. -/
theorem eval_of_matches {i : Interpreter} (hcache : i.CacheSound) {source : Bytes} {t : Token}
    {e : Expr} (hreads : ReadsAs i.tracing source ⟨[.expr t e]⟩) {a : Formula} (ha : a.Matches e)
    (hdivision : a.hasDivision = false) (hbound : a.height + 2 ≤ i.bound) :
    ∃ n i', i.eval source = some (.ok (some (.int n)), i') ∧ n.toInt = a.value ∧
      i'.heap = i.heap := by
  obtain ⟨bound, hi⟩ := Nat.exists_eq_add_of_le' hbound
  have hyields := yields_program
    (yields_of_matches ha (Nat.le_add_left a.height bound) globalScope) t
  rw [Formula.divisions_eq_nil hdivision, Nat.add_assoc, ← hi] at hyields
  obtain ⟨v, events, hrun, n, rfl, hn⟩ := hyields i.heap []
  obtain ⟨i', heval, hheap⟩ := eval_of_readsAs hcache hreads hrun
  exact ⟨n, i', heval, hn, hheap⟩

section Evaluating

variable {i : Interpreter} (hcache : i.CacheSound) (hbound : 4 ≤ i.bound)

include hcache hbound

theorem eval_digits {digits : Bytes} (hne : digits ≠ [])
    (hdigits : ∀ b ∈ digits, isDigit b = true)
    (hvalue : Text.Decimal.value digits < 9223372036854775808) :
    ∃ n i', i.eval digits = some (.ok (some (.int n)), i') ∧
      n.toInt = Text.Decimal.value digits ∧ i'.heap = i.heap := by
  obtain ⟨t, hreads⟩ := readsAs_digits hne hdigits i.tracing hvalue
  have hmatches : Formula.Matches (.literal ⟨_, hvalue⟩) (.int t (Int64.ofNat _)) := .literal _
  exact eval_of_matches hcache hreads hmatches rfl (Nat.le_of_succ_le hbound)

theorem eval_minus {digits : Bytes} (hne : digits ≠ [])
    (hdigits : ∀ b ∈ digits, isDigit b = true)
    (hvalue : Text.Decimal.value digits < 9223372036854775808) :
    ∃ n i', i.eval (utf8 "-" ++ digits) = some (.ok (some (.int n)), i') ∧
      n.toInt = -Text.Decimal.value digits ∧ i'.heap = i.heap := by
  obtain ⟨m, t, hreads⟩ := readsAs_minus hne hdigits i.tracing hvalue
  have hmatches : Formula.Matches (.neg (.literal ⟨_, hvalue⟩))
      (.unary m (utf8 "-") (.int t (Int64.ofNat _))) := .neg (.literal _)
  obtain ⟨n, i', heval, hn, hheap⟩ := eval_of_matches hcache hreads hmatches rfl hbound
  have hreduce : reduce (-(Text.Decimal.value digits : Int)) = -Text.Decimal.value digits :=
    Int.bmod_eq_of_le (by omega) (by omega)
  exact ⟨n, i', heval, hn.trans hreduce, hheap⟩

/-- An integer other than the least one is read back from its text. -/
theorem eval_inspect {n : Int64} (hn : n ≠ Int64.minValue) :
    ∃ i', i.eval (Value.int n).inspect = some (.ok (some (.int n)), i') ∧ i'.heap = i.heap := by
  have hmin : n.toInt ≠ -9223372036854775808 := fun h => hn (Int64.toInt_inj.mp h)
  have hle := n.le_toInt
  have hlt := n.toInt_lt
  have hshown : (Value.int n).inspect = Text.Decimal.ofInt n.toInt := rfl
  rw [hshown]
  -- The cases are those of `ofInt`: only a negative integer has a sign in its text.
  cases hint : n.toInt with
  | ofNat k =>
      rw [hint] at hlt
      have hvalue : Text.Decimal.value (Text.Decimal.ofNat k) < 9223372036854775808 := by
        rw [Text.Decimal.value_ofNat]
        exact Int.ofNat_lt.mp hlt
      obtain ⟨m, i', heval, hm, hheap⟩ := eval_digits hcache hbound (Text.Decimal.ofNat_ne_nil k)
        (Text.Decimal.isDigit_of_mem_ofNat k) hvalue
      rw [Text.Decimal.value_ofNat] at hm
      obtain rfl := Int64.toInt_inj.mp (hm.trans hint.symm)
      exact ⟨i', heval, hheap⟩
  | negSucc k =>
      rw [hint] at hle hmin
      have hvalue : Text.Decimal.value (Text.Decimal.ofNat (k + 1)) < 9223372036854775808 := by
        rw [Text.Decimal.value_ofNat]
        omega
      obtain ⟨m, i', heval, hm, hheap⟩ := eval_minus hcache hbound
        (Text.Decimal.ofNat_ne_nil (k + 1)) (Text.Decimal.isDigit_of_mem_ofNat (k + 1)) hvalue
      rw [Text.Decimal.value_ofNat] at hm
      obtain rfl := Int64.toInt_inj.mp (hm.trans hint.symm)
      exact ⟨i', heval, hheap⟩

end Evaluating

/-- The text of the least integer is not read. -/
theorem faults_inspect_minValue (tracing : Bool) :
    (parseSource (Value.int Int64.minValue).inspect tracing).faults ≠ [] := by
  have hshown : (Value.int Int64.minValue).inspect =
      utf8 "-" ++ Text.Decimal.ofNat 9223372036854775808 := rfl
  rw [hshown]
  refine faults_minus (Text.Decimal.ofNat_ne_nil _) (Text.Decimal.isDigit_of_mem_ofNat _) tracing ?_
  rw [Text.Decimal.value_ofNat]

/-- Digits are a source without faults if and only if their number is at most `2 ^ 63 - 1`, and then
they evaluate to it. The text of an integer evaluates to the integer, but that of the least one has
a fault and changes no binding. -/
theorem eval_integerText {i : Interpreter} (hi : i.Made) (hbound : 4 ≤ i.bound) :
    (∀ digits : Bytes, digits ≠ [] → (∀ b ∈ digits, isDigit b = true) →
        (∀ tracing, (parseSource digits tracing).faults = [] ↔
          Text.Decimal.number digits ≤ 9223372036854775807) ∧
        (Text.Decimal.number digits ≤ 9223372036854775807 →
          ∃ n i', i.eval digits = some (.ok (some (.int n)), i') ∧
            n.toInt = Text.Decimal.number digits ∧ i'.heap = i.heap)) ∧
      (∀ n : Int64, n ≠ Int64.minValue →
        ∃ i', i.eval (Value.int n).inspect = some (.ok (some (.int n)), i') ∧ i'.heap = i.heap) ∧
      ∃ faults i', faults ≠ [] ∧
        i.eval (Value.int Int64.minValue).inspect = some (.error faults, i') ∧
        i'.heap = i.heap := by
  have hcache := hi.cacheSound
  refine ⟨fun digits hne hdigits => ⟨fun tracing => ⟨fun hfaults => ?_, fun hvalue => ?_⟩,
    fun hvalue => ?_⟩, fun n hn => eval_inspect hcache hbound hn, ?_⟩
  · rw [← Text.Decimal.value_eq_number]
    by_contra hgreat
    exact faults_digits hne hdigits tracing (Nat.lt_of_not_le hgreat) hfaults
  · rw [← Text.Decimal.value_eq_number] at hvalue
    obtain ⟨t, hreads⟩ := readsAs_digits hne hdigits tracing (Nat.lt_succ_of_le hvalue)
    exact hreads.1
  · rw [← Text.Decimal.value_eq_number] at hvalue ⊢
    exact eval_digits hcache hbound hne hdigits (Nat.lt_succ_of_le hvalue)
  · have hfaults := faults_inspect_minValue i.tracing
    exact ⟨_, _, hfaults, eval_of_faults hcache hfaults, (parse_cases hcache _).1.heap⟩

/-- Zeros in front do not make digits too great, but one more than the greatest integer is. -/
theorem eval_integerText_limits :
    let i := ofSettings .defaults
    let greatest := utf8 "009223372036854775807"
    let tooGreat := utf8 "9223372036854775808"
    i.Made ∧ 4 ≤ i.bound ∧
      (∃ n i', i.eval greatest = some (.ok (some (.int n)), i') ∧
        n.toInt = 9223372036854775807 ∧ i'.heap = i.heap) ∧
      (parseSource tooGreat true).faults ≠ [] ∧
      (∃ i', i.eval (utf8 "-9223372036854775807") =
        some (.ok (some (.int (-9223372036854775807))), i') ∧ i'.heap = i.heap) ∧
      ∃ faults i', faults ≠ [] ∧
        i.eval (utf8 "-9223372036854775808") = some (.error faults, i') ∧ i'.heap = i.heap := by
  intro i greatest tooGreat
  have hi : i.Made := .fresh .defaults _
  have hbound : 4 ≤ i.bound := by decide
  have hgreatest : Text.Decimal.number greatest = 9223372036854775807 := by decide
  have htooGreat : Text.Decimal.number tooGreat = 9223372036854775808 := by decide
  obtain ⟨hdigits, hinspect, hleast⟩ := eval_integerText hi hbound
  obtain ⟨-, hfits⟩ := hdigits greatest (by decide) (List.all_eq_true.mp rfl)
  obtain ⟨hreads, -⟩ := hdigits tooGreat (by decide) (List.all_eq_true.mp rfl)
  refine ⟨hi, hbound, ?_, fun hfaults => ?_, hinspect (-9223372036854775807) (by decide), hleast⟩
  · rw [hgreatest] at hfits
    exact hfits (Nat.le_refl _)
  · have hle := (hreads true).mp hfaults
    rw [htooGreat] at hle
    exact absurd hle (by decide)

end Monkey.Interpreter

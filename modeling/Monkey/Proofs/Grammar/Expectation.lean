import Monkey.Proofs.Grammar.Outcome

/-!
# What is expected of the next token

The rules of the grammar call each other, and what is still to be read is spread over the rules
that have not come back yet. Here it is a list of expectations, the next one first, and tokens are
given to it one by one. A token is taken by the first expectation that does not pass it on, and
what has to come after it is put in the place of that expectation.

`outlook K ts` is what comes of the tokens `ts` where `K` is expected: the first fault, or the
number of blocks that are open at the end. Whether a token is in order depends on the tokens before
it and on nothing else, which is plain here and hidden in the rules.
-/

namespace Monkey.Grammar

inductive Expectation where
  /-- A token of the given kind. -/
  | token (kind : Token.Kind)
  /-- What an expression starts with. -/
  | operand
  /-- Any number of operators that bind more strongly than the level, with what belongs to them. -/
  | operators (level : Level)
  /-- A semicolon, or nothing. -/
  | semicolon
  /-- The alternative of a condition, or nothing. -/
  | alternative
  /-- Parameters and the parenthesis after them. -/
  | params
  /-- Parameters after the first one and the parenthesis after them. -/
  | moreParams
  /-- Arguments and the parenthesis after them. -/
  | args
  /-- Arguments after the first one and the parenthesis after them. -/
  | moreArgs
  | statement
  /-- Statements and the brace after them, which may be missing at the end. -/
  | block
  /-- Statements up to the end. -/
  | program
  deriving DecidableEq, Repr

/-- What an expectation does with a token: it takes it, and `rest` is expected after it, or it
passes the token on to what is expected next, or the token is a fault. -/
inductive Reaction where
  | takes (rest : List Expectation)
  | passes
  | fails (f : Fault)
  deriving DecidableEq, Repr

/-- More is expected after what a reaction leaves. -/
def Reaction.andThen (K : List Expectation) : Reaction → Reaction
  | takes rest => takes (rest ++ K)
  | passes => passes
  | fails f => fails f

namespace Expectation

/-- What is expected after the keyword of a binding. -/
def bindingRest : List Expectation :=
  [token .ident, token .assign, operand, operators .lowest, semicolon]

/-- What is expected after the keyword of a return. -/
def returnRest : List Expectation := [operand, operators .lowest, semicolon]

/-- What is expected after a sign. -/
def signRest : List Expectation := [operand, operators .unary]

/-- What is expected after the parenthesis in front of an expression. -/
def groupRest : List Expectation := [operand, operators .lowest, token .rparen]

/-- What is expected after the keyword of a condition. -/
def condRest : List Expectation :=
  token .lparen :: groupRest ++ [token .lbrace, block, alternative]

/-- What is expected after the keyword of a function. -/
def functionRest : List Expectation := [token .lparen, params, token .lbrace, block]

def operandReaction (t : Token) : Reaction :=
  match t.kind with
  | .ident => .takes []
  | .int =>
    if (Text.Decimal.int64? t.literal).isSome then .takes [] else .fails (.badInteger t.literal)
  | .bang => .takes signRest
  | .minus => .takes signRest
  | .true => .takes []
  | .false => .takes []
  | .lparen => .takes groupRest
  | .if => .takes condRest
  | .function => .takes functionRest
  | kind => .fails (.noExpression kind)

def statementReaction (t : Token) : Reaction :=
  match t.kind with
  | .let => .takes bindingRest
  | .return => .takes returnRest
  | _ => (operandReaction t).andThen [operators .lowest, semicolon]

def meet (t : Token) : Expectation → Reaction
  | token kind => if t.kind = kind then .takes [] else .fails (.unexpected kind t.kind)
  | operand => operandReaction t
  | operators level =>
    if level < Level.ofKind t.kind then
      if t.kind = .lparen then .takes [args, operators level]
      else .takes [operand, operators (Level.ofKind t.kind), operators level]
    else .passes
  | semicolon => if t.kind = .semicolon then .takes [] else .passes
  | alternative => if t.kind = .else then .takes [token .lbrace, block] else .passes
  | params =>
    if t.kind = .rparen then .takes []
    else if t.kind = .ident then .takes [moreParams] else .fails (.unexpected .ident t.kind)
  | moreParams =>
    if t.kind = .comma then .takes [token .ident, moreParams]
    else if t.kind = .rparen then .takes [] else .fails (.unexpected .rparen t.kind)
  | args =>
    if t.kind = .rparen then .takes []
    else (operandReaction t).andThen [operators .lowest, moreArgs]
  | moreArgs =>
    if t.kind = .comma then .takes [operand, operators .lowest, moreArgs]
    else if t.kind = .rparen then .takes [] else .fails (.unexpected .rparen t.kind)
  | statement => statementReaction t
  | block =>
    if t.kind = .rbrace then .takes []
    else if t.kind = .eof then .passes else (statementReaction t).andThen [block]
  | program => if t.kind = .eof then .passes else (statementReaction t).andThen [program]

/-- How many blocks the end of the input closes with an expectation. -/
def openBlocks : Expectation → Nat
  | block => 1
  | _ => 0

end Expectation

open Expectation

/-- What is expected after a token. -/
def step : List Expectation → Token → Except Fault (List Expectation)
  | [], _ => .ok []
  | x :: K, t =>
    match x.meet t with
    | .takes rest => .ok (rest ++ K)
    | .passes => step K t
    | .fails f => .error f

/-- The end of the input, as a token. -/
def endToken : Token := ⟨.eof, [], .start⟩

/-- What comes of the end of the input. -/
def closing : List Expectation → Except Fault Nat
  | [] => .ok 0
  | x :: K =>
    match x.meet endToken with
    | .fails f => .error f
    | _ => (closing K).map (x.openBlocks + ·)

def outlook : List Expectation → List Token → Except Fault Nat
  | K, [] => closing K
  | K, t :: ts =>
    match step K t with
    | .ok K => outlook K ts
    | .error f => .error f

/-- The first token of a list after which the input ends. -/
def leadToken (ts : List Token) : Token := ts.headD endToken

theorem Expectation.meet_current (s : State) (x : Expectation) :
    x.meet s.input.current = x.meet (leadToken s.tokens) := by
  cases h : s.tokens with
  | nil =>
      unfold State.tokens at h
      have hcurrent : s.input.current = ⟨.eof, [], s.input.stop⟩ := by
        simp [Token.Stream.current, h, Token.Stream.endToken]
      rw [hcurrent]
      cases x <;> rfl
  | cons t ts => rw [State.current_of_tokens h, leadToken, List.headD_cons]

/-- The end of the input is taken by nothing. -/
theorem Expectation.rest_of_meet_endToken {x : Expectation} {rest : List Expectation}
    (h : x.meet endToken = .takes rest) : rest = [] := by
  cases x with
  | token kind =>
      by_cases hkind : endToken.kind = kind
      · simp only [meet, if_pos hkind] at h
        cases h
        rfl
      · simp only [meet, if_neg hkind] at h
        cases h
  | operators level =>
      have hlevel : ¬ level < Level.ofKind .eof := Nat.not_lt_zero _
      simp [meet, endToken, hlevel] at h
  | _ => cases h

theorem map_zero_add (o : Except Fault Nat) : o.map (0 + ·) = o := by
  cases o <;> simp [Except.map]

section Outlook

variable {x : Expectation} {K rest : List Expectation} {ts : List Token} {f : Fault}

theorem outlook_of_takes (h : x.meet (leadToken ts) = .takes rest) :
    outlook (x :: K) ts = outlook (rest ++ K) ts.tail := by
  cases ts with
  | nil =>
      obtain rfl := rest_of_meet_endToken h
      have hopen : x.openBlocks = 0 := by
        cases x with
        | block => cases h
        | _ => rfl
      rw [leadToken, List.headD_nil] at h
      simp only [outlook, closing, h, hopen, map_zero_add, List.nil_append, List.tail_nil]
  | cons t ts =>
      rw [leadToken, List.headD_cons] at h
      simp only [outlook, step, h, List.tail_cons]

theorem outlook_of_fails (h : x.meet (leadToken ts) = .fails f) :
    outlook (x :: K) ts = .error f := by
  cases ts with
  | nil =>
      rw [leadToken, List.headD_nil] at h
      simp only [outlook, closing, h]
  | cons t ts =>
      rw [leadToken, List.headD_cons] at h
      simp only [outlook, step, h]

/-- A block does not just pass the end of the input on, it ends with it. -/
theorem outlook_of_passes (h : x.meet (leadToken ts) = .passes)
    (hx : x.openBlocks = 0 ∨ ts ≠ []) : outlook (x :: K) ts = outlook K ts := by
  cases ts with
  | nil =>
      have hopen : x.openBlocks = 0 := hx.resolve_right (by simp)
      rw [leadToken, List.headD_nil] at h
      simp only [outlook, closing, h, hopen, map_zero_add]
  | cons t ts =>
      rw [leadToken, List.headD_cons] at h
      simp only [outlook, step, h]

end Outlook

/-- The tokens are in order where `K` is expected, and after them `K'` is. -/
inductive Leads : List Expectation → List Token → List Expectation → Prop where
  | nil {K : List Expectation} : Leads K [] K
  | cons {K K₁ K' : List Expectation} {t : Token} {ts : List Token} (h : step K t = .ok K₁)
      (more : Leads K₁ ts K') : Leads K (t :: ts) K'

/-- What comes after tokens that are in order decides. -/
theorem Leads.outlook_append {K K' : List Expectation} {ts : List Token} (h : Leads K ts K')
    (us : List Token) : outlook K (ts ++ us) = outlook K' us := by
  induction h with
  | nil => rfl
  | cons h more ih => rw [List.cons_append, outlook, h, ← ih]

theorem exists_leads {ts : List Token} {n : Nat} {K : List Expectation}
    (h : outlook K ts = .ok n) : ∃ K', Leads K ts K' ∧ closing K' = .ok n := by
  induction ts generalizing K with
  | nil => exact ⟨K, .nil, h⟩
  | cons t ts ih =>
      cases hstep : step K t with
      | error f =>
          rw [outlook, hstep] at h
          cases h
      | ok K₁ =>
          rw [outlook, hstep] at h
          obtain ⟨K', hleads, hclosing⟩ := ih h
          exact ⟨K', .cons hstep hleads, hclosing⟩

/-- The first fault is found at a token, or at the end of the input. -/
theorem exists_leads_of_error {ts : List Token} {f : Fault} {K : List Expectation}
    (h : outlook K ts = .error f) :
    (∃ u t v K', ts = u ++ t :: v ∧ Leads K u K' ∧ step K' t = .error f) ∨
      ∃ K', Leads K ts K' ∧ closing K' = .error f := by
  induction ts generalizing K with
  | nil => exact .inr ⟨K, .nil, h⟩
  | cons t ts ih =>
      cases hstep : step K t with
      | error g =>
          rw [outlook, hstep] at h
          cases h
          exact .inl ⟨[], t, ts, K, rfl, .nil, hstep⟩
      | ok K₁ =>
          rw [outlook, hstep] at h
          rcases ih h with ⟨u, t', v, K', rfl, hleads, herror⟩ | ⟨K', hleads, hclosing⟩
          · exact .inl ⟨t :: u, t', v, K', rfl, .cons hstep hleads, herror⟩
          · exact .inr ⟨K', .cons hstep hleads, hclosing⟩

namespace Expectation

/-- Whether an expectation is one that others come after. -/
def isInner : Expectation → Bool
  | token kind => kind ≠ .eof
  | statement => false
  | program => false
  | _ => true

/-- Whether an expectation can leave one behind that passes tokens on. -/
def isLoose : Expectation → Bool
  | operand => true
  | operators _ => true
  | semicolon => true
  | alternative => true
  | _ => false

/-- Whether an expectation can come after one that passes tokens on. -/
def isFirm : Expectation → Bool
  | token kind => kind = .rparen
  | operators _ => true
  | semicolon => true
  | alternative => true
  | moreArgs => true
  | block => true
  | program => true
  | _ => false

@[simp]
theorem isInner_operators (level : Level) : (operators level).isInner = true := rfl

@[simp]
theorem isFirm_operators (level : Level) : (operators level).isFirm = true := rfl

end Expectation

/-- The expectations there are while a program is read. -/
inductive Orderly : List Expectation → Prop where
  | program : Orderly [.program]
  | cons {x y : Expectation} {K : List Expectation} (hx : x.isInner = true)
      (hxy : x.isLoose = true → y.isFirm = true) (h : Orderly (y :: K)) : Orderly (x :: y :: K)

section Orderly

variable {K K' rest : List Expectation} {x y : Expectation} {t : Token} {ts : List Token}

theorem orderly_cons : Orderly (x :: y :: K) ↔
    x.isInner = true ∧ (x.isLoose = true → y.isFirm = true) ∧ Orderly (y :: K) := by
  constructor
  · intro h
    cases h with
    | cons hx hxy h => exact ⟨hx, hxy, h⟩
  · exact fun h => .cons h.1 h.2.1 h.2.2

/-- Whether expectations can be put in front of any that are firm. -/
def Prefixes (rest : List Expectation) : Prop :=
  ∀ y K, y.isFirm = true → Orderly (y :: K) → Orderly (rest ++ y :: K)

theorem operandReaction_prefixes (h : operandReaction t = .takes rest) : Prefixes rest := by
  intro y K hy hK
  unfold operandReaction at h
  split at h
  case h_2 =>
    split at h
    · cases h
      exact hK
    · cases h
  case h_10 => cases h
  all_goals
    cases h
    simp +decide [signRest, groupRest, condRest, functionRest, orderly_cons, hy, hK]

theorem operandReaction_ne_passes (t : Token) : operandReaction t ≠ .passes := by
  unfold operandReaction
  repeat' split
  all_goals simp

theorem Reaction.exists_of_andThen {r : Reaction} (h : r.andThen K = .takes rest) :
    ∃ first, r = .takes first ∧ rest = first ++ K := by
  cases r with
  | takes first =>
      cases h
      exact ⟨first, rfl, rfl⟩
  | passes => cases h
  | fails f => cases h

theorem Reaction.andThen_eq_passes {r : Reaction} : r.andThen K = .passes ↔ r = .passes := by
  cases r <;> simp [Reaction.andThen]

theorem Reaction.andThen_eq_fails {r : Reaction} {f : Fault} :
    r.andThen K = .fails f ↔ r = .fails f := by
  cases r <;> simp [Reaction.andThen]

theorem statementReaction_prefixes (h : statementReaction t = .takes rest) : Prefixes rest := by
  intro y K hy hK
  unfold statementReaction at h
  split at h
  case h_3 =>
    obtain ⟨first, hfirst, rfl⟩ := Reaction.exists_of_andThen h
    rw [List.append_assoc]
    refine operandReaction_prefixes hfirst _ _ rfl ?_
    simp +decide [orderly_cons, hy, hK]
  all_goals
    cases h
    simp +decide [bindingRest, returnRest, orderly_cons, hy, hK]

theorem statementReaction_ne_passes (t : Token) : statementReaction t ≠ .passes := by
  unfold statementReaction
  split
  case h_3 =>
    rw [Ne, Reaction.andThen_eq_passes]
    exact operandReaction_ne_passes t
  all_goals simp

/-- What an expectation leaves behind can stand where it stood. -/
theorem Orderly.of_takes (h : Orderly (x :: y :: K)) (hmeet : x.meet t = .takes rest) :
    Orderly (rest ++ y :: K) := by
  obtain ⟨hx, hxy, hK⟩ := orderly_cons.mp h
  cases x with
  | statement => cases hx
  | program => cases hx
  | operand => exact operandReaction_prefixes hmeet _ _ (hxy rfl) hK
  | args =>
      simp only [meet] at hmeet
      split at hmeet
      · cases hmeet
        exact hK
      · obtain ⟨first, hfirst, rfl⟩ := Reaction.exists_of_andThen hmeet
        rw [List.append_assoc]
        refine operandReaction_prefixes hfirst _ _ rfl ?_
        simp +decide [orderly_cons, hK]
  | block =>
      simp only [meet] at hmeet
      split at hmeet
      · cases hmeet
        exact hK
      · split at hmeet
        · cases hmeet
        · obtain ⟨first, hfirst, rfl⟩ := Reaction.exists_of_andThen hmeet
          rw [List.append_assoc]
          refine statementReaction_prefixes hfirst _ _ rfl ?_
          simp +decide [orderly_cons, hK]
  | operators level =>
      simp only [meet] at hmeet
      split at hmeet
      · split at hmeet <;> cases hmeet
        all_goals simp +decide [orderly_cons, hxy rfl, hK]
      · cases hmeet
  | _ =>
      simp only [meet] at hmeet
      repeat' split at hmeet
      all_goals cases hmeet
      all_goals simp +decide [orderly_cons, hK]

/-- A token that is in order leaves the expectations in order. -/
theorem Orderly.after_step (h : Orderly K) (ht : t.kind ≠ .eof) (hstep : step K t = .ok K') :
    Orderly K' := by
  -- the token is passed on up to the one that takes it, and the last one passes only the end on
  induction h with
  | program =>
      simp only [step, meet, if_neg ht] at hstep
      split at hstep
      next rest hmeet =>
        obtain ⟨first, hfirst, rfl⟩ := Reaction.exists_of_andThen hmeet
        cases hstep
        rw [List.append_nil]
        exact statementReaction_prefixes hfirst _ _ rfl .program
      next hmeet =>
        exact absurd (Reaction.andThen_eq_passes.mp hmeet) (statementReaction_ne_passes t)
      next => cases hstep
  | cons hx hxy hK ih =>
      rw [step] at hstep
      split at hstep
      next hmeet =>
        cases hstep
        exact Orderly.of_takes (.cons hx hxy hK) hmeet
      next => exact ih hstep
      next => cases hstep

theorem Leads.orderly (h : Leads K ts K') (hK : Orderly K) (hts : ∀ t ∈ ts, t.kind ≠ .eof) :
    Orderly K' := by
  induction h with
  | nil => exact hK
  | cons hstep more ih =>
      rw [List.forall_mem_cons] at hts
      exact ih (hK.after_step hts.1 hstep) hts.2

end Orderly

end Monkey.Grammar

import Monkey.Proofs.Grammar.Foresight

/-!
# The first fault

The first fault of an input is found at the first token that cannot be mended. The tokens before it
can be continued to an input without faults, since what is expected after them can always be written
down, and no input without faults begins with them and that token.
-/

namespace Monkey.Grammar

open Expectation

/-- A message is about a token. -/
def Names (message : Bytes) (t : Token) : Prop :=
  (∃ want : Token.Kind, message = utf8 "expected next token to be " ++ want.text ++
      utf8 ", got " ++ t.kind.text ++ utf8 " instead") ∨
    message = utf8 "no prefix parse function for " ++ t.kind.text ++ utf8 " found" ∨
    message = utf8 "could not parse " ++ Text.quote t.literal ++ utf8 " as integer"

theorem names_unexpected (want : Token.Kind) (t : Token) :
    Names (Fault.unexpected want t.kind).message t := .inl ⟨want, rfl⟩

section Names

variable {t : Token} {f : Fault}

theorem operandReaction_names (h : operandReaction t = .fails f) : Names f.message t := by
  unfold operandReaction at h
  split at h
  case h_2 =>
    split at h
    · cases h
    · cases h
      exact .inr (.inr rfl)
  case h_10 =>
    cases h
    exact .inr (.inl rfl)
  all_goals cases h

theorem statementReaction_names (h : statementReaction t = .fails f) : Names f.message t := by
  unfold statementReaction at h
  split at h
  case h_3 => exact operandReaction_names (Reaction.andThen_eq_fails.mp h)
  all_goals cases h

theorem Expectation.meet_names {x : Expectation} (h : x.meet t = .fails f) :
    Names f.message t := by
  cases x with
  | operand => exact operandReaction_names h
  | statement => exact statementReaction_names h
  | args =>
      simp only [meet] at h
      split at h
      · cases h
      · exact operandReaction_names (Reaction.andThen_eq_fails.mp h)
  | block =>
      simp only [meet] at h
      repeat' split at h
      · cases h
      · cases h
      · exact statementReaction_names (Reaction.andThen_eq_fails.mp h)
  | program =>
      simp only [meet] at h
      split at h
      · cases h
      · exact statementReaction_names (Reaction.andThen_eq_fails.mp h)
  | _ =>
      simp only [meet] at h
      repeat' split at h
      all_goals cases h
      all_goals exact names_unexpected _ t

theorem step_names {K : List Expectation} (h : step K t = .error f) : Names f.message t := by
  induction K with
  | nil => cases h
  | cons x K ih =>
      rw [step] at h
      split at h
      next => cases h
      next => exact ih h
      next hmeet =>
        cases h
        exact meet_names hmeet

theorem closing_names {K : List Expectation} (h : closing K = .error f) :
    Names f.message endToken := by
  induction K with
  | nil => cases h
  | cons x K ih =>
      rw [closing] at h
      split at h
      next hmeet =>
        cases h
        exact meet_names hmeet
      next =>
        refine ih ?_
        cases hK : closing K with
        | ok n =>
            rw [hK] at h
            cases h
        | error g =>
            rw [hK] at h
            exact h

end Names

/-- A token of a kind. -/
def sample (kind : Token.Kind) : Token := ⟨kind, kind.text, .start⟩

/-- Tokens that an expectation is content with. -/
def Expectation.closers : Expectation → List Token
  | token kind => [sample kind]
  | operand => [sample .ident]
  | params => [sample .rparen]
  | moreParams => [sample .rparen]
  | args => [sample .rparen]
  | moreArgs => [sample .rparen]
  | block => [sample .rbrace]
  | _ => []

/-- Tokens that bring an input to its end. -/
def completion (K : List Expectation) : List Token := K.flatMap closers

theorem completion_cons (x : Expectation) (K : List Expectation) :
    completion (x :: K) = x.closers ++ completion K := rfl

/-- The kinds of the tokens that close something. -/
def closingKinds : List Token.Kind := [.rparen, .rbrace, .eof]

namespace Expectation

variable {x : Expectation}

/-- An expectation takes its closing token, or it may be left out. -/
theorem closers_cases (hx : x.isInner = true) :
    (∃ t, x.closers = [t] ∧ t.kind ≠ .eof ∧ x.meet t = .takes []) ∨
      x.closers = [] ∧ x.isLoose = true ∧ x.openBlocks = 0 := by
  cases x with
  | token kind => exact .inl ⟨sample kind, rfl, of_decide_eq_true hx, if_pos rfl⟩
  | operators level => exact .inr ⟨rfl, rfl, rfl⟩
  | semicolon => exact .inr ⟨rfl, rfl, rfl⟩
  | alternative => exact .inr ⟨rfl, rfl, rfl⟩
  | statement => cases hx
  | program => cases hx
  | _ => exact .inl ⟨_, rfl, by decide, rfl⟩

/-- What may be left out passes on whatever closes something. -/
theorem meet_eq_passes {t : Token} (hx : x.isInner = true) (hclosers : x.closers = [])
    (ht : t.kind ∈ closingKinds) : x.meet t = .passes := by
  simp only [closingKinds, List.mem_cons, List.not_mem_nil, or_false] at ht
  cases x with
  | operators level =>
      have hlevel : Level.ofKind t.kind = .lowest := by rcases ht with h | h | h <;> rw [h] <;> rfl
      exact if_neg (hlevel ▸ Nat.not_lt_zero _)
  | semicolon => rcases ht with h | h | h <;> simp [meet, h]
  | alternative => rcases ht with h | h | h <;> simp [meet, h]
  | statement => cases hx
  | program => cases hx
  | _ => cases hclosers

end Expectation

namespace Orderly

variable {K : List Expectation}

/-- What is firm is brought to its end by a token that closes something. -/
theorem kind_leadToken_completion {x : Expectation} (h : Orderly (x :: K)) (hx : x.isFirm = true) :
    (leadToken (completion (x :: K))).kind ∈ closingKinds := by
  induction K generalizing x with
  | nil =>
      cases h
      decide
  | cons y K ih =>
      obtain ⟨hinner, hxy, hK⟩ := orderly_cons.mp h
      rcases closers_cases hinner with ⟨t, hclosers, -, -⟩ | ⟨hclosers, hloose, -⟩
      · rw [completion_cons, hclosers, List.singleton_append, leadToken, List.headD_cons]
        cases x with
        | token kind =>
            obtain rfl : kind = .rparen := of_decide_eq_true hx
            cases hclosers
            decide
        | moreArgs =>
            cases hclosers
            decide
        | block =>
            cases hclosers
            decide
        | program => cases hinner
        | _ => cases hclosers <;> cases hx
      · rw [completion_cons, hclosers, List.nil_append]
        exact ih hK (hxy hloose)

/-- What is expected can be written down, and nothing is open then. -/
theorem outlook_completion (h : Orderly K) : outlook K (completion K) = .ok 0 := by
  induction h with
  | program => rfl
  | @cons x y K hx hxy hK ih =>
      rw [completion_cons]
      rcases closers_cases hx with ⟨t, hclosers, -, hmeet⟩ | ⟨hclosers, hloose, hopen⟩
      · have hlead : x.meet (leadToken (t :: completion (y :: K))) = .takes [] := hmeet
        rw [hclosers, List.singleton_append, outlook_of_takes hlead, List.tail_cons,
          List.nil_append, ih]
      · have hlead := hK.kind_leadToken_completion (hxy hloose)
        rw [hclosers, List.nil_append,
          outlook_of_passes (meet_eq_passes hx hclosers hlead) (.inl hopen), ih]

theorem kind_ne_eof_completion (h : Orderly K) : ∀ t ∈ completion K, t.kind ≠ .eof := by
  induction h with
  | program => exact fun t ht => absurd ht List.not_mem_nil
  | @cons x y K hx hxy hK ih =>
      rw [completion_cons]
      rcases closers_cases hx with ⟨t, hclosers, hkind, -⟩ | ⟨hclosers, -, -⟩
      · rw [hclosers, List.singleton_append]
        exact List.forall_mem_cons.mpr ⟨hkind, ih⟩
      · rw [hclosers, List.nil_append]
        exact ih

end Orderly

/-- A stream of the tokens and of nothing else. -/
def streamOf (ts : List Token) : Token.Stream := ⟨ts, .start, id⟩

/-- An input without faults begins with the tokens. -/
def Mendable (tracing : Bool) (u : List Token) : Prop :=
  ∃ whole : Token.Stream, (∀ t ∈ whole.items, t.kind ≠ .eof) ∧ u <+: whole.items ∧
    (parse whole tracing).faults = []

section Mendable

variable {u : List Token} {K : List Expectation} {f : Fault} {tracing : Bool}

theorem Leads.mendable (h : Leads [.program] u K) (hu : ∀ t ∈ u, t.kind ≠ .eof) :
    Mendable tracing u := by
  have hK : Orderly K := h.orderly .program hu
  have hend : ∀ t ∈ u ++ completion K, t.kind ≠ .eof :=
    List.forall_mem_append.mpr ⟨hu, hK.kind_ne_eof_completion⟩
  have houtlook : outlook [.program] (u ++ completion K) = .ok 0 := by
    rw [h.outlook_append, hK.outlook_completion]
  exact ⟨streamOf (u ++ completion K), hend, List.prefix_append u _, faults_eq_nil hend houtlook⟩

/-- A token that is a fault is one whatever comes after it. -/
theorem Leads.not_mendable {t : Token} (h : Leads [.program] u K) (ht : step K t = .error f) :
    ¬ Mendable tracing (u ++ [t]) := by
  rintro ⟨whole, hend, ⟨v, hitems⟩, hfaults⟩
  have houtlook : outlook [.program] whole.items = .error f := by
    rw [← hitems, List.append_assoc, h.outlook_append, List.singleton_append, outlook, ht]
  exact faults_ne_nil hend houtlook hfaults

end Mendable

/-- The first fault of an input is at the first token with which no input without faults begins, and
its message is about that token. -/
theorem parse_first_fault (input : Token.Stream) (tracing : Bool)
    (hend : ∀ t ∈ input.items, t.kind ≠ .eof) (hfaults : (parse input tracing).faults ≠ []) :
    ∃ u t v f more, input.items ++ [input.endToken] = u ++ t :: v ∧
      Mendable tracing u ∧ ¬ Mendable tracing (u ++ [t]) ∧
      (t.kind = .eof →
        ∀ other : Token.Stream, other.items = u → (parse other tracing).faults ≠ []) ∧
      (parse input tracing).faults = f :: more ∧ Names f.message t := by
  obtain ⟨f, hf⟩ : ∃ f, outlook [.program] input.items = .error f := by
    cases houtlook : outlook [.program] input.items with
    | ok n => exact absurd (faults_eq_nil hend houtlook) hfaults
    | error f => exact ⟨f, rfl⟩
  obtain ⟨more, hmore⟩ : ∃ more, (parse input tracing).faults = f :: more :=
    exists_faults_eq hend hf
  rcases exists_leads_of_error hf with ⟨u, t, v, K, hitems, hleads, hstep⟩ | ⟨K, hleads, hclosing⟩
  · rw [hitems, List.forall_mem_append, List.forall_mem_cons] at hend
    refine ⟨u, t, v ++ [input.endToken], f, more, by simp [hitems], hleads.mendable hend.1,
      hleads.not_mendable hstep, fun hkind => absurd hkind hend.2.1, hmore, step_names hstep⟩
  · refine ⟨input.items, input.endToken, [], f, more, rfl, hleads.mendable hend, ?_, ?_, hmore,
      closing_names hclosing⟩
    · rintro ⟨whole, hwhole, hbegins, -⟩
      exact hwhole input.endToken (hbegins.subset (by simp)) rfl
    · intro _ other hother
      exact faults_ne_nil (hother ▸ hend) (hother ▸ hf)

/-- In the source, the condition lacks its closing parenthesis. -/
theorem parse_first_fault_nested :
    let input := Token.Stream.ofSource (utf8 "let f = fn(x) \x7b if (x \x7b y \x7d \x7d; f(1)")
    ∃ u t v f more, input.items ++ [input.endToken] = u ++ t :: v ∧
      Mendable true u ∧ ¬ Mendable true (u ++ [t]) ∧
      (t.kind = .eof → ∀ other : Token.Stream, other.items = u → (parse other true).faults ≠ []) ∧
      (parse input true).faults = f :: more ∧ Names f.message t :=
  parse_first_fault _ true (by decide +kernel) (by decide +kernel)

end Monkey.Grammar

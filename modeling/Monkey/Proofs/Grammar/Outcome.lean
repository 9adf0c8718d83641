import Mathlib.Tactic.Common
import Monkey.Grammar.Parse

/-!
# What comes of a rule

`o.Satisfies P Q X` says what is known of the outcome of a rule: `P` of what it found and of the
state after it, `Q` of the state in which it failed, and `X` if it was cut off. The combinators
from which rules are made each have one lemma that says what has to be known before them, so that
a statement about a rule is taken apart along its definition. A loop is judged by a relation `R`
between the beginning of a round and the end of the loop.

What holds of the states before and after every rule, whatever its steps are, is proved by induction
on the steps. For a relation between states that induction is done once, and `Steady` says what the
relation needs for it.

A rule reads its stream through the current token and the one after it. `State.tokens` are the
tokens from the current one on and `State.ahead` those after it, in both cases without the end
tokens; `leadKind` is the kind of the first token of such a list.
-/

namespace Monkey.Grammar

/-- The kind of the first token of a list after which end tokens come. -/
def leadKind : List Token → Token.Kind
  | [] => .eof
  | t :: _ => t.kind

@[simp] theorem leadKind_nil : leadKind [] = .eof := rfl

@[simp] theorem leadKind_cons (t : Token) (ts : List Token) : leadKind (t :: ts) = t.kind := rfl

theorem eq_cons_of_leadKind {ts : List Token} {kind : Token.Kind} (h : leadKind ts = kind)
    (hk : kind ≠ .eof) : ∃ t rest, ts = t :: rest ∧ t.kind = kind := by
  cases ts with
  | nil => exact absurd h.symm hk
  | cons t rest => exact ⟨t, rest, rfl, h⟩

theorem leadKind_append {ts us : List Token} (h : leadKind ts ≠ .eof) :
    leadKind (ts ++ us) = leadKind ts := by
  cases ts with
  | nil => exact absurd rfl h
  | cons t ts => rfl

theorem leadKind_of_head? {ts us : List Token} (h : ts.head? = us.head?) :
    leadKind ts = leadKind us := by
  cases ts <;> cases us <;> simp_all

/-- Any kind of token. -/
def anyKind : Token.Kind → Prop := fun _ => True

namespace State

/-- The tokens from the current one on. -/
def tokens (s : State) : List Token := s.input.items

/-- The tokens after the current one. -/
def ahead (s : State) : List Token := s.tokens.tail

/-- Whether nothing has been found wrong so far. -/
def Clean (s : State) : Prop := s.faults = []

/-- Whether the input ends where its list of tokens does. -/
def Proper (s : State) : Prop := ∀ t ∈ s.tokens, t.kind ≠ .eof

theorem input_advance_items (input : Token.Stream) : input.advance.items = input.items.tail := by
  cases h : input.items with
  | nil => simp [Token.Stream.advance, h]
  | cons t ts => simp [Token.Stream.advance, h]

@[simp] theorem tokens_advance (s : State) : s.advance.tokens = s.ahead :=
  input_advance_items s.input

@[simp] theorem current_advance (s : State) : s.advance.input.current = s.input.peek := rfl

@[simp] theorem faults_advance (s : State) : s.advance.faults = s.faults := rfl

@[simp] theorem faults_report (f : Fault) (s : State) : (s.report f).faults = f :: s.faults := rfl

@[simp] theorem input_enter (rule : RuleName) (s : State) : (s.enter rule).input = s.input := by
  unfold enter
  split <;> rfl

@[simp] theorem input_leave (rule : RuleName) (s : State) : (s.leave rule).input = s.input := by
  unfold leave
  split <;> rfl

@[simp] theorem faults_enter (rule : RuleName) (s : State) : (s.enter rule).faults = s.faults := by
  unfold enter
  split <;> rfl

@[simp] theorem faults_leave (rule : RuleName) (s : State) : (s.leave rule).faults = s.faults := by
  unfold leave
  split <;> rfl

@[simp] theorem tokens_enter (rule : RuleName) (s : State) : (s.enter rule).tokens = s.tokens := by
  simp [tokens]

@[simp] theorem tokens_leave (rule : RuleName) (s : State) : (s.leave rule).tokens = s.tokens := by
  simp [tokens]

@[simp] theorem ahead_enter (rule : RuleName) (s : State) : (s.enter rule).ahead = s.ahead := by
  simp [ahead]

@[simp] theorem ahead_leave (rule : RuleName) (s : State) : (s.leave rule).ahead = s.ahead := by
  simp [ahead]

@[simp] theorem clean_enter (rule : RuleName) (s : State) : (s.enter rule).Clean ↔ s.Clean := by
  simp [Clean]

@[simp] theorem clean_leave (rule : RuleName) (s : State) : (s.leave rule).Clean ↔ s.Clean := by
  simp [Clean]

@[simp] theorem clean_advance (s : State) : s.advance.Clean ↔ s.Clean := Iff.rfl

@[simp] theorem not_clean_report (f : Fault) (s : State) : ¬ (s.report f).Clean := by
  simp [Clean]

@[simp] theorem proper_enter (rule : RuleName) (s : State) : (s.enter rule).Proper ↔ s.Proper := by
  simp [Proper]

theorem Proper.tokens_eq_nil {s : State} (h : s.Proper) (heof : leadKind s.tokens = .eof) :
    s.tokens = [] := by
  cases ht : s.tokens with
  | nil => rfl
  | cons t ts =>
      rw [ht] at heof
      exact absurd heof (h t (by simp [ht]))

theorem ahead_of_tokens {s : State} {t : Token} {ts : List Token} (h : s.tokens = t :: ts) :
    s.ahead = ts := by
  simp [ahead, h]

theorem current_of_tokens {s : State} {t : Token} {ts : List Token} (h : s.tokens = t :: ts) :
    s.input.current = t := by
  unfold tokens at h
  simp [Token.Stream.current, h]

theorem current_kind (s : State) : s.input.current.kind = leadKind s.tokens := by
  cases h : s.tokens with
  | nil =>
      unfold tokens at h
      simp [Token.Stream.current, h, Token.Stream.endToken]
  | cons t ts => rw [current_of_tokens h, leadKind_cons]

theorem peek_kind (s : State) : s.input.peek.kind = leadKind s.ahead := by
  have h := current_kind s.advance
  rwa [tokens_advance] at h

end State

namespace Outcome

variable {α : Type}

def Satisfies (o : Outcome α) (P : α → State → Prop) (Q : State → Prop) (X : Prop) : Prop :=
  match o with
  | found a s => P a s
  | failed s => Q s
  | exhausted => X

theorem Satisfies.mono {o : Outcome α} {P P' : α → State → Prop} {Q Q' : State → Prop}
    {X X' : Prop} (h : o.Satisfies P Q X) (hP : ∀ a s, P a s → P' a s) (hQ : ∀ s, Q s → Q' s)
    (hX : X → X') : o.Satisfies P' Q' X' := by
  cases o with
  | found a s => exact hP a s h
  | failed s => exact hQ s h
  | exhausted => exact hX h

theorem Satisfies.and {o : Outcome α} {P P' : α → State → Prop} {Q Q' : State → Prop}
    {X X' : Prop} (h : o.Satisfies P Q X) (h' : o.Satisfies P' Q' X') :
    o.Satisfies (fun a s => P a s ∧ P' a s) (fun s => Q s ∧ Q' s) (X ∧ X') := by
  cases o with
  | found a s => exact ⟨h, h'⟩
  | failed s => exact ⟨h, h'⟩
  | exhausted => exact ⟨h, h'⟩

theorem Satisfies.of_found {o : Outcome α} {P : α → State → Prop} {Q : State → Prop} {X : Prop}
    (h : o.Satisfies P Q X) {a : α} {s : State} (ho : o = .found a s) : P a s := by
  subst ho
  exact h

end Outcome

namespace Rule

open Outcome

variable {α β : Type} {P : α → State → Prop} {Q : State → Prop} {X : Prop}

theorem satisfies_pure (a : α) (s : State) :
    ((pure a : Rule α) s).Satisfies P Q X ↔ P a s := Iff.rfl

theorem satisfies_bind (r : Rule β) (f : β → Rule α) (s : State) :
    ((r >>= f) s).Satisfies P Q X ↔
      (r s).Satisfies (fun b s₁ => (f b s₁).Satisfies P Q X) Q X := by
  change (Rule.bind r f s).Satisfies P Q X ↔ _
  rw [run]
  cases r s <;> exact Iff.rfl

theorem satisfies_current {P : Token → State → Prop} (s : State) :
    (current s).Satisfies P Q X ↔ P s.input.current s := Iff.rfl

theorem satisfies_peek {P : Token → State → Prop} (s : State) :
    (peek s).Satisfies P Q X ↔ P s.input.peek s := Iff.rfl

theorem satisfies_advance {P : Unit → State → Prop} (s : State) :
    (advance s).Satisfies P Q X ↔ P () s.advance := Iff.rfl

theorem satisfies_fail (f : Fault) (s : State) :
    ((fail f : Rule α) s).Satisfies P Q X ↔ Q (s.report f) := Iff.rfl

theorem satisfies_ite (c : Prop) [Decidable c] (r r' : Rule α) (s : State) :
    ((if c then r else r') s).Satisfies P Q X ↔
      (c → (r s).Satisfies P Q X) ∧ (¬ c → (r' s).Satisfies P Q X) := by
  by_cases h : c <;> simp [h]

theorem satisfies_expect {P : Token → State → Prop} (want : Token.Kind) (s : State) :
    (expect want s).Satisfies P Q X ↔
      (leadKind s.ahead = want → P s.input.peek s.advance) ∧
        (leadKind s.ahead ≠ want → Q (s.report (.unexpected want (leadKind s.ahead)))) := by
  rw [← State.peek_kind]
  unfold expect
  simp only [satisfies_bind, satisfies_peek, satisfies_ite, satisfies_advance, satisfies_pure,
    satisfies_fail]

theorem satisfies_accept {P : Bool → State → Prop} (kind : Token.Kind) (s : State) :
    (accept kind s).Satisfies P Q X ↔
      (leadKind s.ahead = kind → P true s.advance) ∧ (leadKind s.ahead ≠ kind → P false s) := by
  rw [← State.peek_kind]
  unfold accept
  simp only [satisfies_bind, satisfies_peek, satisfies_ite, satisfies_advance, satisfies_pure]

theorem satisfies_attempt {P : Option Stmt → State → Prop} (r : Rule Stmt) (s : State) :
    (attempt r s).Satisfies P Q X ↔
      (r s).Satisfies (fun a s₁ => P (some a) s₁) (fun s₁ => P none s₁) X := by
  rw [run]
  cases r s <;> exact Iff.rfl

theorem satisfies_traced (name : RuleName) (r : Rule α) (s : State) :
    (traced name r s).Satisfies P Q X ↔
      (r (s.enter name)).Satisfies (fun a s₁ => P a (s₁.leave name))
        (fun s₁ => Q (s₁.leave name)) X := by
  rw [run]
  cases r (s.enter name) <;> exact Iff.rfl

theorem satisfies_silent (r : Rule α) (s : State) :
    (silent r s).Satisfies P Q X ↔ (r s).Satisfies P Q X := Iff.rfl

theorem satisfies_iterate_succ {P : β → State → Prop} (round : α → Rule (α ⊕ β)) (bound : Nat)
    (a : α) (s : State) :
    (iterate round (bound + 1) a s).Satisfies P Q X ↔
      (round a s).Satisfies
        (fun x s₁ => x.elim (fun a₁ => (iterate round bound a₁ s₁).Satisfies P Q X)
          (fun b => P b s₁)) Q X := by
  rw [iterate, satisfies_bind]
  cases round a s with
  | found x s₁ => cases x <;> exact Iff.rfl
  | failed s₁ => exact Iff.rfl
  | exhausted => exact Iff.rfl

/-- What a round of a loop has to do: it goes on with something that keeps the invariant `I` and
from which `R` leads back to where the round began, or it ends the loop in accordance with
`R`. -/
def RoundFits (I : α → State → Prop) (R : α → State → β → State → Prop) (a : α) (s : State) :
    α ⊕ β → State → Prop
  | .inl a₁, s₁ => I a₁ s₁ ∧ ∀ b s₂, R a₁ s₁ b s₂ → R a s b s₂
  | .inr b, s₁ => R a s b s₁

theorem satisfies_iterate {round : α → Rule (α ⊕ β)} (I : α → State → Prop)
    (R : α → State → β → State → Prop)
    (step : ∀ a s, I a s → (round a s).Satisfies (RoundFits I R a s) Q True) (bound : Nat) :
    ∀ a s, I a s → (iterate round bound a s).Satisfies (R a s) Q True := by
  induction bound with
  | zero =>
      intro a s _
      trivial
  | succ bound ih =>
      intro a s hI
      rw [satisfies_iterate_succ]
      refine (step a s hI).mono ?_ (fun _ h => h) id
      intro x s₁ hx
      cases x with
      | inl a₁ => exact (ih a₁ s₁ hx.1).mono hx.2 (fun _ h => h) id
      | inr b => exact hx

/-- A relation between states that holds before and after each step. -/
structure Steady (R : State → State → Prop) : Prop where
  refl : ∀ s, R s s
  trans : ∀ {s t u}, R s t → R t u → R s u
  advance : ∀ s, R s s.advance
  report : ∀ f s, R s (s.report f)
  traced : ∀ {s t} {name : RuleName}, R (s.enter name) t → R s (t.leave name)

/-- However a rule ends, its states before and after are related by what each step keeps. -/
theorem Steady.run {R : State → State → Prop} (h : Steady R) (r : Rule α) (s : State) :
    (r s).Satisfies (fun _ t => R s t) (fun t => R s t) True := by
  induction r generalizing s with
  | pure a => exact h.refl s
  | current => exact h.refl s
  | peek => exact h.refl s
  | advance => exact h.advance s
  | fail f => exact h.report f s
  | exhausted => trivial
  | bind r f ihr ihf =>
      apply (satisfies_bind r f s).mpr
      refine (ihr s).mono (fun a t ht => ?_) (fun _ ht => ht) id
      exact (ihf a t).mono (fun _ _ hu => h.trans ht hu) (fun _ hu => h.trans ht hu) id
  | attempt r ih =>
      rw [satisfies_attempt]
      exact ih s
  | traced name r ih =>
      rw [satisfies_traced]
      exact (ih (s.enter name)).mono (fun _ _ ht => h.traced ht) (fun _ ht => h.traced ht) id
  | silent r ih => exact ih s

/-- No rule goes back in the stream. -/
theorem steady_tokens : Steady fun s t => t.tokens <:+ s.tokens where
  refl _ := List.suffix_refl _
  trans h h' := h'.trans h
  advance s := by
    rw [State.tokens_advance]
    exact List.tail_suffix _
  report _ _ := List.suffix_refl _
  traced h := by simpa only [State.tokens_enter, State.tokens_leave] using h

/-- No rule takes a fault back. -/
theorem steady_faults : Steady fun s t => s.faults <:+ t.faults where
  refl _ := List.suffix_refl _
  trans := List.IsSuffix.trans
  advance _ := List.suffix_refl _
  report f _ := List.suffix_cons f _
  traced h := by simpa only [State.faults_enter, State.faults_leave] using h

end Rule

end Monkey.Grammar

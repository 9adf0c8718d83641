import Monkey.Proofs.Grammar.Completeness
import Monkey.Proofs.Grammar.Soundness
import Monkey.Proofs.Tree.Children

/-!
# One fault for each statement that is dropped

A rule that fails has recorded exactly one fault of its own, and one that finds something has
recorded none. What else has been recorded on the way was recorded by statements that failed inside
a block and were dropped there. So the faults of a stream are as many as the statements that are
dropped when it is read, in the program and in all blocks together.

The account holds of every rule, whatever steps it has: a step can only record a fault by failing,
and a failure ends with the statement that is attempted, for nothing but a statement can be.

A statement that is found and in which there is no block comes without any fault. For it has a
derivation, which is one of the grammar since only within blocks tokens are passed over, and what
has a derivation of the grammar is read without a fault.
-/

namespace Monkey

namespace Grammar

open Rule Outcome

/-- The second state has `n` faults more than the first, recorded after those of the first. -/
def State.Records (s : State) (n : Nat) (s' : State) : Prop :=
  ∃ new, new.length = n ∧ s'.faults = new ++ s.faults

namespace State

variable {s s₁ s₂ : State} {m n : Nat}

theorem Records.of_eq (h : s₁.faults = s.faults) : s.Records 0 s₁ := ⟨[], rfl, h⟩

theorem Records.trans (h : s.Records m s₁) (h' : s₁.Records n s₂) : s.Records (m + n) s₂ := by
  obtain ⟨new, hlength, hfaults⟩ := h
  obtain ⟨newer, hlength', hfaults'⟩ := h'
  refine ⟨newer ++ new, ?_, ?_⟩
  · rw [List.length_append, hlength, hlength', Nat.add_comm]
  · rw [hfaults', hfaults, List.append_assoc]

end State

namespace Rule

/-- How many of the statements that are attempted on the way fail. -/
def drops : {α : Type} → Rule α → State → Nat
  | _, .bind r f, s =>
    r.drops s + match r s with
      | .found a s' => (f a).drops s'
      | _ => 0
  | _, attempt r, s =>
    r.drops s + match r s with
      | .failed _ => 1
      | _ => 0
  | _, traced name r, s => r.drops (s.enter name)
  | _, silent r, s => r.drops s
  | _, _, _ => 0

/-- One fault for each statement that is dropped, and one for the failure of the rule itself. -/
theorem run_records {α : Type} (r : Rule α) (s : State) :
    (r s).Satisfies (fun _ s' => s.Records (r.drops s) s')
      (fun s' => s.Records (r.drops s + 1) s') True := by
  induction r generalizing s with
  | pure a => exact .of_eq rfl
  | current => exact .of_eq rfl
  | peek => exact .of_eq rfl
  | advance => exact .of_eq rfl
  | fail f => exact ⟨[f], rfl, rfl⟩
  | exhausted => trivial
  | bind r f ihr ihf =>
      have hr := ihr s
      rw [run, drops]
      cases hrun : r s with
      | found a s₁ =>
          rw [hrun] at hr
          refine (ihf a s₁).mono (fun _ s₂ h => ?_) (fun s₂ h => ?_) id
          · exact State.Records.trans hr h
          · exact Nat.add_assoc .. ▸ State.Records.trans hr h
      | failed s₁ =>
          rw [hrun] at hr
          exact hr
      | exhausted => trivial
  | attempt r ih =>
      have hr := ih s
      rw [run, drops]
      cases hrun : r s with
      | found a s₁ =>
          rw [hrun] at hr
          exact hr
      | failed s₁ =>
          rw [hrun] at hr
          exact hr
      | exhausted => trivial
  | traced name r ih =>
      rw [satisfies_traced, drops]
      simpa only [State.Records, State.faults_enter, State.faults_leave] using ih (s.enter name)
  | silent r ih => exact ih s

end Rule

/-- How many statements are dropped when a stream is read, in the program and in all blocks. -/
def dropped (input : Token.Stream) (tracing : Bool) : Nat :=
  (program (boundFor input)).drops (.ofStream tracing input)

theorem length_faults (input : Token.Stream) (tracing : Bool) :
    (parse input tracing).faults.length = dropped input tracing := by
  obtain ⟨p, s, hfound, hparse⟩ := parse_eq input tracing
  have hrecords := (program (boundFor input)).run_records (.ofStream tracing input)
  rw [hfound] at hrecords
  obtain ⟨new, hlength, hfaults⟩ := hrecords
  rw [hparse, List.length_reverse, hfaults]
  exact (congrArg List.length (List.append_nil new)).trans hlength

end Grammar

namespace Node

/-- There is no block in a tree. -/
def Blockless (n : Node) : Prop := ∀ m, n.Below m → m.kind? ≠ some .block

theorem Blockless.child {n m : Node} (h : n.Blockless) (hm : m ∈ n.children) : m.Blockless :=
  fun k hk => h k (.head hm hk)

theorem not_blockless_of_mem_children {n : Node} {body : Block}
    (h : .stmt (.block body) ∈ n.children) : ¬ n.Blockless :=
  fun hn => hn _ (.single h) rfl

theorem not_blockless_cond {token : Token} {condition : Expr} {consequence : Block}
    {alternative : Option Block} :
    ¬ (Node.expr (.cond token condition consequence alternative)).Blockless :=
  not_blockless_of_mem_children (.tail _ (.head _))

end Node

theorem Expr.not_blockless_of_dangling : ∀ e : Expr, e.Dangling → ¬ (Node.expr e).Blockless
  | .cond _ _ _ none, _ => Node.not_blockless_cond
  | .unary _ _ right, h => fun hb => not_blockless_of_dangling right h (hb.child (.head _))
  | .binary _ _ _ right, h => fun hb =>
    not_blockless_of_dangling right h (hb.child (.tail _ (.head _)))
  | .cond _ _ _ (some _), h => h.elim
  | .missing, h => h.elim
  | .ident _, h => h.elim
  | .bool _ _, h => h.elim
  | .int _ _, h => h.elim
  | .function _ _ _, h => h.elim
  | .call _ _ _, h => h.elim

theorem Stmt.not_blockless_of_dangling {s : Stmt} (h : s.Dangling) :
    ¬ (Node.stmt s).Blockless := by
  intro hb
  cases s with
  | missing => exact h
  | bind token id value => exact value.not_blockless_of_dangling h (hb.child (.tail _ (.head _)))
  | ret token value => exact value.not_blockless_of_dangling h (hb.child (.head _))
  | expr token value => exact value.not_blockless_of_dangling h (hb.child (.head _))
  | block body => exact h

namespace Grammar

open Rule Outcome

/-- There is no block in a phrase. -/
def Phrase.Blockless : Phrase → Prop
  | expr _ e => (Node.expr e).Blockless
  | args es => ∀ e ∈ es, (Node.expr e).Blockless
  | moreArgs es => ∀ e ∈ es, (Node.expr e).Blockless
  | stmt s => (Node.stmt s).Blockless
  | block _ => False
  | stmts _ => False

/-- Where there is no block, nothing is passed over. -/
theorem Derives.strict_of_blockless {mode : Mode} {ph : Phrase} {ts : List Token}
    (h : Derives mode ph ts) (hb : ph.Blockless) :
    Derives .strict ph ts ∧ ∀ t ∈ ts, t.kind ≠ .rbrace := by
  induction h with
  | ident ht => exact ⟨.ident ht, by simp [ht]⟩
  | int ht hvalue => exact ⟨.int ht hvalue, by simp [ht]⟩
  | yes ht => exact ⟨.yes ht, by simp [ht]⟩
  | no ht => exact ⟨.no ht, by simp [ht]⟩
  | group hlp inside hrp ih =>
      obtain ⟨hinside, hkinds⟩ := ih hb
      exact ⟨.group hlp hinside hrp, by simpa [hlp, hrp, or_imp, forall_and] using hkinds⟩
  | cond => exact absurd hb Node.not_blockless_cond
  | condElse => exact absurd hb Node.not_blockless_cond
  | function =>
      exact absurd hb (Node.not_blockless_of_mem_children (List.mem_append_right _ (.head _)))
  | call hlevel callee hlp args hrp ihf iha =>
      obtain ⟨hcallee, hkinds⟩ := ihf (hb.child (.head _))
      obtain ⟨hargs, hkinds'⟩ := iha fun e he => hb.child (.tail _ (List.mem_map_of_mem he))
      refine ⟨.call hlevel hcallee hlp hargs hrp, ?_⟩
      simpa [hlp, hrp, or_imp, forall_and] using ⟨hkinds, hkinds'⟩
  | unary hlevel ht right ih =>
      obtain ⟨hright, hkinds⟩ := ih (hb.child (.head _))
      refine ⟨.unary hlevel ht hright, List.forall_mem_cons.mpr ⟨?_, hkinds⟩⟩
      intro hbrace
      simp [hbrace, signs] at ht
  | binary hlevel left ht right ihl ihr =>
      obtain ⟨hleft, hkinds⟩ := ihl (hb.child (.head _))
      obtain ⟨hright, hkinds'⟩ := ihr (hb.child (.tail _ (.head _)))
      refine ⟨.binary hlevel hleft ht hright, ?_⟩
      refine List.forall_mem_append.mpr ⟨hkinds, List.forall_mem_cons.mpr ⟨?_, hkinds'⟩⟩
      intro hbrace
      have hlevel := Level.ofKind_of_mem_operators ht
      have hpositive := (Level.rank_of_mem_operators ht).1
      rw [← hlevel, hbrace] at hpositive
      exact Nat.lt_irrefl 0 hpositive
  | noArgs => exact ⟨.noArgs, List.forall_mem_nil _⟩
  | args first more ihe ihes =>
      obtain ⟨hfirst, hkinds⟩ := ihe (hb _ (.head _))
      obtain ⟨hmore, hkinds'⟩ := ihes fun e he => hb e (.tail _ he)
      exact ⟨.args hfirst hmore, List.forall_mem_append.mpr ⟨hkinds, hkinds'⟩⟩
  | lastArg => exact ⟨.lastArg, List.forall_mem_nil _⟩
  | nextArg hcomma next more ihe ihes =>
      obtain ⟨hnext, hkinds⟩ := ihe (hb _ (.head _))
      obtain ⟨hmore, hkinds'⟩ := ihes fun e he => hb e (.tail _ he)
      refine ⟨.nextArg hcomma hnext hmore, ?_⟩
      simpa [hcomma, or_imp, forall_and] using ⟨hkinds, hkinds'⟩
  | bind ht hname heq value ih =>
      obtain ⟨hvalue, hkinds⟩ := ih (hb.child (.tail _ (.head _)))
      exact ⟨.bind ht hname heq hvalue, by simpa [ht, hname, heq] using hkinds⟩
  | ret ht value ih =>
      obtain ⟨hvalue, hkinds⟩ := ih (hb.child (.head _))
      exact ⟨.ret ht hvalue, by simpa [ht] using hkinds⟩
  | exprStmt value ih =>
      obtain ⟨hvalue, hkinds⟩ := ih (hb.child (.head _))
      exact ⟨.exprStmt hvalue, hkinds⟩
  | block => exact hb.elim
  | openBlock => exact hb.elim
  | noStmts => exact hb.elim
  | closed => exact hb.elim
  | unclosed => exact hb.elim
  | dropped => exact hb.elim

/-- Where there is no closing brace, the end has not been taken for one. -/
theorem Spans.eq_append {brace : Token} {ts rest ws : List Token} (h : Spans brace ts rest ws)
    (hbrace : brace.kind = .rbrace) (hws : ∀ t ∈ ws, t.kind ≠ .rbrace) : ts = ws ++ rest := by
  obtain ⟨used, k, rfl, rfl, -⟩ := h
  cases k with
  | zero => simp
  | succ k => exact absurd hbrace (hws brace (by simp))

/-- A statement without a block is found without a fault. -/
theorem statement_quiet {bound : Nat} {s s' : State} {stmt : Stmt}
    (hfound : statement (expression bound) s = .found stmt s')
    (hb : (Node.stmt stmt).Blockless) : s'.faults = s.faults := by
  have hbrace : Token.kind ⟨.rbrace, [], .start⟩ = .rbrace := rfl
  have hsound := statement_sound (expression_sound hbrace .lenient bound) hbrace s
  obtain ⟨ws, hspan, hws⟩ := (hsound.of_found hfound).2 (.inl rfl)
  have hfaults : ∀ {ts rest}, Derives .strict (.stmt stmt) ts → s.tokens = ts ++ rest →
      Follows stmt.Dangling .lowest (leadKind rest) → AfterSemicolon rest s'.ahead →
      s'.faults = s.faults := by
    intro ts rest hts htokens hfollow hafter
    have hfinds := hts.complete id bound s rest s'.ahead hfollow hafter
      (by rw [Token.moved_id, List.map_id, htokens])
    exact (hfinds.of_found hfound).2.2
  rcases hws with ⟨ts, semi, hts, hsemi, rfl⟩ | ⟨hts, hnext, hjoin⟩
  · obtain ⟨hstrict, hkinds⟩ := hts.strict_of_blockless hb
    have htokens := hspan.eq_append hbrace (by simpa [hsemi, or_imp, forall_and] using hkinds)
    rw [List.append_assoc] at htokens
    exact hfaults hstrict htokens (follows_semicolon hsemi) (.inl ⟨semi, hsemi, rfl⟩)
  · obtain ⟨hstrict, hkinds⟩ := hts.strict_of_blockless hb
    have hfollow : Follows stmt.Dangling .lowest (leadKind s'.ahead) :=
      follows_lowest (fun h => absurd hb (Stmt.not_blockless_of_dangling h)) hjoin
    exact hfaults hstrict (hspan.eq_append hbrace hkinds) hfollow (.inr ⟨rfl, hnext⟩)

/-- The faults of a stream are as many as the statements that are dropped when it is read: in every
rule they only become more, and a statement that is found and has no block in it comes without any.
So there are none if and only if nothing is dropped. -/
theorem faults_count_dropped (input : Token.Stream) (tracing : Bool) :
    (parse input tracing).faults.length = dropped input tracing ∧
      (∀ {α : Type} (r : Rule α) (s : State), (r s).Satisfies
        (fun _ s' => s.faults.reverse <+: s'.faults.reverse)
        (fun s' => s.faults.reverse <+: s'.faults.reverse) True) ∧
      (∀ {bound : Nat} {s s' : State} {stmt : Stmt},
        statement (expression bound) s = .found stmt s' → (Node.stmt stmt).Blockless →
          s'.faults = s.faults) ∧
      ((parse input tracing).faults = [] ↔ dropped input tracing = 0) := by
  refine ⟨length_faults input tracing, fun r s => ?_, statement_quiet, ?_⟩
  · exact (steady_faults.run r s).mono (fun _ _ h => List.reverse_prefix.mpr h)
      (fun _ h => List.reverse_prefix.mpr h) id
  · rw [← length_faults, List.length_eq_zero_iff]

/-- One statement is dropped in a block that is read to its end, and one after it. -/
theorem faults_count_dropped_nested :
    let input := Token.Stream.ofSource (utf8 "fn() \x7b let \x7d -")
    dropped input false = 2 ∧ (parse input false).faults.length = 2 := by
  intro input
  have hdropped : dropped input false = 2 := by decide +kernel
  exact ⟨hdropped, (faults_count_dropped input false).1.trans hdropped⟩

end Grammar

end Monkey

import Monkey.Proofs.Grammar.Completeness

/-!
# Writing a program down

A program is well formed when each of its nodes is one that the language knows: the kind of its
token fits, what it keeps besides is what the token says, and no part of it is missing. Such a
program can be written as a list of tokens in many ways. Parentheses may be put around any
expression, and have to be put around one that binds more weakly than its surroundings ask for; a
semicolon after a statement may be left out unless the next statement would go on with it.

However a well-formed program is written, it is read back as it was, but for the places of its
tokens and for the token an expression statement starts with, which depends on the parentheses.
-/

namespace Monkey

namespace Grammar

/-- The operators that stand between their operands. -/
def binaryOperators : List Token.Kind :=
  [.equal, .notEqual, .less, .greater, .plus, .minus, .asterisk, .slash]

theorem mem_operators_of_mem_binaryOperators {kind : Token.Kind} (h : kind ∈ binaryOperators) :
    kind ∈ (Level.ofKind kind).operators := by
  refine Level.mem_operators_ofKind ?_ ?_
  · revert kind
    decide
  · rintro rfl
    simp [binaryOperators] at h

end Grammar

open Grammar

def Ident.WellFormed : Ident → Prop
  | ⟨token, name⟩ => token.kind = .ident ∧ name = token.literal

mutual

def Expr.WellFormed : Expr → Prop
  | .missing => False
  | .ident id => id.WellFormed
  | .bool token value => token.kind = if value then .true else .false
  | .int token value => token.kind = .int ∧ Text.Decimal.int64? token.literal = some value
  | .unary token op right => token.kind ∈ signs ∧ op = token.literal ∧ right.WellFormed
  | .binary token op left right =>
    token.kind ∈ binaryOperators ∧ op = token.literal ∧ left.WellFormed ∧ right.WellFormed
  | .cond token condition consequence none =>
    token.kind = .if ∧ condition.WellFormed ∧ consequence.WellFormed
  | .cond token condition consequence (some alternative) =>
    token.kind = .if ∧ condition.WellFormed ∧ consequence.WellFormed ∧ alternative.WellFormed
  | .function token params body =>
    token.kind = .function ∧ (∀ id ∈ params, id.WellFormed) ∧ body.WellFormed
  | .call token callee args =>
    token.kind = .lparen ∧ callee.WellFormed ∧ Expr.WellFormedEach args
termination_by structural e => e

def Expr.WellFormedEach : List Expr → Prop
  | [] => True
  | e :: es => e.WellFormed ∧ Expr.WellFormedEach es
termination_by structural es => es

def Stmt.WellFormed : Stmt → Prop
  | .missing => False
  | .bind token id value => token.kind = .let ∧ id.WellFormed ∧ value.WellFormed
  | .ret token value => token.kind = .return ∧ value.WellFormed
  | .expr _ value => value.WellFormed
  | .block _ => False
termination_by structural s => s

def Stmt.WellFormedEach : List Stmt → Prop
  | [] => True
  | s :: ss => s.WellFormed ∧ Stmt.WellFormedEach ss
termination_by structural ss => ss

def Block.WellFormed : Block → Prop
  | .mk token stmts => token.kind = .lbrace ∧ Stmt.WellFormedEach stmts
termination_by structural b => b

end

namespace Program

def WellFormed (p : Program) : Prop := Stmt.WellFormedEach p.stmts

/-- The program is written as `ts`, whatever its own tokens say of places and of how expression
statements start. -/
def WrittenAs (p : Program) (ts : List Token) : Prop :=
  ∃ q : Program, q.unplaced = p.unplaced ∧ Derives .strict (.stmts q.stmts) ts

end Program

namespace Grammar

/-- The only operators that a statement can start with are a parenthesis and a minus sign, so
only before these two the semicolon is needed. -/
theorem Derives.next_iff {ss : List Stmt} {us : List Token} (h : Derives .strict (.stmts ss) us) :
    (leadKind us ≠ .semicolon ∧ leadKind us ∉ joiners) ↔
      leadKind us ≠ .lparen ∧ leadKind us ≠ .minus := by
  rcases h.stmts_leadKind with rfl | hstart
  · simp [joiners]
  · generalize leadKind us = kind at hstart
    revert kind
    decide

/-- What is written as the tokens of a stream, but for their places, is what is read. -/
theorem parse_of_writtenAs (move : Position → Position) {p : Program} {input : Token.Stream}
    (h : p.WrittenAs (input.items.map (Token.moved move))) (tracing : Bool) :
    (parse input tracing).faults = [] ∧ (parse input tracing).program.unplaced = p.unplaced := by
  obtain ⟨q, hq, hderives⟩ := h
  obtain ⟨hfaults, hprogram⟩ := parse_of_derives hderives tracing
  rw [← hq, ← hprogram, Program.unplaced_relabel]
  exact ⟨hfaults, rfl⟩

/-- A token that no node holds. -/
def separator (kind : Token.Kind) : Token := ⟨kind, kind.text, .start⟩

/-- Some way to write an expression that fits wherever an expression does. -/
def Writable (e : Expr) : Prop :=
  ∃ e' ts, e'.unplaced = e.unplaced ∧ ∀ level, Derives .strict (.expr level e') ts

theorem writable_of_derives {e e' : Expr} {ts : List Token} (h : e'.unplaced = e.unplaced)
    (hd : Derives .strict (.expr .lowest e') ts) : Writable e :=
  ⟨e', separator .lparen :: (ts ++ [separator .rparen]), h, fun _ => .group rfl hd rfl⟩

theorem exists_moreParams : ∀ ids : List Ident, (∀ id ∈ ids, id.WellFormed) →
    ∃ ts, MoreParams ids ts
  | [], _ => ⟨[], .nil⟩
  | ⟨token, name⟩ :: ids, h => by
      obtain ⟨hkind, rfl⟩ := h ⟨token, name⟩ (.head _)
      obtain ⟨ts, hts⟩ := exists_moreParams ids fun id hid => h id (.tail _ hid)
      exact ⟨separator .comma :: token :: ts, .cons rfl hkind hts⟩

theorem exists_params {ids : List Ident} (h : ∀ id ∈ ids, id.WellFormed) :
    ∃ ts, Params ids ts := by
  obtain ⟨ts, hts⟩ := exists_moreParams ids h
  cases hts with
  | nil => exact ⟨[], .none⟩
  | cons _ hname more => exact ⟨_, .some hname more⟩

theorem exists_args_of_moreArgs {es : List Expr} {ts : List Token}
    (h : Derives .strict (.moreArgs es) ts) : ∃ us, Derives .strict (.args es) us := by
  cases h with
  | lastArg => exact ⟨[], .noArgs⟩
  | nextArg _ next more => exact ⟨_, .args next more⟩

mutual

theorem writable_of_wellFormed : ∀ e : Expr, e.WellFormed → Writable e
  | .ident ⟨token, name⟩, h => by
      obtain ⟨hkind, rfl⟩ := h
      exact ⟨_, [token], rfl, fun _ => .ident hkind⟩
  | .bool token true, h => ⟨_, [token], rfl, fun _ => .yes h⟩
  | .bool token false, h => ⟨_, [token], rfl, fun _ => .no h⟩
  | .int token value, h => ⟨_, [token], rfl, fun _ => .int h.1 h.2⟩
  | .unary token op right, h => by
      obtain ⟨hkind, rfl, hright⟩ := h
      obtain ⟨r, rs, hr, hrs⟩ := writable_of_wellFormed right hright
      refine writable_of_derives ?_ (.unary (Nat.zero_le _) hkind (hrs _))
      simp [Expr.relabel, hr]
  | .binary token op left right, h => by
      obtain ⟨hkind, rfl, hleft, hright⟩ := h
      obtain ⟨l, ls, hl, hls⟩ := writable_of_wellFormed left hleft
      obtain ⟨r, rs, hr, hrs⟩ := writable_of_wellFormed right hright
      refine writable_of_derives ?_ (.binary (Nat.zero_le _) (hls _)
        (mem_operators_of_mem_binaryOperators hkind) (hrs _))
      simp [Expr.relabel, hl, hr]
  | .cond token condition consequence none, h => by
      obtain ⟨hkind, hcondition, hconsequence⟩ := h
      obtain ⟨c, cs, hc, hcs⟩ := writable_of_wellFormed condition hcondition
      obtain ⟨b, bs, hb, hbs⟩ := block_writable consequence hconsequence
      refine ⟨.cond token c b none, token :: separator .lparen :: (cs ++ separator .rparen :: bs),
        ?_, fun _ => .cond hkind rfl (hcs _) rfl hbs⟩
      simp [Expr.relabel, hc, hb]
  | .cond token condition consequence (some alternative), h => by
      obtain ⟨hkind, hcondition, hconsequence, halternative⟩ := h
      obtain ⟨c, cs, hc, hcs⟩ := writable_of_wellFormed condition hcondition
      obtain ⟨b, bs, hb, hbs⟩ := block_writable consequence hconsequence
      obtain ⟨b', bs', hb', hbs'⟩ := block_writable alternative halternative
      refine ⟨.cond token c b (some b'),
        token :: separator .lparen :: (cs ++ separator .rparen :: (bs ++ separator .else :: bs')),
        ?_, fun _ => .condElse hkind rfl (hcs _) rfl hbs rfl hbs'⟩
      simp [Expr.relabel, hc, hb, hb']
  | .function token params body, h => by
      obtain ⟨hkind, hparams, hbody⟩ := h
      obtain ⟨ps, hps⟩ := exists_params hparams
      obtain ⟨b, bs, hb, hbs⟩ := block_writable body hbody
      refine ⟨.function token params b,
        token :: separator .lparen :: (ps ++ separator .rparen :: bs), ?_,
        fun _ => .function hkind rfl hps rfl hbs⟩
      simp [Expr.relabel, hb]
  | .call token callee args, h => by
      obtain ⟨hkind, hcallee, hargs⟩ := h
      obtain ⟨f, fs, hf, hfs⟩ := writable_of_wellFormed callee hcallee
      obtain ⟨es, as, hes, has⟩ := moreArgs_writable args hargs
      obtain ⟨us, hus⟩ := exists_args_of_moreArgs has
      have hcall : Derives .strict (.expr .lowest (.call token f es))
          (fs ++ token :: (us ++ [separator .rparen])) :=
        .call (Nat.zero_le _) (hfs _) hkind hus rfl
      exact writable_of_derives (by simp [Expr.relabel, hf, hes]) hcall

theorem moreArgs_writable : ∀ es : List Expr, Expr.WellFormedEach es → ∃ es' ts,
    Expr.relabelEach Token.unplaced (fun _ => .blank) es' =
      Expr.relabelEach Token.unplaced (fun _ => .blank) es ∧ Derives .strict (.moreArgs es') ts
  | [], _ => ⟨[], [], rfl, .lastArg⟩
  | e :: es, h => by
      obtain ⟨e', ts, he, hts⟩ := writable_of_wellFormed e h.1
      obtain ⟨es', us, hes, hus⟩ := moreArgs_writable es h.2
      refine ⟨e' :: es', separator .comma :: (ts ++ us), ?_, .nextArg rfl (hts _) hus⟩
      simp [Expr.relabelEach, he, hes]

theorem stmt_writable : ∀ s : Stmt, s.WellFormed → ∃ s' ts,
    s'.relabel Token.unplaced (fun _ => .blank) = s.relabel Token.unplaced (fun _ => .blank) ∧
      Derives .strict (.stmt s') ts
  | .bind token ⟨name, _⟩ value, h => by
      obtain ⟨hkind, ⟨hname, rfl⟩, hvalue⟩ := h
      obtain ⟨v, vs, hv, hvs⟩ := writable_of_wellFormed value hvalue
      refine ⟨.bind token ⟨name, name.literal⟩ v, token :: name :: separator .assign :: vs, ?_,
        .bind hkind hname rfl (hvs _)⟩
      simp [Stmt.relabel, hv]
  | .ret token value, h => by
      obtain ⟨hkind, hvalue⟩ := h
      obtain ⟨v, vs, hv, hvs⟩ := writable_of_wellFormed value hvalue
      refine ⟨.ret token v, token :: vs, ?_, .ret hkind (hvs _)⟩
      simp [Stmt.relabel, hv]
  | .expr token value, h => by
      obtain ⟨v, vs, hv, hvs⟩ := writable_of_wellFormed value h
      obtain ⟨t, us, rfl, -⟩ := (hvs .lowest).expr_eq_cons
      refine ⟨.expr t v, t :: us, ?_, .exprStmt (hvs _)⟩
      simp [Stmt.relabel, hv]

theorem stmts_writable : ∀ ss : List Stmt, Stmt.WellFormedEach ss → ∃ ss' ts,
    Stmt.relabelEach Token.unplaced (fun _ => .blank) ss' =
      Stmt.relabelEach Token.unplaced (fun _ => .blank) ss ∧ Derives .strict (.stmts ss') ts
  | [], _ => ⟨[], [], rfl, .noStmts⟩
  | s :: ss, h => by
      obtain ⟨s', ts, hs, hts⟩ := stmt_writable s h.1
      obtain ⟨ss', us, hss, hus⟩ := stmts_writable ss h.2
      have hstmts : Derives .strict (.stmts (s' :: ss')) (ts ++ separator .semicolon :: us) :=
        .closed hts rfl hus
      exact ⟨_, _, by simp [Stmt.relabelEach, hs, hss], hstmts⟩

theorem block_writable : ∀ b : Block, b.WellFormed → ∃ b' ts,
    b'.relabel Token.unplaced (fun _ => .blank) = b.relabel Token.unplaced (fun _ => .blank) ∧
      Derives .strict (.block b') ts
  | .mk token stmts, h => by
      obtain ⟨ss, ts, hss, hts⟩ := stmts_writable stmts h.2
      refine ⟨.mk token ss, token :: (ts ++ [separator .rbrace]), ?_, .block h.1 hts rfl⟩
      simp [Block.relabel, hss]

end

/-- A well-formed program can be written as tokens, and from each list of tokens that it is
written as it is read back without a fault, but for places and for the tokens that expression
statements start with. -/
theorem parse_writtenAs (p : Program) (hp : p.WellFormed) :
    (∃ ts, p.WrittenAs ts) ∧
      ∀ (input : Token.Stream) (tracing : Bool), p.WrittenAs input.items →
        (parse input tracing).faults = [] ∧
          (parse input tracing).program.unplaced = p.unplaced := by
  constructor
  · obtain ⟨ss, ts, hss, hts⟩ := stmts_writable p.stmts hp
    exact ⟨ts, ⟨ss⟩, congrArg Program.mk hss, hts⟩
  · intro input tracing h
    refine parse_of_writtenAs id ?_ tracing
    rwa [Token.moved_id, List.map_id]

/-- `let a = 1 - (2 - 3) !f(a)`, where the parentheses are needed and the semicolon is not. -/
theorem parse_writtenAs_juxtaposed :
    let word := fun column kind text => (⟨kind, utf8 text, ⟨1, column⟩⟩ : Token)
    let name := fun column text => (⟨word column .ident text, utf8 text⟩ : Ident)
    let p : Program :=
      ⟨[.bind (word 1 .let "let") (name 1 "a")
          (.binary (word 1 .minus "-") (utf8 "-") (.int (word 1 .int "1") 1)
            (.binary (word 1 .minus "-") (utf8 "-") (.int (word 1 .int "2") 2)
              (.int (word 1 .int "3") 3))),
        .expr .blank
          (.unary (word 1 .bang "!") (utf8 "!")
            (.call (word 1 .lparen "(") (.ident (name 1 "f")) [.ident (name 1 "a")]))]⟩
    let input : Token.Stream :=
      ⟨[word 1 .let "let", word 5 .ident "a", word 7 .assign "=", word 9 .int "1",
        word 11 .minus "-", word 13 .lparen "(", word 14 .int "2", word 16 .minus "-",
        word 18 .int "3", word 19 .rparen ")", word 21 .bang "!", word 22 .ident "f",
        word 23 .lparen "(", word 24 .ident "a", word 25 .rparen ")"], ⟨1, 26⟩,
        fun pos => ⟨pos.line, pos.column + 1⟩⟩
    p.WellFormed ∧ p.WrittenAs input.items ∧ (parse input false).faults = [] ∧
      (parse input false).program.unplaced = p.unplaced := by
  intro word name p input
  have hp : p.WellFormed := by
    simp only [p, Program.WellFormed, Stmt.WellFormedEach, Stmt.WellFormed, Expr.WellFormed,
      Expr.WellFormedEach, Ident.WellFormed]
    decide +kernel
  have int : ∀ level column text value, Text.Decimal.int64? (utf8 text) = some value →
      Derives .strict (.expr level (.int (word column .int text) value)) [word column .int text] :=
    fun _ _ _ _ h => .int rfl h
  have ident : ∀ level column text,
      Derives .strict (.expr level (.ident (name column text))) [word column .ident text] :=
    fun _ column text => @Derives.ident _ _ (word column .ident text) rfl
  have hinside := @Derives.binary _ .lowest .sum (word 16 .minus "-") _ _ _ _ (by decide)
    (int _ 14 "2" 2 (by decide +kernel)) (by decide) (int _ 18 "3" 3 (by decide +kernel))
  have hgroup := @Derives.group _ (Level.inner .sum) (word 13 .lparen "(") (word 19 .rparen ")") _ _
    rfl hinside rfl
  have hvalue := @Derives.binary _ .lowest .sum (word 11 .minus "-") _ _ _ _ (by decide)
    (int _ 9 "1" 1 (by decide +kernel)) (by decide) hgroup
  have hbind := @Derives.bind _ (word 1 .let "let") (word 5 .ident "a") (word 7 .assign "=") _ _
    rfl rfl rfl hvalue
  have hcall := @Derives.call _ .unary (word 23 .lparen "(") (word 25 .rparen ")") _ _ _ _
    (by decide) (ident _ 22 "f") rfl (.args (ident _ 24 "a") .lastArg) rfl
  have hexpr := @Derives.exprStmt _ (word 21 .bang "!") _ _
    (@Derives.unary _ .lowest (word 21 .bang "!") _ _ (by decide) (by decide) hcall)
  have hlast := Derives.unclosed hexpr .noStmts (by decide)
  have hall := Derives.unclosed hbind hlast (hlast.next_iff.mpr (by decide))
  have hwritten : p.WrittenAs input.items := by
    refine ⟨⟨_⟩, ?_, hall⟩
    rfl
  exact ⟨hp, hwritten, (parse_writtenAs p hp).2 input false hwritten⟩

end Grammar

end Monkey

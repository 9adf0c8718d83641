import Monkey.Proofs.Grammar.Outcome
import Monkey.Proofs.Tree.Tokens

/-!
# Derivations

The grammar of the language, stratified by binding strength, as a relation between the phrases of
a tree and the lists of tokens they are written as. `Derives mode ph ts` carries the whole tree: a
node holds the very tokens of `ts` it is made from, and the tokens that no node holds are
parentheses around an expression and separators.

An expression of some level has, outside of parentheses, only operators that bind at least as
strongly as that level. A statement may be followed by a semicolon; where there is none, the next
token must not be one that would go on with the statement.

There are two modes. The strict one is the grammar. The lenient one says what is read of tokens in
which there are faults as well: in a list of statements any tokens may be passed over, and a block
may be closed by an end token.
-/

namespace Monkey.Grammar

namespace Level

instance : LE Level := ⟨fun a b => a.rank ≤ b.rank⟩

instance (a b : Level) : Decidable (a ≤ b) := inferInstanceAs (Decidable (a.rank ≤ b.rank))

theorem lt_iff_rank {a b : Level} : a < b ↔ a.rank < b.rank := Iff.rfl

@[simp] theorem rank_lowest : lowest.rank = 0 := rfl

@[simp] theorem rank_equality : equality.rank = 1 := rfl

@[simp] theorem rank_comparison : comparison.rank = 2 := rfl

@[simp] theorem rank_sum : sum.rank = 3 := rfl

@[simp] theorem rank_product : product.rank = 4 := rfl

@[simp] theorem rank_unary : unary.rank = 5 := rfl

@[simp] theorem rank_call : call.rank = 6 := rfl

/-- The binary operators of a level. -/
def operators : Level → List Token.Kind
  | equality => [.equal, .notEqual]
  | comparison => [.less, .greater]
  | sum => [.plus, .minus]
  | product => [.asterisk, .slash]
  | _ => []

/-- The level of what stands after an operator. Binary operators of one level group to the left,
so that what stands after one of them has to bind more strongly; signs can stand before each
other. -/
def inner : Level → Level
  | lowest => lowest
  | equality => comparison
  | comparison => sum
  | sum => product
  | product => unary
  | unary => unary
  | call => call

theorem ofKind_of_mem_operators {level : Level} {kind : Token.Kind}
    (h : kind ∈ level.operators) : ofKind kind = level := by
  cases level <;> simp [operators] at h <;> rcases h with rfl | rfl <;> rfl

theorem mem_operators_ofKind {kind : Token.Kind} (h : lowest < ofKind kind)
    (hparen : kind ≠ .lparen) : kind ∈ (ofKind kind).operators := by
  cases kind <;> simp [ofKind, operators, lt_iff_rank] at h hparen ⊢

theorem rank_of_mem_operators {level : Level} {kind : Token.Kind} (h : kind ∈ level.operators) :
    0 < level.rank ∧ level.rank < unary.rank := by
  cases level <;> simp [operators] at h ⊢

theorem rank_ofKind_le (kind : Token.Kind) : (ofKind kind).rank ≤ call.rank := by
  cases kind <;> simp [ofKind]

theorem lt_of_inner_le {level m : Level} (h : level.inner.rank ≤ m.rank)
    (hm : m.rank < unary.rank) (hpos : 0 < m.rank) : level < m := by
  rw [lt_iff_rank]
  cases level <;> simp only [inner, rank_lowest, rank_equality, rank_comparison, rank_sum,
    rank_product, rank_unary, rank_call] at h hm ⊢ <;> omega

theorem inner_le_of_lt {level m : Level} (h : level < m) (hm : level.rank < unary.rank) :
    level.inner.rank ≤ m.rank := by
  rw [lt_iff_rank] at h
  cases level <;> simp only [inner, rank_lowest, rank_equality, rank_comparison, rank_sum,
    rank_product, rank_unary, rank_call] at h hm ⊢ <;> omega

theorem le_call (level : Level) : level ≤ call := by
  cases level <;> decide

theorem le_inner (level : Level) : level.rank ≤ level.inner.rank := by
  cases level <;> simp [inner]

theorem inner_le_unary {level : Level} (h : level ≠ call) : level.inner.rank ≤ unary.rank := by
  cases level <;> simp [inner] at h ⊢

end Level

/-- The operators that stand before their operand. -/
def signs : List Token.Kind := [.bang, .minus]

/-- The tokens that go on with the expression before them. -/
def joiners : List Token.Kind :=
  [.equal, .notEqual, .less, .greater, .plus, .minus, .asterisk, .slash, .lparen]

theorem mem_joiners_iff {kind : Token.Kind} :
    kind ∈ joiners ↔ 0 < (Level.ofKind kind).rank := by
  cases kind <;> simp [joiners, Level.ofKind]

/-- The tokens an expression can start with. -/
def starters : List Token.Kind :=
  [.ident, .int, .true, .false, .lparen, .if, .function, .bang, .minus]

/-- The tokens a statement can start with. -/
def stmtStarters : List Token.Kind := .let :: .return :: starters

/-- Parameters after the first, each with a comma before it. -/
inductive MoreParams : List Ident → List Token → Prop where
  | nil : MoreParams [] []
  | cons {comma name : Token} {ids : List Ident} {ts : List Token} (hcomma : comma.kind = .comma)
      (hname : name.kind = .ident) (more : MoreParams ids ts) :
      MoreParams (⟨name, name.literal⟩ :: ids) (comma :: name :: ts)

/-- The parameters of a function, with commas between them. -/
inductive Params : List Ident → List Token → Prop where
  | none : Params [] []
  | some {name : Token} {ids : List Ident} {ts : List Token} (hname : name.kind = .ident)
      (more : MoreParams ids ts) : Params (⟨name, name.literal⟩ :: ids) (name :: ts)

/-- What a list of tokens can be derived as. -/
inductive Phrase where
  | expr (level : Level) (e : Expr)
  | args (es : List Expr)
  | moreArgs (es : List Expr)
  | block (b : Block)
  | stmt (s : Stmt)
  | stmts (ss : List Stmt)

/-- Whether derivations are those of the grammar, or also those of what is read where tokens are
passed over. -/
inductive Mode where
  | strict
  | lenient
  deriving DecidableEq, Repr

/-- The grammar. A statement is derived without its semicolon, and a list of statements with the
semicolons in it. -/
inductive Derives (mode : Mode) : Phrase → List Token → Prop where
  | ident {level : Level} {t : Token} (ht : t.kind = .ident) :
      Derives mode (.expr level (.ident ⟨t, t.literal⟩)) [t]
  | int {level : Level} {t : Token} {value : Int64} (ht : t.kind = .int)
      (hvalue : Text.Decimal.int64? t.literal = some value) :
      Derives mode (.expr level (.int t value)) [t]
  | yes {level : Level} {t : Token} (ht : t.kind = .true) :
      Derives mode (.expr level (.bool t true)) [t]
  | no {level : Level} {t : Token} (ht : t.kind = .false) :
      Derives mode (.expr level (.bool t false)) [t]
  | group {level : Level} {lp rp : Token} {e : Expr} {ts : List Token} (hlp : lp.kind = .lparen)
      (inside : Derives mode (.expr .lowest e) ts) (hrp : rp.kind = .rparen) :
      Derives mode (.expr level e) (lp :: (ts ++ [rp]))
  | cond {level : Level} {t lp rp : Token} {c : Expr} {b : Block} {cs bs : List Token}
      (ht : t.kind = .if) (hlp : lp.kind = .lparen) (condition : Derives mode (.expr .lowest c) cs)
      (hrp : rp.kind = .rparen) (consequence : Derives mode (.block b) bs) :
      Derives mode (.expr level (.cond t c b none)) (t :: lp :: (cs ++ rp :: bs))
  | condElse {level : Level} {t lp rp el : Token} {c : Expr} {b b' : Block}
      {cs bs bs' : List Token} (ht : t.kind = .if) (hlp : lp.kind = .lparen)
      (condition : Derives mode (.expr .lowest c) cs) (hrp : rp.kind = .rparen)
      (consequence : Derives mode (.block b) bs) (hel : el.kind = .else)
      (alternative : Derives mode (.block b') bs') :
      Derives mode (.expr level (.cond t c b (some b')))
        (t :: lp :: (cs ++ rp :: (bs ++ el :: bs')))
  | function {level : Level} {t lp rp : Token} {ids : List Ident} {b : Block}
      {ps bs : List Token} (ht : t.kind = .function) (hlp : lp.kind = .lparen)
      (params : Params ids ps) (hrp : rp.kind = .rparen) (body : Derives mode (.block b) bs) :
      Derives mode (.expr level (.function t ids b)) (t :: lp :: (ps ++ rp :: bs))
  | call {level : Level} {lp rp : Token} {f : Expr} {es : List Expr} {fs as : List Token}
      (hlevel : level ≤ .call) (callee : Derives mode (.expr .call f) fs) (hlp : lp.kind = .lparen)
      (args : Derives mode (.args es) as) (hrp : rp.kind = .rparen) :
      Derives mode (.expr level (.call lp f es)) (fs ++ lp :: (as ++ [rp]))
  | unary {level : Level} {t : Token} {r : Expr} {ts : List Token} (hlevel : level ≤ .unary)
      (ht : t.kind ∈ signs) (right : Derives mode (.expr (Level.inner .unary) r) ts) :
      Derives mode (.expr level (.unary t t.literal r)) (t :: ts)
  | binary {level m : Level} {t : Token} {l r : Expr} {ls rs : List Token} (hlevel : level ≤ m)
      (left : Derives mode (.expr m l) ls) (ht : t.kind ∈ m.operators)
      (right : Derives mode (.expr m.inner r) rs) :
      Derives mode (.expr level (.binary t t.literal l r)) (ls ++ t :: rs)
  | noArgs : Derives mode (.args []) []
  | args {e : Expr} {es : List Expr} {ts us : List Token}
      (first : Derives mode (.expr .lowest e) ts) (more : Derives mode (.moreArgs es) us) :
      Derives mode (.args (e :: es)) (ts ++ us)
  | lastArg : Derives mode (.moreArgs []) []
  | nextArg {comma : Token} {e : Expr} {es : List Expr} {ts us : List Token}
      (hcomma : comma.kind = .comma) (next : Derives mode (.expr .lowest e) ts)
      (more : Derives mode (.moreArgs es) us) :
      Derives mode (.moreArgs (e :: es)) (comma :: (ts ++ us))
  | block {lb rb : Token} {ss : List Stmt} {ts : List Token} (hlb : lb.kind = .lbrace)
      (body : Derives mode (.stmts ss) ts) (hrb : rb.kind = .rbrace) :
      Derives mode (.block (.mk lb ss)) (lb :: (ts ++ [rb]))
  | bind {t name eq : Token} {v : Expr} {ts : List Token} (ht : t.kind = .let)
      (hname : name.kind = .ident) (heq : eq.kind = .assign)
      (value : Derives mode (.expr .lowest v) ts) :
      Derives mode (.stmt (.bind t ⟨name, name.literal⟩ v)) (t :: name :: eq :: ts)
  | ret {t : Token} {v : Expr} {ts : List Token} (ht : t.kind = .return)
      (value : Derives mode (.expr .lowest v) ts) : Derives mode (.stmt (.ret t v)) (t :: ts)
  | exprStmt {t : Token} {v : Expr} {ts : List Token}
      (value : Derives mode (.expr .lowest v) (t :: ts)) :
      Derives mode (.stmt (.expr t v)) (t :: ts)
  | noStmts : Derives mode (.stmts []) []
  | closed {semi : Token} {s : Stmt} {ss : List Stmt} {ts us : List Token}
      (first : Derives mode (.stmt s) ts) (hsemi : semi.kind = .semicolon)
      (more : Derives mode (.stmts ss) us) : Derives mode (.stmts (s :: ss)) (ts ++ semi :: us)
  | unclosed {s : Stmt} {ss : List Stmt} {ts us : List Token} (first : Derives mode (.stmt s) ts)
      (more : Derives mode (.stmts ss) us)
      (hnext : leadKind us ≠ .semicolon ∧ leadKind us ∉ joiners) :
      Derives mode (.stmts (s :: ss)) (ts ++ us)
  | openBlock {lb rb : Token} {ss : List Stmt} {ts : List Token} (hmode : mode = .lenient)
      (hlb : lb.kind = .lbrace) (body : Derives mode (.stmts ss) ts) (hrb : rb.kind = .eof) :
      Derives mode (.block (.mk lb ss)) (lb :: (ts ++ [rb]))
  | dropped {ss : List Stmt} {ts : List Token} (hmode : mode = .lenient) (us : List Token)
      (more : Derives mode (.stmts ss) ts) : Derives mode (.stmts ss) (us ++ ts)

/-- What is derived at some level is derived at every weaker one. -/
theorem Derives.weaken {mode : Mode} {m level : Level} {e : Expr} {ts : List Token}
    (h : Derives mode (.expr m e) ts) (hle : level.rank ≤ m.rank) :
    Derives mode (.expr level e) ts := by
  cases h with
  | ident ht => exact .ident ht
  | int ht hvalue => exact .int ht hvalue
  | yes ht => exact .yes ht
  | no ht => exact .no ht
  | group hlp inside hrp => exact .group hlp inside hrp
  | cond ht hlp condition hrp consequence => exact .cond ht hlp condition hrp consequence
  | condElse ht hlp condition hrp consequence hel alternative =>
      exact .condElse ht hlp condition hrp consequence hel alternative
  | function ht hlp params hrp body => exact .function ht hlp params hrp body
  | call hlevel callee hlp args hrp => exact .call (Nat.le_trans hle hlevel) callee hlp args hrp
  | unary hlevel ht right => exact .unary (Nat.le_trans hle hlevel) ht right
  | binary hlevel left ht right => exact .binary (Nat.le_trans hle hlevel) left ht right

/-- What is known of the first token of a phrase. -/
def Phrase.StartsWith : Phrase → Token.Kind → Prop
  | expr _ _, kind => kind ∈ starters
  | stmt _, kind => kind ∈ stmtStarters
  | _, _ => True

theorem ne_eof_of_mem_stmtStarters {kind : Token.Kind} (h : kind ∈ stmtStarters) :
    kind ≠ .eof := by
  rintro rfl
  simp [stmtStarters, starters] at h

theorem mem_stmtStarters_of_mem {kind : Token.Kind} (h : kind ∈ starters) :
    kind ∈ stmtStarters := .tail _ (.tail _ h)

theorem ne_eof_of_mem_starters {kind : Token.Kind} (h : kind ∈ starters) : kind ≠ .eof :=
  ne_eof_of_mem_stmtStarters (mem_stmtStarters_of_mem h)

theorem Derives.startsWith {mode : Mode} {ph : Phrase} {ts : List Token}
    (h : Derives mode ph ts) : ph.StartsWith (leadKind ts) := by
  induction h with
  | call _ _ _ _ _ ih _ =>
      rw [leadKind_append (ne_eof_of_mem_starters ih)]
      exact ih
  | binary _ _ _ _ ih _ =>
      rw [leadKind_append (ne_eof_of_mem_starters ih)]
      exact ih
  | unary _ ht _ _ =>
      simp only [signs, List.mem_cons, List.not_mem_nil, or_false] at ht
      rcases ht with ht | ht <;> simp [Phrase.StartsWith, starters, ht]
  | exprStmt _ ih => exact mem_stmtStarters_of_mem ih
  | _ => simp_all [Phrase.StartsWith, starters, stmtStarters]

/-- An expression has a first token. -/
theorem Derives.expr_eq_cons {mode : Mode} {level : Level} {e : Expr} {ts : List Token}
    (h : Derives mode (.expr level e) ts) : ∃ t us, ts = t :: us ∧ t.kind ∈ starters := by
  have hstart : leadKind ts ∈ starters := h.startsWith
  obtain ⟨t, us, rfl, -⟩ := eq_cons_of_leadKind rfl (ne_eof_of_mem_starters hstart)
  exact ⟨t, us, rfl, hstart⟩

theorem Derives.stmts_leadKind {ss : List Stmt} {ts : List Token}
    (h : Derives .strict (.stmts ss) ts) : ts = [] ∨ leadKind ts ∈ stmtStarters := by
  cases h with
  | noStmts => exact .inl rfl
  | closed first _ _ =>
      have hstart := first.startsWith
      rw [leadKind_append (ne_eof_of_mem_stmtStarters hstart)]
      exact .inr hstart
  | unclosed first _ _ =>
      have hstart := first.startsWith
      rw [leadKind_append (ne_eof_of_mem_stmtStarters hstart)]
      exact .inr hstart
  | dropped hmode _ _ => cases hmode

theorem Derives.moreArgs_leadKind {es : List Expr} {ts : List Token}
    (h : Derives .strict (.moreArgs es) ts) : ts = [] ∨ leadKind ts = .comma := by
  cases h with
  | lastArg => exact .inl rfl
  | nextArg hcomma _ _ => exact .inr hcomma

/-- The kinds of the tokens that only separate or group: no node holds one of them, except that a
call holds its opening parenthesis. -/
def separators : List Token.Kind :=
  [.assign, .comma, .semicolon, .lparen, .rparen, .rbrace, .else]

/-- The tokens of a list that are no separators. -/
def contentTokens (ts : List Token) : List Token := ts.filter fun t => t.kind ∉ separators

theorem contentTokens_append_replicate {t : Token} (h : t.kind ∈ separators) (ts : List Token)
    (k : Nat) : contentTokens (ts ++ List.replicate k t) = contentTokens ts := by
  simp [contentTokens, h]

def Phrase.tokens : Phrase → List Token
  | expr _ e => e.tokens
  | args es => Expr.tokensEach es
  | moreArgs es => Expr.tokensEach es
  | block b => b.tokens
  | stmt s => s.tokens
  | stmts ss => Stmt.tokensEach ss

theorem MoreParams.contentTokens_eq {ids : List Ident} {ts : List Token} (h : MoreParams ids ts) :
    contentTokens (ids.map Ident.token) = contentTokens ts := by
  induction h with
  | nil => rfl
  | cons hcomma hname more ih => simp_all [contentTokens, separators]

theorem Params.contentTokens_eq {ids : List Ident} {ts : List Token} (h : Params ids ts) :
    contentTokens (ids.map Ident.token) = contentTokens ts := by
  cases h with
  | none => rfl
  | some hname more =>
      have hmore := more.contentTokens_eq
      simp_all [contentTokens, separators]

/-- The tree of a derivation holds all tokens but separators, each once and in their order. -/
theorem Derives.contentTokens_eq {ph : Phrase} {ts : List Token} (h : Derives .strict ph ts) :
    contentTokens ph.tokens = contentTokens ts := by
  induction h with
  | function ht hlp params hrp body ih =>
      have hparams := params.contentTokens_eq
      simp_all [Phrase.tokens, Expr.tokens, contentTokens, separators]
  | unary hlevel ht right ih =>
      simp_all [Phrase.tokens, Expr.tokens, contentTokens, List.filter_cons]
  | binary hlevel left ht right ihl ihr =>
      simp_all [Phrase.tokens, Expr.tokens, contentTokens, List.filter_cons]
  | _ =>
      simp_all [Phrase.tokens, Expr.tokens, Expr.tokensEach, Stmt.tokens, Stmt.tokensEach,
        Block.tokens, contentTokens, separators]

end Monkey.Grammar

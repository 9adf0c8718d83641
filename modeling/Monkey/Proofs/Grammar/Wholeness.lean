import Monkey.Proofs.Grammar.Rendering
import Monkey.Proofs.Grammar.Soundness
import Monkey.Proofs.Tree.Children

/-!
# What is read is whole

Whatever the tokens are and however many statements fail, the program that is read is well formed:
statements that fail leave no trace in it, and the others have all their parts. Besides, the nodes
hold tokens of the stream, each once and in their order. Both are drawn from the derivation that
what is read has in any case, where tokens are passed over. A tree is `Whole T` if it is well formed
and `T` holds of its tokens. So there is no hole anywhere in what is read.
-/

namespace Monkey

open Grammar

variable {T : Token → Prop}

section Trees

def Expr.Whole (T : Token → Prop) (e : Expr) : Prop := e.WellFormed ∧ ∀ t ∈ e.tokens, T t

def Stmt.Whole (T : Token → Prop) (s : Stmt) : Prop := s.WellFormed ∧ ∀ t ∈ s.tokens, T t

def Block.Whole (T : Token → Prop) (b : Block) : Prop := b.WellFormed ∧ ∀ t ∈ b.tokens, T t

def Program.Whole (T : Token → Prop) (p : Program) : Prop := p.WellFormed ∧ ∀ t ∈ p.tokens, T t

theorem Expr.whole_each {es : List Expr} :
    (Expr.WellFormedEach es ∧ ∀ t ∈ Expr.tokensEach es, T t) ↔ ∀ e ∈ es, e.Whole T := by
  induction es with
  | nil => exact ⟨fun _ => List.forall_mem_nil _, fun _ => ⟨trivial, List.forall_mem_nil _⟩⟩
  | cons e es ih =>
      rw [List.forall_mem_cons, ← ih]
      exact (and_congr_right' List.forall_mem_append).trans and_and_and_comm

theorem Stmt.whole_each {ss : List Stmt} :
    (Stmt.WellFormedEach ss ∧ ∀ t ∈ Stmt.tokensEach ss, T t) ↔ ∀ s ∈ ss, s.Whole T := by
  induction ss with
  | nil => exact ⟨fun _ => List.forall_mem_nil _, fun _ => ⟨trivial, List.forall_mem_nil _⟩⟩
  | cons s ss ih =>
      rw [List.forall_mem_cons, ← ih]
      exact (and_congr_right' List.forall_mem_append).trans and_and_and_comm

theorem Program.whole_iff {p : Program} : p.Whole T ↔ ∀ s ∈ p.stmts, s.Whole T := Stmt.whole_each

theorem Block.whole_iff {token : Token} {stmts : List Stmt} :
    (Block.mk token stmts).Whole T ↔ token.kind = .lbrace ∧ T token ∧ ∀ s ∈ stmts, s.Whole T := by
  rw [← Stmt.whole_each]
  constructor
  · rintro ⟨⟨hkind, hstmts⟩, htokens⟩
    obtain ⟨htoken, hrest⟩ := List.forall_mem_cons.mp htokens
    exact ⟨hkind, htoken, hstmts, hrest⟩
  · rintro ⟨hkind, htoken, hstmts, hrest⟩
    exact ⟨⟨hkind, hstmts⟩, List.forall_mem_cons.mpr ⟨htoken, hrest⟩⟩

theorem Expr.whole_unary {token : Token} {op : Bytes} {right : Expr} :
    (Expr.unary token op right).Whole T ↔
      token.kind ∈ signs ∧ op = token.literal ∧ T token ∧ right.Whole T := by
  constructor
  · rintro ⟨⟨hkind, hop, hright⟩, htokens⟩
    obtain ⟨htoken, hrest⟩ := List.forall_mem_cons.mp htokens
    exact ⟨hkind, hop, htoken, hright, hrest⟩
  · rintro ⟨hkind, hop, htoken, hright, hrest⟩
    exact ⟨⟨hkind, hop, hright⟩, List.forall_mem_cons.mpr ⟨htoken, hrest⟩⟩

theorem Expr.whole_binary {token : Token} {op : Bytes} {left right : Expr} :
    (Expr.binary token op left right).Whole T ↔
      token.kind ∈ binaryOperators ∧ op = token.literal ∧ T token ∧ left.Whole T ∧
        right.Whole T := by
  constructor
  · rintro ⟨⟨hkind, hop, hleft, hright⟩, htokens⟩
    obtain ⟨hbefore, hrest⟩ := List.forall_mem_append.mp htokens
    obtain ⟨htoken, hafter⟩ := List.forall_mem_cons.mp hrest
    exact ⟨hkind, hop, htoken, ⟨hleft, hbefore⟩, hright, hafter⟩
  · rintro ⟨hkind, hop, htoken, ⟨hleft, hbefore⟩, hright, hafter⟩
    have hrest := List.forall_mem_cons.mpr ⟨htoken, hafter⟩
    exact ⟨⟨hkind, hop, hleft, hright⟩, List.forall_mem_append.mpr ⟨hbefore, hrest⟩⟩

theorem Expr.whole_cond {token : Token} {condition : Expr} {consequence : Block}
    {alternative : Option Block} :
    (Expr.cond token condition consequence alternative).Whole T ↔
      token.kind = .if ∧ T token ∧ condition.Whole T ∧ consequence.Whole T ∧
        ∀ b ∈ alternative, b.Whole T := by
  cases alternative with
  | none =>
      constructor
      · rintro ⟨⟨hkind, hcondition, hconsequence⟩, htokens⟩
        obtain ⟨htoken, hrest⟩ := List.forall_mem_cons.mp htokens
        obtain ⟨hfirst, hsecond⟩ := List.forall_mem_append.mp hrest
        exact ⟨hkind, htoken, ⟨hcondition, hfirst⟩, ⟨hconsequence, hsecond⟩, nofun⟩
      · rintro ⟨hkind, htoken, ⟨hcondition, hfirst⟩, ⟨hconsequence, hsecond⟩, -⟩
        have hrest := List.forall_mem_append.mpr ⟨hfirst, hsecond⟩
        exact ⟨⟨hkind, hcondition, hconsequence⟩, List.forall_mem_cons.mpr ⟨htoken, hrest⟩⟩
  | some block =>
      simp only [Option.mem_some_iff, forall_eq']
      constructor
      · rintro ⟨⟨hkind, hcondition, hconsequence, hblock⟩, htokens⟩
        obtain ⟨htoken, hrest⟩ := List.forall_mem_cons.mp htokens
        obtain ⟨hfirst, hothers⟩ := List.forall_mem_append.mp hrest
        obtain ⟨hsecond, hthird⟩ := List.forall_mem_append.mp hothers
        exact ⟨hkind, htoken, ⟨hcondition, hfirst⟩, ⟨hconsequence, hsecond⟩, hblock, hthird⟩
      · rintro ⟨hkind, htoken, ⟨hcondition, hfirst⟩, ⟨hconsequence, hsecond⟩, hblock, hthird⟩
        have hothers := List.forall_mem_append.mpr ⟨hsecond, hthird⟩
        have hrest := List.forall_mem_append.mpr ⟨hfirst, hothers⟩
        exact ⟨⟨hkind, hcondition, hconsequence, hblock⟩,
          List.forall_mem_cons.mpr ⟨htoken, hrest⟩⟩

theorem Expr.whole_function {token : Token} {params : List Ident} {body : Block} :
    (Expr.function token params body).Whole T ↔
      token.kind = .function ∧ T token ∧ (∀ id ∈ params, id.WellFormed ∧ T id.token) ∧
        body.Whole T := by
  rw [forall₂_and]
  constructor
  · rintro ⟨⟨hkind, hparams, hbody⟩, htokens⟩
    obtain ⟨htoken, hrest⟩ := List.forall_mem_cons.mp htokens
    obtain ⟨hnames, hinner⟩ := List.forall_mem_append.mp hrest
    exact ⟨hkind, htoken, ⟨hparams, List.forall_mem_map.mp hnames⟩, hbody, hinner⟩
  · rintro ⟨hkind, htoken, ⟨hparams, hnames⟩, hbody, hinner⟩
    have hrest := List.forall_mem_append.mpr ⟨List.forall_mem_map.mpr hnames, hinner⟩
    exact ⟨⟨hkind, hparams, hbody⟩, List.forall_mem_cons.mpr ⟨htoken, hrest⟩⟩

theorem Expr.whole_call {token : Token} {callee : Expr} {args : List Expr} :
    (Expr.call token callee args).Whole T ↔
      token.kind = .lparen ∧ T token ∧ callee.Whole T ∧ ∀ e ∈ args, e.Whole T := by
  rw [← Expr.whole_each]
  constructor
  · rintro ⟨⟨hkind, hcallee, hargs⟩, htokens⟩
    obtain ⟨hbefore, hrest⟩ := List.forall_mem_append.mp htokens
    obtain ⟨htoken, hafter⟩ := List.forall_mem_cons.mp hrest
    exact ⟨hkind, htoken, ⟨hcallee, hbefore⟩, hargs, hafter⟩
  · rintro ⟨hkind, htoken, ⟨hcallee, hbefore⟩, hargs, hafter⟩
    have hrest := List.forall_mem_cons.mpr ⟨htoken, hafter⟩
    exact ⟨⟨hkind, hcallee, hargs⟩, List.forall_mem_append.mpr ⟨hbefore, hrest⟩⟩

theorem Stmt.whole_bind {token : Token} {id : Ident} {value : Expr} :
    (Stmt.bind token id value).Whole T ↔
      token.kind = .let ∧ T token ∧ id.WellFormed ∧ T id.token ∧ value.Whole T := by
  constructor
  · rintro ⟨⟨hkind, hid, hvalue⟩, htokens⟩
    obtain ⟨htoken, hrest⟩ := List.forall_mem_cons.mp htokens
    obtain ⟨hname, hafter⟩ := List.forall_mem_cons.mp hrest
    exact ⟨hkind, htoken, hid, hname, hvalue, hafter⟩
  · rintro ⟨hkind, htoken, hid, hname, hvalue, hafter⟩
    have hrest := List.forall_mem_cons.mpr ⟨hname, hafter⟩
    exact ⟨⟨hkind, hid, hvalue⟩, List.forall_mem_cons.mpr ⟨htoken, hrest⟩⟩

theorem Stmt.whole_ret {token : Token} {value : Expr} :
    (Stmt.ret token value).Whole T ↔ token.kind = .return ∧ T token ∧ value.Whole T := by
  constructor
  · rintro ⟨⟨hkind, hvalue⟩, htokens⟩
    obtain ⟨htoken, hrest⟩ := List.forall_mem_cons.mp htokens
    exact ⟨hkind, htoken, hvalue, hrest⟩
  · rintro ⟨hkind, htoken, hvalue, hrest⟩
    exact ⟨⟨hkind, hvalue⟩, List.forall_mem_cons.mpr ⟨htoken, hrest⟩⟩

theorem Stmt.whole_expr {token : Token} {value : Expr} :
    (Stmt.expr token value).Whole T ↔ value.Whole T := Iff.rfl

end Trees

namespace Grammar

section Derivations

variable {mode : Mode} {ph : Phrase} {ts : List Token}

def Phrase.WellFormed : Phrase → Prop
  | expr _ e => e.WellFormed
  | args es => Expr.WellFormedEach es
  | moreArgs es => Expr.WellFormedEach es
  | block b => b.WellFormed
  | stmt s => s.WellFormed
  | stmts ss => Stmt.WellFormedEach ss

theorem MoreParams.wellFormed {ids : List Ident} (h : MoreParams ids ts) :
    ∀ id ∈ ids, id.WellFormed := by
  induction h with
  | nil => exact List.forall_mem_nil _
  | cons hcomma hname more ih => exact List.forall_mem_cons.mpr ⟨⟨hname, rfl⟩, ih⟩

theorem Params.wellFormed {ids : List Ident} (h : Params ids ts) : ∀ id ∈ ids, id.WellFormed := by
  cases h with
  | none => exact List.forall_mem_nil _
  | some hname more => exact List.forall_mem_cons.mpr ⟨⟨hname, rfl⟩, more.wellFormed⟩

theorem mem_binaryOperators {level : Level} {kind : Token.Kind} (h : kind ∈ level.operators) :
    kind ∈ binaryOperators := by
  cases level <;> simp [Level.operators] at h <;> rcases h with rfl | rfl <;> decide

/-- What has a derivation is well formed, also where tokens are passed over. -/
theorem Derives.wellFormed (h : Derives mode ph ts) : ph.WellFormed := by
  induction h with
  | ident ht => exact ⟨ht, rfl⟩
  | int ht hvalue => exact ⟨ht, hvalue⟩
  | yes ht => exact ht
  | no ht => exact ht
  | group _ _ _ ih => exact ih
  | cond ht _ _ _ _ ihc ihb => exact ⟨ht, ihc, ihb⟩
  | condElse ht _ _ _ _ _ _ ihc ihb ihb' => exact ⟨ht, ihc, ihb, ihb'⟩
  | function ht _ params _ _ ih => exact ⟨ht, params.wellFormed, ih⟩
  | call _ _ hlp _ _ ihf iha => exact ⟨hlp, ihf, iha⟩
  | unary _ ht _ ih => exact ⟨ht, rfl, ih⟩
  | binary _ _ ht _ ihl ihr => exact ⟨mem_binaryOperators ht, rfl, ihl, ihr⟩
  | noArgs => trivial
  | args _ _ ihe ihes => exact ⟨ihe, ihes⟩
  | lastArg => trivial
  | nextArg _ _ _ ihe ihes => exact ⟨ihe, ihes⟩
  | block hlb _ _ ih => exact ⟨hlb, ih⟩
  | bind ht hname _ _ ih => exact ⟨ht, ⟨hname, rfl⟩, ih⟩
  | ret ht _ ih => exact ⟨ht, ih⟩
  | exprStmt _ ih => exact ih
  | noStmts => trivial
  | closed _ _ _ ihs ihss => exact ⟨ihs, ihss⟩
  | unclosed _ _ _ ihs ihss => exact ⟨ihs, ihss⟩
  | openBlock _ hlb _ _ ih => exact ⟨hlb, ih⟩
  | dropped _ _ _ ih => exact ih

/-- The tokens of a list that close no block. -/
def withoutBraces (ts : List Token) : List Token := ts.filter fun t => t.kind ≠ .rbrace

theorem withoutBraces_cons {t : Token} (h : t.kind ≠ .rbrace) (ts : List Token) :
    withoutBraces (t :: ts) = t :: withoutBraces ts :=
  List.filter_cons_of_pos (by simpa using h)

@[simp] theorem withoutBraces_append (ts us : List Token) :
    withoutBraces (ts ++ us) = withoutBraces ts ++ withoutBraces us := List.filter_append ..

theorem singleton_sublist {t : Token} (h : t.kind ≠ .rbrace) :
    [t].Sublist (withoutBraces [t]) := by
  rw [withoutBraces_cons h]
  exact .refl _

theorem withoutBraces_append_replicate {brace : Token} (h : brace.kind = .rbrace)
    (ts : List Token) (k : Nat) :
    withoutBraces (ts ++ List.replicate k brace) = withoutBraces ts := by
  simp [withoutBraces, h]

theorem MoreParams.tokens_sublist {ids : List Ident} (h : MoreParams ids ts) :
    (ids.map Ident.token).Sublist (withoutBraces ts) := by
  induction h with
  | nil => exact .slnil
  | cons hcomma hname more ih =>
      rw [withoutBraces_cons (by simp [hcomma]), withoutBraces_cons (by simp [hname])]
      exact .cons _ (.cons_cons _ ih)

theorem Params.tokens_sublist {ids : List Ident} (h : Params ids ts) :
    (ids.map Ident.token).Sublist (withoutBraces ts) := by
  cases h with
  | none => exact .slnil
  | some hname more =>
      rw [withoutBraces_cons (by simp [hname])]
      exact .cons_cons _ more.tokens_sublist

/-- The tree of a derivation holds tokens of the list, each once and in their order, also where
tokens are passed over. None of them closes a block. -/
theorem Derives.tokens_sublist (h : Derives mode ph ts) :
    ph.tokens.Sublist (withoutBraces ts) := by
  induction h with
  | ident ht => exact singleton_sublist (by simp [ht])
  | int ht _ => exact singleton_sublist (by simp [ht])
  | yes ht => exact singleton_sublist (by simp [ht])
  | no ht => exact singleton_sublist (by simp [ht])
  | group hlp _ _ ih =>
      rw [withoutBraces_cons (by simp [hlp]), withoutBraces_append]
      exact .cons _ (ih.trans (List.sublist_append_left _ _))
  | cond ht hlp _ hrp _ ihc ihb =>
      rw [withoutBraces_cons (by simp [ht]), withoutBraces_cons (by simp [hlp]),
        withoutBraces_append, withoutBraces_cons (by simp [hrp])]
      exact .cons_cons _ (.cons _ (ihc.append (.cons _ ihb)))
  | condElse ht hlp _ hrp _ hel _ ihc ihb ihb' =>
      rw [withoutBraces_cons (by simp [ht]), withoutBraces_cons (by simp [hlp]),
        withoutBraces_append, withoutBraces_cons (by simp [hrp]), withoutBraces_append,
        withoutBraces_cons (by simp [hel])]
      exact .cons_cons _ (.cons _ (ihc.append (.cons _ (ihb.append (.cons _ ihb')))))
  | function ht hlp params hrp _ ih =>
      rw [withoutBraces_cons (by simp [ht]), withoutBraces_cons (by simp [hlp]),
        withoutBraces_append, withoutBraces_cons (by simp [hrp])]
      exact .cons_cons _ (.cons _ (params.tokens_sublist.append (.cons _ ih)))
  | call _ _ hlp _ _ ihf iha =>
      rw [withoutBraces_append, withoutBraces_cons (by simp [hlp]), withoutBraces_append]
      exact ihf.append (.cons_cons _ (iha.trans (List.sublist_append_left _ _)))
  | unary _ ht _ ih =>
      rw [withoutBraces_cons fun hbrace => by simp [hbrace, signs] at ht]
      exact .cons_cons _ ih
  | binary _ _ ht _ ihl ihr =>
      have hkind := mem_binaryOperators ht
      rw [withoutBraces_append,
        withoutBraces_cons fun hbrace => by simp [hbrace, binaryOperators] at hkind]
      exact ihl.append (.cons_cons _ ihr)
  | noArgs => exact .slnil
  | args _ _ ihe ihes =>
      rw [withoutBraces_append]
      exact ihe.append ihes
  | lastArg => exact .slnil
  | nextArg hcomma _ _ ihe ihes =>
      rw [withoutBraces_cons (by simp [hcomma]), withoutBraces_append]
      exact .cons _ (ihe.append ihes)
  | block hlb _ _ ih =>
      rw [withoutBraces_cons (by simp [hlb]), withoutBraces_append]
      exact .cons_cons _ (ih.trans (List.sublist_append_left _ _))
  | bind ht hname heq _ ih =>
      rw [withoutBraces_cons (by simp [ht]), withoutBraces_cons (by simp [hname]),
        withoutBraces_cons (by simp [heq])]
      exact .cons_cons _ (.cons_cons _ (.cons _ ih))
  | ret ht _ ih =>
      rw [withoutBraces_cons (by simp [ht])]
      exact .cons_cons _ ih
  | exprStmt _ ih => exact ih
  | noStmts => exact .slnil
  | closed _ hsemi _ ihs ihss =>
      rw [withoutBraces_append, withoutBraces_cons (by simp [hsemi])]
      exact ihs.append (.cons _ ihss)
  | unclosed _ _ _ ihs ihss =>
      rw [withoutBraces_append]
      exact ihs.append ihss
  | openBlock _ hlb _ _ ih =>
      rw [withoutBraces_cons (by simp [hlb]), withoutBraces_append]
      exact .cons_cons _ (ih.trans (List.sublist_append_left _ _))
  | dropped _ _ _ ih =>
      rw [withoutBraces_append]
      exact ih.trans (List.sublist_append_right _ _)

end Derivations

/-- What is read is well formed and has its tokens from the stream, in their order, whether or not
there are faults. -/
theorem parse_wellFormed (input : Token.Stream) (tracing : Bool) :
    (parse input tracing).program.WellFormed ∧
      (parse input tracing).program.tokens.Sublist input.items := by
  have hbrace : Token.kind ⟨.rbrace, [], .start⟩ = .rbrace := rfl
  obtain ⟨used, k, hused, hderives⟩ := parse_derives_lenient input tracing hbrace
  refine ⟨hderives.wellFormed, ?_⟩
  have hsublist := hderives.tokens_sublist
  rw [withoutBraces_append_replicate hbrace] at hsublist
  exact (hsublist.trans List.filter_sublist).trans hused.sublist

/-- The program that is read is whole, whether or not there are faults. -/
theorem whole_parse {input : Token.Stream} (hT : ∀ t ∈ input.items, T t) (tracing : Bool) :
    (parse input tracing).program.Whole T := by
  obtain ⟨hwellFormed, hsublist⟩ := parse_wellFormed input tracing
  exact ⟨hwellFormed, fun t ht => hT t (hsublist.subset ht)⟩

end Grammar

section Nodes

theorem Expr.wellFormedEach_iff {es : List Expr} :
    Expr.WellFormedEach es ↔ ∀ e ∈ es, e.WellFormed := by
  induction es with
  | nil => exact ⟨fun _ => List.forall_mem_nil _, fun _ => trivial⟩
  | cons e es ih => rw [List.forall_mem_cons, ← ih, Expr.WellFormedEach]

theorem Stmt.wellFormedEach_iff {ss : List Stmt} :
    Stmt.WellFormedEach ss ↔ ∀ s ∈ ss, s.WellFormed := by
  induction ss with
  | nil => exact ⟨fun _ => List.forall_mem_nil _, fun _ => trivial⟩
  | cons s ss ih => rw [List.forall_mem_cons, ← ih, Stmt.WellFormedEach]

namespace Node

/-- A block is no statement of a well-formed list, but it is a child of an expression. -/
def WellFormed : Node → Prop
  | program p => p.WellFormed
  | stmt (.block body) => body.WellFormed
  | stmt s => s.WellFormed
  | expr e => e.WellFormed

variable {n m : Node}

theorem wellFormed_stmt {s : Stmt} (h : s.WellFormed) : (stmt s).WellFormed := by
  cases s with
  | block body => cases h
  | _ => exact h

theorem wellFormed_stmts {ss : List Stmt} (h : Stmt.WellFormedEach ss) :
    ∀ m ∈ ss.map stmt, m.WellFormed := by
  intro m hm
  obtain ⟨s, hs, rfl⟩ := List.mem_map.mp hm
  exact wellFormed_stmt (Stmt.wellFormedEach_iff.mp h s hs)

theorem WellFormed.child (h : n.WellFormed) (hm : m ∈ n.children) : m.WellFormed := by
  cases n with
  | program p => exact wellFormed_stmts h m hm
  | stmt s =>
      cases s with
      | missing => cases hm
      | block body =>
          cases body with
          | mk token stmts => exact wellFormed_stmts h.2 m hm
      | bind token id value =>
          simp only [children, List.mem_cons, List.not_mem_nil, or_false] at hm
          rcases hm with rfl | rfl
          · exact h.2.1
          · exact h.2.2
      | ret token value =>
          obtain rfl := List.mem_singleton.mp hm
          exact h.2
      | expr token value =>
          obtain rfl := List.mem_singleton.mp hm
          exact h
  | expr e =>
      cases e with
      | unary token op right =>
          obtain rfl := List.mem_singleton.mp hm
          exact h.2.2
      | binary token op left right =>
          simp only [children, List.mem_cons, List.not_mem_nil, or_false] at hm
          rcases hm with rfl | rfl
          · exact h.2.2.1
          · exact h.2.2.2
      | cond token condition consequence alternative =>
          cases alternative with
          | none =>
              simp only [children, Option.toList_none, List.map_nil, List.mem_cons,
                List.not_mem_nil, or_false] at hm
              rcases hm with rfl | rfl
              · exact h.2.1
              · exact h.2.2
          | some block =>
              simp only [children, Option.toList_some, List.map_cons, List.map_nil, List.mem_cons,
                List.not_mem_nil, or_false] at hm
              rcases hm with rfl | rfl | rfl
              · exact h.2.1
              · exact h.2.2.1
              · exact h.2.2.2
      | function token params body =>
          rcases List.mem_append.mp hm with hm | hm
          · obtain ⟨id, hid, rfl⟩ := List.mem_map.mp hm
            exact h.2.1 id hid
          · obtain rfl := List.mem_singleton.mp hm
            exact h.2.2
      | call token callee args =>
          rcases List.mem_cons.mp hm with rfl | hm
          · exact h.2.1
          · obtain ⟨e, he, rfl⟩ := List.mem_map.mp hm
            exact Expr.wellFormedEach_iff.mp h.2.2 e he
      | _ => cases hm

theorem WellFormed.kind?_isSome (h : n.WellFormed) : n.kind?.isSome = true := by
  cases n with
  | program p => rfl
  | stmt s =>
      cases s with
      | missing => cases h
      | _ => rfl
  | expr e =>
      cases e with
      | missing => cases h
      | _ => rfl

theorem WellFormed.below (h : n.WellFormed) (hm : n.Below m) : m.WellFormed := by
  induction hm with
  | refl => exact h
  | tail _ hm ih => exact ih.child hm

theorem WellFormed.filled (h : n.WellFormed) : n.Filled :=
  fun _ hm => (h.below hm).kind?_isSome

end Node

end Nodes

namespace Grammar

/-- Reading always comes to an end with a program, and there is no hole in it, whether or not there
are faults: each node has a token and a text, a walk through the whole program passes nothing over,
and a walk that enters only some of the nodes comes to no hole either. -/
theorem parse_filled (input : Token.Stream) (tracing : Bool) :
    ∃ p s, program (boundFor input) (.ofStream tracing input) = .found p s ∧
      (parse input tracing).program = p ∧
      (∀ n, (Node.program p).Below n →
        n.kind?.isSome = true ∧ n.literal?.isSome = true ∧ n.render?.isSome = true) ∧
      (∀ n, n ∈ (Node.program p).walk (fun _ => true) ↔ (Node.program p).Below n) ∧
      ∀ enter, ∀ n ∈ (Node.program p).walk enter, ∀ m ∈ n.children, m.kind?.isSome = true := by
  obtain ⟨p, s, hfound, hparse⟩ := parse_eq input tracing
  have hprogram : (parse input tracing).program = p := by rw [hparse]
  have hwellFormed := (parse_wellFormed input tracing).1
  rw [hprogram] at hwellFormed
  have hfilled : (Node.program p).Filled := Node.WellFormed.filled hwellFormed
  refine ⟨p, s, hfound, hprogram, fun n hn => ?_, fun n => hfilled.mem_walk_iff, ?_⟩
  · have hbelow := hfilled.below hn
    exact ⟨hfilled n hn, hbelow.literal?_isSome, hbelow.render?_isSome⟩
  · intro enter n hn m hm
    exact hfilled m ((Node.below_of_mem_walk hn).tail hm)

end Grammar

end Monkey

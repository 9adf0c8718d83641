import Mathlib.Algebra.Group.Nat.Defs
import Monkey.Proofs.Grammar.Rendering
import Monkey.Proofs.Text.Decimal
import Monkey.Proofs.Token.Scanning
import Monkey.Tree.Render

/-!
# Reading the text of a program back

The text of a program is not always source: blocks lose their braces in it. Where no block is in
the way it is. A plain program consists of bindings and returns, at the end of which one expression
may stand, and its expressions are names, numbers, truth values, operators and calls. The text of a
plain program is cut into the tokens that `spell` lists, and these are one of the ways in which the
program can be written. So reading the text gives the program back, and two plain programs with
the same text are the same but for places.
-/

namespace Monkey

namespace Token

/-- How a kind that has only one spelling is spelled. -/
def Kind.spelling (kind : Kind) : Bytes :=
  match keywords.find? fun entry => entry.2 = kind with
  | some (word, _) => utf8 word
  | none => kind.text

/-- The token keeps what stands for it in a source. -/
def Spelled : Token → Prop
  | ⟨.ident, literal, _⟩ => literal ≠ [] ∧ (∀ b ∈ literal, isLetter b = true) ∧
      ∀ entry ∈ keywords, utf8 entry.1 ≠ literal
  | ⟨.int, literal, _⟩ => literal ≠ [] ∧ ∀ b ∈ literal, isDigit b = true
  | ⟨kind, literal, _⟩ => literal = kind.spelling

theorem Spelled.number {t : Token} (h : t.Spelled) (hkind : t.kind = .int) :
    t.literal ≠ [] ∧ ∀ b ∈ t.literal, isDigit b = true := by
  obtain ⟨kind, literal, pos⟩ := t
  obtain rfl : kind = .int := hkind
  exact h

theorem Spelled.literal_eq {t : Token} (h : t.Spelled) (hident : t.kind ≠ .ident)
    (hint : t.kind ≠ .int) : t.literal = t.kind.spelling := by
  obtain ⟨kind, literal, pos⟩ := t
  cases kind <;> first | exact h | contradiction

end Token

open Grammar

mutual

def Expr.Plain : Expr → Prop
  | .ident id => id.WellFormed ∧ id.token.Spelled
  | .bool token value => token.kind = (if value then .true else .false) ∧ token.Spelled
  | .int token value => token.kind = .int ∧ token.Spelled ∧
      Text.Decimal.value token.literal < 2 ^ 63 ∧
      value = Int64.ofNat (Text.Decimal.value token.literal)
  | .unary token op right =>
    token.kind ∈ signs ∧ op = token.literal ∧ token.Spelled ∧ right.Plain
  | .binary token op left right =>
    token.kind ∈ binaryOperators ∧ op = token.literal ∧ token.Spelled ∧ left.Plain ∧ right.Plain
  | .call token callee args =>
    token.kind = .lparen ∧ token.Spelled ∧ callee.Plain ∧ Expr.PlainEach args
  | _ => False
termination_by structural e => e

def Expr.PlainEach : List Expr → Prop
  | [] => True
  | e :: es => e.Plain ∧ Expr.PlainEach es
termination_by structural es => es

end

/-- Bindings and returns, and at most one expression, which comes last. -/
def Stmt.PlainAll : List Stmt → Prop
  | [] => True
  | .bind token id value :: ss =>
    token.kind = .let ∧ token.Spelled ∧ id.WellFormed ∧ id.token.Spelled ∧ value.Plain ∧
      Stmt.PlainAll ss
  | .ret token value :: ss => token.kind = .return ∧ token.Spelled ∧ value.Plain ∧ Stmt.PlainAll ss
  | [.expr _ value] => value.Plain
  | _ => False

def Program.Plain (p : Program) : Prop := Stmt.PlainAll p.stmts

mutual

/-- The tokens in the text of a plain expression. -/
def Expr.spell : Expr → List Token
  | .ident id => [id.token.unplaced]
  | .bool token _ => [token.unplaced]
  | .int token _ => [token.unplaced]
  | .unary token _ right =>
    separator .lparen :: token.unplaced :: (right.spell ++ [separator .rparen])
  | .binary token _ left right =>
    separator .lparen :: (left.spell ++ token.unplaced :: (right.spell ++ [separator .rparen]))
  | .call token callee args =>
    callee.spell ++ token.unplaced :: (Expr.spellArgs args ++ [separator .rparen])
  | _ => []
termination_by structural e => e

def Expr.spellArgs : List Expr → List Token
  | [] => []
  | e :: es => e.spell ++ Expr.spellMore es
termination_by structural es => es

def Expr.spellMore : List Expr → List Token
  | [] => []
  | e :: es => separator .comma :: (e.spell ++ Expr.spellMore es)
termination_by structural es => es

end

/-- The tokens in the text of plain statements. -/
def Stmt.spellAll : List Stmt → List Token
  | .bind token id value :: ss =>
    token.unplaced :: id.token.unplaced :: separator .assign ::
      (value.spell ++ separator .semicolon :: Stmt.spellAll ss)
  | .ret token value :: ss =>
    token.unplaced :: (value.spell ++ separator .semicolon :: Stmt.spellAll ss)
  | .expr _ value :: ss => value.spell ++ Stmt.spellAll ss
  | _ => []

section Derivation

mutual

theorem Expr.Plain.derives : ∀ {e : Expr}, e.Plain → ∀ level : Level,
    Derives .strict (.expr level (e.moved fun _ => .start)) e.spell
  | .ident ⟨token, name⟩, h, _ => by
      obtain ⟨⟨hkind, rfl⟩, -⟩ := h
      exact @Derives.ident _ _ token.unplaced hkind
  | .bool token true, h, _ => @Derives.yes _ _ token.unplaced h.1
  | .bool token false, h, _ => @Derives.no _ _ token.unplaced h.1
  | .int token value, h, _ => by
      obtain ⟨hkind, hspelled, hvalue, rfl⟩ := h
      obtain ⟨hne, hdigits⟩ := hspelled.number hkind
      have hliteral := (Text.Decimal.int64?_of_digits hne hdigits).trans (if_pos hvalue)
      exact @Derives.int _ _ token.unplaced _ hkind hliteral
  | .unary token op right, h, level => by
      obtain ⟨hkind, rfl, -, hright⟩ := h
      have hinside := @Derives.unary _ .lowest token.unplaced _ _ (by decide) hkind
        (hright.derives _)
      exact .group rfl hinside rfl
  | .binary token op left right, h, level => by
      obtain ⟨hkind, rfl, -, hleft, hright⟩ := h
      have hop := mem_operators_of_mem_binaryOperators hkind
      have hinside := @Derives.binary _ .lowest _ token.unplaced _ _ _ _ (Nat.zero_le _)
        (hleft.derives _) hop (hright.derives _)
      have hgroup := @Derives.group _ level (separator .lparen) (separator .rparen) _ _ rfl
        hinside rfl
      rw [List.append_assoc, List.cons_append] at hgroup
      exact hgroup
  | .call token callee args, h, level => by
      obtain ⟨hkind, -, hcallee, hargs⟩ := h
      exact @Derives.call _ _ token.unplaced (separator .rparen) _ _ _ _ level.le_call
        (hcallee.derives _) hkind hargs.derives rfl

theorem Expr.PlainEach.derives : ∀ {es : List Expr}, Expr.PlainEach es →
    Derives .strict (.args (Expr.relabelEach Token.unplaced Token.unplaced es)) (Expr.spellArgs es)
  | [], _ => .noArgs
  | _ :: _, h => .args (h.1.derives _) h.2.derives_more

theorem Expr.PlainEach.derives_more : ∀ {es : List Expr}, Expr.PlainEach es →
    Derives .strict (.moreArgs (Expr.relabelEach Token.unplaced Token.unplaced es))
      (Expr.spellMore es)
  | [], _ => .lastArg
  | _ :: _, h => .nextArg rfl (h.1.derives _) h.2.derives_more

end

theorem Stmt.PlainAll.exists_derives : ∀ {ss : List Stmt}, Stmt.PlainAll ss → ∃ qs,
    Stmt.relabelEach Token.unplaced (fun _ => .blank) qs =
      Stmt.relabelEach Token.unplaced (fun _ => .blank) ss ∧
      Derives .strict (.stmts qs) (Stmt.spellAll ss)
  | [], _ => ⟨[], rfl, .noStmts⟩
  | .bind token ⟨name, _⟩ value :: ss, h => by
      obtain ⟨hkind, -, ⟨hname, rfl⟩, -, hvalue, hmore⟩ := h
      obtain ⟨qs, hqs, hderives⟩ := hmore.exists_derives
      have hbind := @Derives.bind _ token.unplaced name.unplaced (separator .assign) _ _ hkind hname
        rfl (hvalue.derives _)
      refine ⟨_ :: qs, ?_, .closed hbind rfl hderives⟩
      simp only [Stmt.relabelEach, Stmt.relabel, Expr.unplaced_moved, hqs]
      rfl
  | .ret token value :: ss, h => by
      obtain ⟨hkind, -, hvalue, hmore⟩ := h
      obtain ⟨qs, hqs, hderives⟩ := hmore.exists_derives
      have hret := @Derives.ret _ token.unplaced _ _ hkind (hvalue.derives _)
      refine ⟨_ :: qs, ?_, .closed hret rfl hderives⟩
      simp only [Stmt.relabelEach, Stmt.relabel, Expr.unplaced_moved, hqs]
      rfl
  | [.expr _ value], h => by
      have hvalue := h.derives .lowest
      obtain ⟨t, us, hspell, -⟩ := hvalue.expr_eq_cons
      rw [hspell] at hvalue
      have hlast := Derives.unclosed (.exprStmt hvalue) .noStmts (by decide)
      rw [← hspell] at hlast
      refine ⟨_, ?_, hlast⟩
      simp only [Stmt.relabelEach, Stmt.relabel, Expr.unplaced_moved]

/-- The tokens of its text are a way to write a plain program. -/
theorem Program.Plain.writtenAs {p : Program} (h : p.Plain) :
    p.WrittenAs (Stmt.spellAll p.stmts) := by
  obtain ⟨qs, hqs, hderives⟩ := Stmt.PlainAll.exists_derives h
  exact ⟨⟨qs⟩, congrArg Program.mk hqs, hderives⟩

end Derivation

namespace Token

/-- What can come after a word or a number. -/
def Ends (rest : Bytes) : Prop := ∀ b ∈ rest.head?, isLetter b = false ∧ isDigit b = false

theorem ends_nil : Ends [] := by simp [Ends]

theorem ends_append {text : Bytes} (rest : Bytes)
    (h : (text.head?.any fun b => !isLetter b && !isDigit b) = true) : Ends (text ++ rest) := by
  cases text with
  | nil => cases h
  | cons b bs =>
      intro c hc
      cases hc
      simpa using h

theorem ne_of_space (rest : Bytes) : ∀ c ∈ (utf8 " " ++ rest).head?, c ≠ 0x3d := by
  intro c hc
  cases hc
  decide

/-- The separators that no byte goes on with. -/
theorem Spells.separator (kind : Kind) (hkind : kind ∈ [.lparen, .rparen, .comma, .semicolon])
    {rest : Bytes} {us : List Token} (h : Spells rest us) :
    Spells (kind.text ++ rest) (separator kind :: us) := by
  simp only [List.mem_cons, List.not_mem_nil, or_false] at hkind
  rcases hkind with rfl | rfl | rfl | rfl <;> exact .cons rfl rfl (by simp) h

section Spelled

variable {t : Token} {rest : Bytes} {us : List Token}

theorem Spelled.word (h : t.Spelled) (hkind : t.kind = .ident ∨ t.kind ∈ keywords.map Prod.snd) :
    t.literal ≠ [] ∧ (∀ b ∈ t.literal, isLetter b = true) ∧ wordKind t.literal = t.kind := by
  rcases hkind with hkind | hkind
  · obtain ⟨kind, literal, pos⟩ := t
    obtain rfl : kind = .ident := hkind
    obtain ⟨hne, hletters, hfree⟩ := h
    have hfind : keywords.find? (fun entry => utf8 entry.1 == literal) = none := by
      simpa using hfree
    exact ⟨hne, hletters, by simp [wordKind, hfind]⟩
  · have hkeywords : ∀ kind ∈ keywords.map Prod.snd, kind ≠ .ident ∧ kind ≠ .int ∧
        kind.spelling ≠ [] ∧ (∀ b ∈ kind.spelling, isLetter b = true) ∧
        wordKind kind.spelling = kind := by decide +kernel
    obtain ⟨hident, hint, hword⟩ := hkeywords t.kind hkind
    rwa [h.literal_eq hident hint]

theorem Spelled.spells_word (h : t.Spelled)
    (hkind : t.kind = .ident ∨ t.kind ∈ keywords.map Prod.snd) (hrest : Ends rest)
    (hs : Spells rest us) : Spells (t.literal ++ rest) (t.unplaced :: us) := by
  obtain ⟨hne, hletters, hword⟩ := h.word hkind
  have hspells := Spells.word hne hletters (fun b hb => (hrest b hb).1) hs
  rwa [hword] at hspells

theorem Spelled.spells_number (h : t.Spelled) (hkind : t.kind = .int) (hrest : Ends rest)
    (hs : Spells rest us) : Spells (t.literal ++ rest) (t.unplaced :: us) := by
  obtain ⟨hne, hdigits⟩ := h.number hkind
  have hspells := Spells.number hne hdigits (fun b hb => (hrest b hb).2) hs
  rwa [← hkind] at hspells

theorem Spelled.spells_symbol (h : t.Spelled) (hkind : t.kind ∈ symbols)
    (hrest : ∀ c ∈ rest.head?, c ≠ 0x3d) (hs : Spells rest us) :
    Spells (t.literal ++ rest) (t.unplaced :: us) := by
  have hsymbols : ∀ kind ∈ symbols, kind ≠ .ident ∧ kind ≠ .int ∧ kind.spelling = kind.text := by
    decide +kernel
  obtain ⟨hident, hint, htext⟩ := hsymbols t.kind hkind
  have hliteral : t.literal = t.kind.text := (h.literal_eq hident hint).trans htext
  have hspells := Spells.symbol t.kind hkind hrest hs
  rwa [← hliteral] at hspells

end Spelled

end Token

section Text

variable {rest : Bytes} {us : List Token}

open Token

theorem Bytes.join_cons (sep part : Bytes) (parts : List Bytes) :
    Bytes.join sep (part :: parts) = part ++ parts.flatMap (sep ++ ·) := by
  induction parts generalizing part with
  | nil => simp
  | cons next parts ih => rw [Bytes.join_cons_cons, ih next]; simp

theorem exists_cons_of_run {p : UInt8 → Bool} {run : Bytes} (hne : run ≠ [])
    (hrun : ∀ b ∈ run, p b = true) (hp : p 0x3d = false) : ∃ b bs, run = b :: bs ∧ b ≠ 0x3d := by
  obtain ⟨b, bs, rfl⟩ := List.exists_cons_of_ne_nil hne
  refine ⟨b, bs, rfl, ?_⟩
  rintro rfl
  rw [hrun _ (.head _)] at hp
  cases hp

theorem mem_symbols_of_mem_signs {kind : Kind} (h : kind ∈ signs) : kind ∈ symbols := by
  revert kind
  decide

theorem mem_symbols_of_mem_binaryOperators {kind : Kind} (h : kind ∈ binaryOperators) :
    kind ∈ symbols := by
  revert kind
  decide

theorem kind_mem_of_bool {token : Token} {value : Bool}
    (hkind : token.kind = if value then .true else .false) :
    token.kind ∈ keywords.map Prod.snd := by
  cases value <;> simp [hkind, keywords]

/-- The text of a plain expression does not go on with an operator before it. -/
theorem Expr.Plain.render_eq_cons : ∀ {e : Expr}, e.Plain →
    ∃ b bs, e.render = b :: bs ∧ b ≠ 0x3d
  | .ident ⟨token, name⟩, h => by
      obtain ⟨⟨hkind, rfl⟩, hspelled⟩ := h
      obtain ⟨hne, hletters, -⟩ := hspelled.word (.inl hkind)
      exact exists_cons_of_run hne hletters rfl
  | .bool token value, h => by
      obtain ⟨hne, hletters, -⟩ := h.2.word (.inr (kind_mem_of_bool h.1))
      exact exists_cons_of_run hne hletters rfl
  | .int token value, h => by
      obtain ⟨hne, hdigits⟩ := h.2.1.number h.1
      exact exists_cons_of_run hne hdigits rfl
  | .unary _ _ _, _ => ⟨0x28, _, rfl, by decide⟩
  | .binary _ _ _ _, _ => ⟨0x28, _, rfl, by decide⟩
  | .call _ callee args, h => by
      obtain ⟨b, bs, hcallee, hb⟩ := Expr.Plain.render_eq_cons h.2.2.1
      exact ⟨b, _, by rw [Expr.render, hcallee]; rfl, hb⟩

/-- No equality sign comes after an operator before a plain expression. -/
theorem Expr.Plain.head_ne {e : Expr} (h : e.Plain) (rest : Bytes) :
    ∀ c ∈ (e.render ++ rest).head?, c ≠ 0x3d := by
  obtain ⟨b, bs, hrender, hb⟩ := h.render_eq_cons
  intro c hc
  rw [hrender] at hc
  cases hc
  exact hb

theorem ends_more {parts : List Bytes} (hrest : Ends rest) :
    Ends (parts.flatMap (utf8 ", " ++ ·) ++ rest) := by
  cases parts with
  | nil => exact hrest
  | cons part parts =>
      rw [List.flatMap_cons, List.append_assoc, List.append_assoc]
      exact ends_append _ (by rfl)

mutual

theorem Expr.Plain.spells : ∀ {e : Expr}, e.Plain → ∀ {rest : Bytes} {us : List Token},
    Ends rest → Spells rest us → Spells (e.render ++ rest) (e.spell ++ us)
  | .ident ⟨token, name⟩, h, _, _, hrest, hs => by
      obtain ⟨⟨hkind, rfl⟩, hspelled⟩ := h
      exact hspelled.spells_word (.inl hkind) hrest hs
  | .bool token value, h, _, _, hrest, hs =>
      h.2.spells_word (.inr (kind_mem_of_bool h.1)) hrest hs
  | .int token value, h, _, _, hrest, hs => h.2.1.spells_number h.1 hrest hs
  | .unary token op right, h, rest, us, _, hs => by
      obtain ⟨hkind, rfl, hspelled, hright⟩ := h
      have hclose : Spells (utf8 ")" ++ rest) (separator .rparen :: us) :=
        .separator .rparen (by decide) hs
      have hinside := hright.spells (ends_append rest (by rfl)) hclose
      have hop := hspelled.spells_symbol (mem_symbols_of_mem_signs hkind) (hright.head_ne _)
        hinside
      have hopen : Spells (utf8 "(" ++ _) (separator .lparen :: _) :=
        .separator .lparen (by decide) hop
      simpa only [Expr.render, Expr.spell, List.append_assoc, List.cons_append,
        List.nil_append] using hopen
  | .binary token op left right, h, rest, us, _, hs => by
      obtain ⟨hkind, rfl, hspelled, hleft, hright⟩ := h
      have hclose : Spells (utf8 ")" ++ rest) (separator .rparen :: us) :=
        .separator .rparen (by decide) hs
      have hinside := hright.spells (ends_append rest (by rfl)) hclose
      have hop := hspelled.spells_symbol (mem_symbols_of_mem_binaryOperators hkind)
        (ne_of_space _) hinside.space
      have hall := hleft.spells (ends_append _ (by rfl)) hop.space
      have hopen : Spells (utf8 "(" ++ _) (separator .lparen :: _) :=
        .separator .lparen (by decide) hall
      simpa only [Expr.render, Expr.spell, List.append_assoc, List.cons_append,
        List.nil_append] using hopen
  | .call token callee args, h, rest, us, _, hs => by
      obtain ⟨hkind, hspelled, hcallee, hargs⟩ := h
      have hclose : Spells (utf8 ")" ++ rest) (separator .rparen :: us) :=
        .separator .rparen (by decide) hs
      have hinside := hargs.spells (ends_append rest (by rfl)) hclose
      have hopen : Spells (utf8 "(" ++ _) (separator .lparen :: _) :=
        .separator .lparen (by decide) hinside
      have hcall := hcallee.spells (ends_append _ (by rfl)) hopen
      have htoken : token.unplaced = separator .lparen := by
        have hliteral := hspelled.literal_eq (by simp [hkind]) (by simp [hkind])
        rw [hkind] at hliteral
        rw [Token.unplaced, Token.moved, hkind, hliteral]
        rfl
      simpa only [Expr.render, Expr.spell, htoken, List.append_assoc, List.cons_append,
        List.nil_append] using hcall

theorem Expr.PlainEach.spells : ∀ {es : List Expr}, Expr.PlainEach es →
    ∀ {rest : Bytes} {us : List Token}, Ends rest → Spells rest us →
      Spells (Bytes.join (utf8 ", ") (Expr.renderEach es) ++ rest) (Expr.spellArgs es ++ us)
  | [], _, _, _, _, hs => hs
  | e :: es, h, rest, us, hrest, hs => by
      rw [Expr.renderEach, Bytes.join_cons, Expr.spellArgs, List.append_assoc, List.append_assoc]
      exact h.1.spells (ends_more hrest) (h.2.spells_more hrest hs)

theorem Expr.PlainEach.spells_more : ∀ {es : List Expr}, Expr.PlainEach es →
    ∀ {rest : Bytes} {us : List Token}, Ends rest → Spells rest us →
      Spells ((Expr.renderEach es).flatMap (utf8 ", " ++ ·) ++ rest) (Expr.spellMore es ++ us)
  | [], _, _, _, _, hs => hs
  | e :: es, h, rest, us, hrest, hs => by
      have hmore := h.1.spells (ends_more hrest) (h.2.spells_more hrest hs)
      have hcomma : Spells (utf8 ", " ++ _) (separator .comma :: _) :=
        .separator .comma (by decide) hmore.space
      simpa only [Expr.renderEach, Expr.spellMore, List.flatMap_cons, List.append_assoc,
        List.cons_append] using hcomma

end

theorem Stmt.PlainAll.spells : ∀ {ss : List Stmt}, Stmt.PlainAll ss →
    Spells (Stmt.renderAll ss) (Stmt.spellAll ss)
  | [], _ => .nil
  | .bind token ⟨name, _⟩ value :: ss, h => by
      obtain ⟨hkind, hspelled, ⟨hname, rfl⟩, hident, hvalue, hmore⟩ := h
      have hend : Spells (utf8 ";" ++ _) (separator .semicolon :: _) :=
        .separator .semicolon (by decide) hmore.spells
      have hright := hvalue.spells (ends_append _ (by rfl)) hend
      have hassign : Spells (utf8 " = " ++ _) (separator .assign :: _) :=
        (Spells.symbol .assign (by decide) (ne_of_space _) hright.space).space
      have hleft := hident.spells_word (.inl hname) (ends_append _ (by rfl)) hassign
      have hlet := hspelled.spells_word (.inr (by simp [hkind, keywords]))
        (ends_append _ (by rfl)) hleft.space
      simpa only [Stmt.renderAll, Stmt.render, Stmt.spellAll, List.append_assoc] using hlet
  | .ret token value :: ss, h => by
      obtain ⟨hkind, hspelled, hvalue, hmore⟩ := h
      have hend : Spells (utf8 ";" ++ _) (separator .semicolon :: _) :=
        .separator .semicolon (by decide) hmore.spells
      have hright := hvalue.spells (ends_append _ (by rfl)) hend
      have hreturn := hspelled.spells_word (.inr (by simp [hkind, keywords]))
        (ends_append _ (by rfl)) hright.space
      simpa only [Stmt.renderAll, Stmt.render, Stmt.spellAll, List.append_assoc] using hreturn
  | [.expr _ value], h => Expr.Plain.spells h ends_nil .nil

end Text

section Printable

mutual

theorem Expr.Plain.isPrintable : ∀ {e : Expr}, e.Plain → e.isPrintable = true
  | .ident _, _ => rfl
  | .bool _ _, _ => rfl
  | .int _ _, _ => rfl
  | .unary _ _ _, h => h.2.2.2.isPrintable
  | .binary _ _ _ _, h => by simp [Expr.isPrintable, h.2.2.2.1.isPrintable, h.2.2.2.2.isPrintable]
  | .call _ _ _, h => by simp [Expr.isPrintable, h.2.2.1.isPrintable, h.2.2.2.allPrintable]

theorem Expr.PlainEach.allPrintable : ∀ {es : List Expr}, Expr.PlainEach es →
    Expr.allPrintable es = true
  | [], _ => rfl
  | _ :: _, h => by simp [Expr.allPrintable, h.1.isPrintable, h.2.allPrintable]

end

theorem Stmt.PlainAll.allPrintable : ∀ {ss : List Stmt}, Stmt.PlainAll ss →
    Stmt.allPrintable ss = true
  | [], _ => rfl
  | .bind _ _ _ :: _, h => by
      simp [Stmt.allPrintable, Stmt.isPrintable, h.2.2.2.2.1.isPrintable,
        h.2.2.2.2.2.allPrintable]
  | .ret _ _ :: _, h => by
      simp [Stmt.allPrintable, Stmt.isPrintable, h.2.2.1.isPrintable, h.2.2.2.allPrintable]
  | [.expr _ _], h => by
      simp [Stmt.allPrintable, Stmt.isPrintable, Expr.Plain.isPrintable h]

end Printable

open Token

/-- What is read from the text of a plain program. -/
theorem Program.Plain.parseSource_eq {p : Program} (hp : p.Plain) (tracing : Bool) :
    (parseSource p.render tracing).faults = [] ∧
      (parseSource p.render tracing).program.unplaced = p.unplaced := by
  have hspells : Spells p.render (Stmt.spellAll p.stmts) := Stmt.PlainAll.spells hp
  have hwritten : p.WrittenAs ((Stream.ofSource p.render).items.map Token.unplaced) := by
    rw [hspells.map_items]
    exact hp.writtenAs
  exact parse_of_writtenAs (fun _ => .start) hwritten tracing

/-- A plain program has a text, and reading the text gives the program back without a fault, but
for places and for the tokens that expression statements start with. The program that is read has
the same text again, and no other plain program has it. -/
theorem parseSource_render (p : Program) (hp : p.Plain) (tracing : Bool) :
    (Node.program p).render? = some p.render ∧
      (parseSource p.render tracing).faults = [] ∧
      (parseSource p.render tracing).program.unplaced = p.unplaced ∧
      (parseSource p.render tracing).program.render = p.render ∧
      ∀ q : Program, q.Plain → q.render = p.render → q.unplaced = p.unplaced := by
  obtain ⟨hfaults, hprogram⟩ := hp.parseSource_eq tracing
  refine ⟨?_, hfaults, hprogram, ?_, ?_⟩
  · have hprintable : (Node.program p).isPrintable = true := Stmt.PlainAll.allPrintable hp
    rw [Node.render?, hprintable]
    rfl
  · rw [← Program.render_unplaced, hprogram, Program.render_unplaced]
  · intro q hq htext
    have hprogram' := (hq.parseSource_eq tracing).2
    rw [htext, hprogram] at hprogram'
    exact hprogram'.symm

/-- `let ab = (-f)(1, (2 * x));return (!true);(ab == 007)(ab)` -/
theorem parseSource_render_calls :
    let word := fun kind text => (⟨kind, utf8 text, ⟨2, 3⟩⟩ : Token)
    let name := fun text => (⟨word .ident text, utf8 text⟩ : Ident)
    let p : Program :=
      ⟨[.bind (word .let "let") (name "ab")
          (.call (word .lparen "(") (.unary (word .minus "-") (utf8 "-") (.ident (name "f")))
            [.int (word .int "1") 1,
              .binary (word .asterisk "*") (utf8 "*") (.int (word .int "2") 2)
                (.ident (name "x"))]),
        .ret (word .return "return")
          (.unary (word .bang "!") (utf8 "!") (.bool (word .true "true") true)),
        .expr .blank
          (.call (word .lparen "(")
            (.binary (word .equal "==") (utf8 "==") (.ident (name "ab"))
              (.int (word .int "007") 7))
            [.ident (name "ab")])]⟩
    p.Plain ∧ (parseSource p.render false).faults = [] ∧
      (parseSource p.render false).program.unplaced = p.unplaced := by
  intro word name p
  have hp : p.Plain := by
    simp only [p, Program.Plain, Stmt.PlainAll, Expr.Plain, Expr.PlainEach, Ident.WellFormed]
    simp only [word, name, Token.Spelled]
    and_intros <;> decide +kernel
  obtain ⟨-, hfaults, hprogram, -⟩ := parseSource_render p hp false
  exact ⟨hp, hfaults, hprogram⟩

end Monkey

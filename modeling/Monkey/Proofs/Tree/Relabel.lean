import Mathlib.Tactic.Common
import Monkey.Tree.Render

/-!
# Changing the tokens of a tree

`relabel f g` changes the tokens of a tree without touching anything else: `f` those of the nodes,
and `g` those that expression statements hold beside their expression. Two trees are equal up to
places when they become equal once every token is put at the start of the source; `unplaced`
moreover forgets which token an expression statement starts with.
-/

namespace Monkey

namespace Token

/-- The token at another place. -/
def moved (move : Position → Position) (t : Token) : Token := { t with pos := move t.pos }

@[simp] theorem kind_moved (move : Position → Position) (t : Token) :
    (t.moved move).kind = t.kind := rfl

@[simp] theorem literal_moved (move : Position → Position) (t : Token) :
    (t.moved move).literal = t.literal := rfl

theorem moved_id : moved id = id := rfl

/-- The token with its place forgotten. -/
def unplaced : Token → Token := moved fun _ => .start

/-- A token that says nothing. -/
def blank : Token := ⟨.eof, [], .start⟩

end Token

def Ident.relabel (f : Token → Token) (id : Ident) : Ident := ⟨f id.token, id.name⟩

mutual

def Expr.relabel (f g : Token → Token) : Expr → Expr
  | .missing => .missing
  | .ident id => .ident (id.relabel f)
  | .bool token value => .bool (f token) value
  | .int token value => .int (f token) value
  | .unary token op right => .unary (f token) op (right.relabel f g)
  | .binary token op left right => .binary (f token) op (left.relabel f g) (right.relabel f g)
  | .cond token condition consequence none =>
    .cond (f token) (condition.relabel f g) (consequence.relabel f g) none
  | .cond token condition consequence (some alternative) =>
    .cond (f token) (condition.relabel f g) (consequence.relabel f g)
      (some (alternative.relabel f g))
  | .function token params body =>
    .function (f token) (params.map (Ident.relabel f)) (body.relabel f g)
  | .call token callee args => .call (f token) (callee.relabel f g) (Expr.relabelEach f g args)
termination_by structural e => e

def Expr.relabelEach (f g : Token → Token) : List Expr → List Expr
  | [] => []
  | e :: es => e.relabel f g :: Expr.relabelEach f g es
termination_by structural es => es

def Stmt.relabel (f g : Token → Token) : Stmt → Stmt
  | .missing => .missing
  | .bind token id value => .bind (f token) (id.relabel f) (value.relabel f g)
  | .ret token value => .ret (f token) (value.relabel f g)
  | .expr token value => .expr (g token) (value.relabel f g)
  | .block body => .block (body.relabel f g)
termination_by structural s => s

def Stmt.relabelEach (f g : Token → Token) : List Stmt → List Stmt
  | [] => []
  | s :: ss => s.relabel f g :: Stmt.relabelEach f g ss
termination_by structural ss => ss

def Block.relabel (f g : Token → Token) : Block → Block
  | .mk token stmts => .mk (f token) (Stmt.relabelEach f g stmts)
termination_by structural b => b

end

/-- An expression with its tokens at other places. -/
abbrev Expr.moved (move : Position → Position) (e : Expr) : Expr :=
  e.relabel (Token.moved move) (Token.moved move)

/-- A statement with its tokens at other places. -/
abbrev Stmt.moved (move : Position → Position) (s : Stmt) : Stmt :=
  s.relabel (Token.moved move) (Token.moved move)

/-- A block with its tokens at other places. -/
abbrev Block.moved (move : Position → Position) (b : Block) : Block :=
  b.relabel (Token.moved move) (Token.moved move)

/-- An expression without places, and without the tokens that the expression statements in it
start with. -/
abbrev Expr.unplaced (e : Expr) : Expr := e.relabel Token.unplaced fun _ => .blank

namespace Program

def relabel (f g : Token → Token) (p : Program) : Program := ⟨Stmt.relabelEach f g p.stmts⟩

/-- A program without places, and without the tokens that expression statements start with. -/
def unplaced (p : Program) : Program := p.relabel Token.unplaced fun _ => .blank

end Program

theorem Expr.relabelEach_eq_map (f g : Token → Token) (es : List Expr) :
    Expr.relabelEach f g es = es.map (Expr.relabel f g) := by
  induction es with
  | nil => rfl
  | cons e es ih => rw [Expr.relabelEach, ih, List.map_cons]

theorem Stmt.relabelEach_eq_map (f g : Token → Token) (ss : List Stmt) :
    Stmt.relabelEach f g ss = ss.map (Stmt.relabel f g) := by
  induction ss with
  | nil => rfl
  | cons s ss ih => rw [Stmt.relabelEach, ih, List.map_cons]

section Composition

variable (f g h k : Token → Token)

theorem Ident.relabel_relabel (id : Ident) :
    (id.relabel f).relabel h = id.relabel (h ∘ f) := rfl

mutual

theorem Expr.relabel_relabel :
    ∀ e : Expr, (e.relabel f g).relabel h k = e.relabel (h ∘ f) (k ∘ g)
  | .missing => rfl
  | .ident _ => rfl
  | .bool _ _ => rfl
  | .int _ _ => rfl
  | .unary _ _ right => by simp [Expr.relabel, Expr.relabel_relabel right]
  | .binary _ _ left right => by
      simp [Expr.relabel, Expr.relabel_relabel left, Expr.relabel_relabel right]
  | .cond _ condition consequence none => by
      simp [Expr.relabel, Expr.relabel_relabel condition, Block.relabel_relabel consequence]
  | .cond _ condition consequence (some alternative) => by
      simp [Expr.relabel, Expr.relabel_relabel condition, Block.relabel_relabel consequence,
        Block.relabel_relabel alternative]
  | .function _ params body => by
      simp [Expr.relabel, Block.relabel_relabel body, Ident.relabel]
  | .call _ callee args => by
      simp [Expr.relabel, Expr.relabel_relabel callee, Expr.relabelEach_relabelEach args]

theorem Expr.relabelEach_relabelEach : ∀ es : List Expr,
    Expr.relabelEach h k (Expr.relabelEach f g es) = Expr.relabelEach (h ∘ f) (k ∘ g) es
  | [] => rfl
  | e :: es => by
      simp [Expr.relabelEach, Expr.relabel_relabel e, Expr.relabelEach_relabelEach es]

theorem Stmt.relabel_relabel :
    ∀ s : Stmt, (s.relabel f g).relabel h k = s.relabel (h ∘ f) (k ∘ g)
  | .missing => rfl
  | .bind _ id value => by
      simp [Stmt.relabel, Expr.relabel_relabel value, Ident.relabel_relabel]
  | .ret _ value => by simp [Stmt.relabel, Expr.relabel_relabel value]
  | .expr _ value => by simp [Stmt.relabel, Expr.relabel_relabel value]
  | .block body => by simp [Stmt.relabel, Block.relabel_relabel body]

theorem Stmt.relabelEach_relabelEach : ∀ ss : List Stmt,
    Stmt.relabelEach h k (Stmt.relabelEach f g ss) = Stmt.relabelEach (h ∘ f) (k ∘ g) ss
  | [] => rfl
  | s :: ss => by
      simp [Stmt.relabelEach, Stmt.relabel_relabel s, Stmt.relabelEach_relabelEach ss]

theorem Block.relabel_relabel :
    ∀ b : Block, (b.relabel f g).relabel h k = b.relabel (h ∘ f) (k ∘ g)
  | .mk _ stmts => by simp [Block.relabel, Stmt.relabelEach_relabelEach stmts]

end

end Composition

section Identity

mutual

theorem Expr.relabel_id : ∀ e : Expr, e.relabel id id = e
  | .missing => rfl
  | .ident _ => rfl
  | .bool _ _ => rfl
  | .int _ _ => rfl
  | .unary _ _ right => by simp [Expr.relabel, Expr.relabel_id right]
  | .binary _ _ left right => by
      simp [Expr.relabel, Expr.relabel_id left, Expr.relabel_id right]
  | .cond _ condition consequence none => by
      simp [Expr.relabel, Expr.relabel_id condition, Block.relabel_id consequence]
  | .cond _ condition consequence (some alternative) => by
      simp [Expr.relabel, Expr.relabel_id condition, Block.relabel_id consequence,
        Block.relabel_id alternative]
  | .function _ params body => by
      have hparams : params.map (Ident.relabel id) = params := List.map_id params
      simp [Expr.relabel, Block.relabel_id body, hparams]
  | .call _ callee args => by
      simp [Expr.relabel, Expr.relabel_id callee, Expr.relabelEach_id args]

theorem Expr.relabelEach_id : ∀ es : List Expr, Expr.relabelEach id id es = es
  | [] => rfl
  | e :: es => by simp [Expr.relabelEach, Expr.relabel_id e, Expr.relabelEach_id es]

theorem Stmt.relabel_id : ∀ s : Stmt, s.relabel id id = s
  | .missing => rfl
  | .bind _ id value => by simp [Stmt.relabel, Expr.relabel_id value, Ident.relabel]
  | .ret _ value => by simp [Stmt.relabel, Expr.relabel_id value]
  | .expr _ value => by simp [Stmt.relabel, Expr.relabel_id value]
  | .block body => by simp [Stmt.relabel, Block.relabel_id body]

theorem Stmt.relabelEach_id : ∀ ss : List Stmt, Stmt.relabelEach id id ss = ss
  | [] => rfl
  | s :: ss => by simp [Stmt.relabelEach, Stmt.relabel_id s, Stmt.relabelEach_id ss]

theorem Block.relabel_id : ∀ b : Block, b.relabel id id = b
  | .mk _ stmts => by simp [Block.relabel, Stmt.relabelEach_id stmts]

end

end Identity

section Text

variable (move : Position → Position) (g : Token → Token)

mutual

theorem Expr.render_relabel : ∀ e : Expr, (e.relabel (Token.moved move) g).render = e.render
  | .missing => rfl
  | .ident _ => rfl
  | .bool _ _ => rfl
  | .int _ _ => rfl
  | .unary _ _ right => by simp [Expr.relabel, Expr.render, Expr.render_relabel right]
  | .binary _ _ left right => by
      simp [Expr.relabel, Expr.render, Expr.render_relabel left, Expr.render_relabel right]
  | .cond _ condition consequence none => by
      simp [Expr.relabel, Expr.render, Expr.render_relabel condition,
        Block.render_relabel consequence]
  | .cond _ condition consequence (some alternative) => by
      simp [Expr.relabel, Expr.render, Expr.render_relabel condition,
        Block.render_relabel consequence, Block.render_relabel alternative]
  | .function _ params body => by
      have hnames : (params.map (Ident.relabel (Token.moved move))).map Ident.name =
          params.map Ident.name := by
        simp [Ident.relabel]
      simp [Expr.relabel, Expr.render, renderParams, hnames, Block.render_relabel body]
  | .call _ callee args => by
      simp [Expr.relabel, Expr.render, Expr.render_relabel callee,
        Expr.renderEach_relabelEach args]

theorem Expr.renderEach_relabelEach : ∀ es : List Expr,
    Expr.renderEach (Expr.relabelEach (Token.moved move) g es) = Expr.renderEach es
  | [] => rfl
  | e :: es => by
      simp [Expr.relabelEach, Expr.renderEach, Expr.render_relabel e,
        Expr.renderEach_relabelEach es]

theorem Stmt.render_relabel : ∀ s : Stmt, (s.relabel (Token.moved move) g).render = s.render
  | .missing => rfl
  | .bind _ _ value => by
      simp [Stmt.relabel, Stmt.render, Ident.relabel, Expr.render_relabel value]
  | .ret _ value => by simp [Stmt.relabel, Stmt.render, Expr.render_relabel value]
  | .expr _ value => Expr.render_relabel value
  | .block body => Block.render_relabel body

theorem Stmt.renderAll_relabelEach : ∀ ss : List Stmt,
    Stmt.renderAll (Stmt.relabelEach (Token.moved move) g ss) = Stmt.renderAll ss
  | [] => rfl
  | s :: ss => by
      simp [Stmt.relabelEach, Stmt.renderAll, Stmt.render_relabel s,
        Stmt.renderAll_relabelEach ss]

theorem Block.render_relabel : ∀ b : Block, (b.relabel (Token.moved move) g).render = b.render
  | .mk _ stmts => Stmt.renderAll_relabelEach stmts

end

end Text

/-- Places do not show in the text of a program. -/
theorem Program.render_unplaced (p : Program) : p.unplaced.render = p.render :=
  Stmt.renderAll_relabelEach _ _ p.stmts

theorem Expr.unplaced_moved (move : Position → Position) (e : Expr) :
    (e.moved move).unplaced = e.unplaced := by
  rw [Expr.moved, Expr.unplaced, Expr.relabel_relabel]
  rfl

/-- Moving tokens first makes no difference to forgetting their places. -/
theorem Program.unplaced_relabel (move : Position → Position) (p : Program) :
    (p.relabel (Token.moved move) (Token.moved move)).unplaced = p.unplaced := by
  simp only [Program.unplaced, Program.relabel, Stmt.relabelEach_relabelEach]
  rfl

end Monkey

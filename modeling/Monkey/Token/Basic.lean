import Monkey.Text.Decimal

/-!
# Tokens

A token is a kind, the text it keeps, and the place where it starts. The kinds are the ones the
language knows; `Kind.other` holds the name of any further kind that a hand-made list of tokens
may bring, which no rule of the grammar accepts. `Kind.text` is the name under which a kind
appears in messages, and `Kind.ofText` reads it back.
-/

namespace Monkey

/-- A place in a source, both numbers counted from one, the column in bytes. -/
structure Position where
  line : Nat
  column : Nat
  deriving DecidableEq, Repr

namespace Position

def start : Position := ⟨1, 1⟩

/-- The place after one more byte. -/
def next (p : Position) (b : UInt8) : Position :=
  if b = 0x0a then ⟨p.line + 1, 1⟩ else ⟨p.line, p.column + 1⟩

/-- The place after the bytes of a stretch of source. -/
def after (p : Position) (bs : Bytes) : Position := bs.foldl next p

@[simp] theorem after_nil (p : Position) : p.after [] = p := rfl

@[simp] theorem after_cons (p : Position) (b : UInt8) (bs : Bytes) :
    p.after (b :: bs) = (p.next b).after bs := rfl

theorem after_append (p : Position) (as bs : Bytes) :
    p.after (as ++ bs) = (p.after as).after bs := by
  simp [after]

def text (p : Position) : Bytes :=
  Text.Decimal.ofNat p.line ++ utf8 ":" ++ Text.Decimal.ofNat p.column

end Position

namespace Token

inductive Kind where
  | illegal
  | eof
  | ident
  | int
  | assign
  | plus
  | minus
  | bang
  | asterisk
  | slash
  | less
  | greater
  | equal
  | notEqual
  | comma
  | semicolon
  | lparen
  | rparen
  | lbrace
  | rbrace
  | function
  | «let»
  | «true»
  | «false»
  | «if»
  | «else»
  | «return»
  | other (name : Bytes)
  deriving DecidableEq, Repr

namespace Kind

/-- The kinds that have a fixed name, with it. -/
def names : List (Kind × String) :=
  [(illegal, "ILLEGAL"), (eof, "EOF"), (ident, "IDENT"), (int, "INT"), (assign, "="), (plus, "+"),
   (minus, "-"), (bang, "!"), (asterisk, "*"), (slash, "/"), (less, "<"), (greater, ">"),
   (equal, "=="), (notEqual, "!="), (comma, ","), (semicolon, ";"), (lparen, "("), (rparen, ")"),
   (lbrace, "\x7b"), (rbrace, "\x7d"), (function, "FUNCTION"), («let», "LET"), («true», "TRUE"),
   («false», "FALSE"), («if», "IF"), («else», "ELSE"), («return», "RETURN")]

def text : Kind → Bytes
  | other name => name
  | kind => utf8 ((names.lookup kind).getD "")

def ofText (name : Bytes) : Kind :=
  match names.find? fun entry => utf8 entry.2 == name with
  | some (kind, _) => kind
  | none => other name

end Kind

/-- The reserved words. -/
def keywords : List (String × Kind) :=
  [("fn", .function), ("let", .let), ("true", .true), ("false", .false), ("if", .if),
   ("else", .else), ("return", .return)]

/-- The kind of a word: its own for a reserved word, and that of an identifier for any other. -/
def wordKind (word : Bytes) : Kind :=
  match keywords.find? fun entry => utf8 entry.1 == word with
  | some (_, kind) => kind
  | none => .ident

end Token

structure Token where
  kind : Token.Kind
  literal : Bytes
  pos : Position
  deriving DecidableEq, Repr

end Monkey

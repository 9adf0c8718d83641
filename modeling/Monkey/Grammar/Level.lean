import Monkey.Token.Basic

/-!
# Binding strength

How strongly an operator holds on to its operands, from the weakest level to the strongest. An
expression read at some level takes up the operators that bind more strongly than it. Every kind
of token has a level as what may follow an operand; a token that joins nothing has the lowest.
-/

namespace Monkey.Grammar

inductive Level where
  | lowest
  | equality
  | comparison
  | sum
  | product
  | unary
  | call
  deriving DecidableEq, Repr

namespace Level

def rank : Level → Nat
  | lowest => 0
  | equality => 1
  | comparison => 2
  | sum => 3
  | product => 4
  | unary => 5
  | call => 6

instance : LT Level := ⟨fun a b => a.rank < b.rank⟩

instance (a b : Level) : Decidable (a < b) := inferInstanceAs (Decidable (a.rank < b.rank))

/-- The level at which a token joins the operand before it to what comes after. -/
def ofKind : Token.Kind → Level
  | .equal => equality
  | .notEqual => equality
  | .less => comparison
  | .greater => comparison
  | .plus => sum
  | .minus => sum
  | .slash => product
  | .asterisk => product
  | .lparen => call
  | _ => lowest

end Level

end Monkey.Grammar

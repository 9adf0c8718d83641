import Monkey.Value.Basic

/-!
# Operators

What the operators do with the values of their operands. Arithmetic is done in 64 bits and wraps
around, and division goes toward zero. Operands of different kinds never go together, not even
for a comparison.
-/

namespace Monkey.Value

def unary (op : Bytes) (right : Value) : Value :=
  if op = utf8 "!" then ofBool !right.isTruthy
  else if op = utf8 "-" then
    match right with
    | int n => int (-n)
    | _ => error (.unknownUnary op right.kind)
  else error (.unknownUnary op right.kind)

def binaryInt (op : Bytes) (m n : Int64) : Value :=
  if op = utf8 "+" then int (m + n)
  else if op = utf8 "-" then int (m - n)
  else if op = utf8 "*" then int (m * n)
  else if op = utf8 "/" then
    if n = 0 then error (.divisionByZero m) else int (m / n)
  else if op = utf8 "<" then ofBool (m < n)
  else if op = utf8 ">" then ofBool (n < m)
  else if op = utf8 "==" then ofBool (m = n)
  else if op = utf8 "!=" then ofBool (m ≠ n)
  else error (.unknownBinary .integer op .integer)

/-- Booleans are compared by what they are and not by what they hold, so that one from outside is
equal only to itself. -/
def binaryBool (op : Bytes) (same : Bool) : Value :=
  if op = utf8 "==" then ofBool same
  else if op = utf8 "!=" then ofBool !same
  else error (.unknownBinary .boolean op .boolean)

def binary (op : Bytes) (left right : Value) : Value :=
  match left, right with
  | int m, int n => binaryInt op m n
  | bool a p, bool b q => binaryBool op (a = b && p = q)
  | left, right =>
    if left.kind = right.kind then error (.unknownBinary left.kind op right.kind)
    else error (.typeMismatch left.kind op right.kind)

end Monkey.Value

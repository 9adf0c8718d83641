import Monkey.Tree.Render

/-!
# Values

What evaluation gives. A function keeps its parameters, its body and the scope it was made in,
which is named by its number in the heap. A value on its way out of a function stands in a `ret`
until a call or a program takes it out, and an error is a value that ends every evaluation around
it.

Booleans and nulls are told apart by their origin and not only by what they hold: there is one true,
one false and one null that the language itself makes, and any number of others may be put into a
scope from outside. In a condition only the false and the null of the language count as false, and
two booleans are equal only if they are the same one.
-/

namespace Monkey

/-- The number of a scope in the heap. -/
abbrev ScopeId := Nat

namespace Value

inductive Kind where
  | integer
  | boolean
  | null
  | ret
  | error
  | function
  deriving DecidableEq, Repr

def Kind.text : Kind → String
  | integer => "INTEGER"
  | boolean => "BOOLEAN"
  | null => "NULL"
  | ret => "RETURN_VALUE"
  | error => "ERROR"
  | function => "FUNCTION"

/-- Where a boolean or a null comes from: the language itself, or outside of it. -/
inductive Origin where
  | language
  | outside (serial : Nat)
  deriving DecidableEq, Repr

/-- Why an evaluation fails. -/
inductive Fault where
  | unknownNode
  | unknownUnary (op : Bytes) (right : Kind)
  | unknownBinary (left : Kind) (op : Bytes) (right : Kind)
  | typeMismatch (left : Kind) (op : Bytes) (right : Kind)
  | divisionByZero (dividend : Int64)
  | unbound (name : Bytes)
  | notAFunction (callee : Kind)
  | wrongArity (got want : Nat)
  | custom (message : Bytes)
  deriving DecidableEq, Repr

def Fault.message : Fault → Bytes
  | unknownNode => utf8 "unknown node: <nil>"
  | unknownUnary op right => utf8 "unknown operator: " ++ op ++ utf8 right.text
  | unknownBinary left op right =>
    utf8 "unknown operator: " ++ utf8 left.text ++ utf8 " " ++ op ++ utf8 " " ++ utf8 right.text
  | typeMismatch left op right =>
    utf8 "type mismatch: " ++ utf8 left.text ++ utf8 " " ++ op ++ utf8 " " ++ utf8 right.text
  | divisionByZero dividend =>
    utf8 "division by zero: " ++ Text.Decimal.ofInt dividend.toInt ++ utf8 " / 0"
  | unbound name => utf8 "identifier not found: " ++ name
  | notAFunction callee => utf8 "not a function: " ++ utf8 callee.text
  | wrongArity got want =>
    utf8 "wrong number of arguments. got=" ++ Text.Decimal.ofNat got ++ utf8 ", want=" ++
      Text.Decimal.ofNat want
  | custom message => message

end Value

inductive Value where
  | int (n : Int64)
  | bool (b : Bool) (origin : Value.Origin)
  | null (origin : Value.Origin := .language)
  | ret (inner : Value)
  | error (fault : Value.Fault)
  | function (params : List Ident) (body : Block) (scope : ScopeId)

namespace Value

instance : Inhabited Value := ⟨.null⟩

def kind : Value → Kind
  | int _ => .integer
  | bool _ _ => .boolean
  | null _ => .null
  | ret _ => .ret
  | error _ => .error
  | function _ _ _ => .function

/-- The true and the false of the language. -/
def ofBool (b : Bool) : Value := bool b .language

/-- Everything counts as true but the false and the null of the language. -/
def isTruthy : Value → Bool
  | bool false .language => false
  | null .language => false
  | _ => true

/-- How a value is shown. -/
def inspect : Value → Bytes
  | int n => Text.Decimal.ofInt n.toInt
  | bool b _ => utf8 (if b then "true" else "false")
  | null _ => utf8 "null"
  | ret inner => inner.inspect
  | error fault => utf8 "ERROR: " ++ fault.message
  | function params body _ =>
    utf8 "fn(" ++ renderParams params ++ utf8 ") \x7b\n" ++ body.render ++ utf8 "\n\x7d"

/-- Whether a value can be shown: the body of a function has to have a text. -/
def isPrintable : Value → Bool
  | ret inner => inner.isPrintable
  | function _ body _ => body.isPrintable
  | _ => true

end Value

end Monkey

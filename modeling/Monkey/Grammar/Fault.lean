import Monkey.Token.Basic
import Monkey.Text.Quoted

/-!
# Faults in a source

What can be wrong with a list of tokens: the next token is not the one that has to come, no
expression starts with the token at hand, or a number does not fit.
-/

namespace Monkey.Grammar

inductive Fault where
  | unexpected (want got : Token.Kind)
  | noExpression (kind : Token.Kind)
  | badInteger (literal : Bytes)
  deriving DecidableEq, Repr

def Fault.message : Fault → Bytes
  | unexpected want got =>
    utf8 "expected next token to be " ++ want.text ++ utf8 ", got " ++ got.text ++ utf8 " instead"
  | noExpression kind => utf8 "no prefix parse function for " ++ kind.text ++ utf8 " found"
  | badInteger literal => utf8 "could not parse " ++ Text.quote literal ++ utf8 " as integer"

/-- All messages about one source as a single text. -/
def summary : List Bytes → Bytes
  | [message] => utf8 "parse error: " ++ message
  | messages =>
    Text.Decimal.ofNat messages.length ++ utf8 " parse errors: " ++
      Bytes.join (utf8 "; ") messages

end Monkey.Grammar

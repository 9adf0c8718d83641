import Monkey.Bytes
import Monkey.Yaml.Label

/-!
# Tokens of a document

Indentation shows in the tokens: a block starts where a line is further in than the one before, and
ends where one is less far in. Before a key there is always a token, also where the source has only
the colon after it.
-/

namespace Monkey.Yaml

inductive Token where
  | sourceEnd
  | directive (directive : Directive)
  | documentStart
  | documentEnd
  | sequenceStart
  | mappingStart
  | blockEnd
  | bracketOpen
  | bracketClose
  | braceOpen
  | braceClose
  | dash
  | comma
  | key
  | value
  | reference (name : List Char)
  | anchor (name : List Char)
  | tag (handle : List Char) (rest : Bytes)
  | scalar (plain : Bool) (text : List Char)
  deriving DecidableEq, Repr

end Monkey.Yaml

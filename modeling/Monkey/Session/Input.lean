import Monkey.Text.Blank
import Monkey.Token.Stream

/-!
# Inputs of a session

An input is one line, or several lines of which the earlier ones leave a brace or a parenthesis
open. A line that starts with a colon is a command and is an input by itself.
-/

namespace Monkey.Session

/-- What a token adds to the number of braces and parentheses that are open. -/
def openWeight : Token.Kind → Int
  | .lbrace => 1
  | .lparen => 1
  | .rbrace => -1
  | .rparen => -1
  | _ => 0

/-- How many more braces and parentheses are opened than closed. -/
def openDepth (text : Bytes) : Int :=
  (Token.tokens text).foldl (fun depth token => depth + openWeight token.kind) 0

def isBlankText (text : Bytes) : Bool := (Text.trimStart text).isEmpty

def isCommand (text : Bytes) : Bool := (Text.trimStart text).head? = some 0x3a

/-- Whether no further line belongs to an input. -/
def isComplete (text : Bytes) : Bool := isCommand text || openDepth text ≤ 0

/-- Lines as one input. -/
def inputText (lines : List Bytes) : Bytes := Bytes.join (utf8 "\n") lines

end Monkey.Session

import Monkey.Settings.Basic
import Monkey.Text.Digits
import Monkey.Text.Rune

/-!
# Settings in TOML

A flat document is a list of `key = value` lines. A value is a string, a whole number, or a truth
value. Strings stand between double quotes, with escapes, or between single quotes, without;
tripled quotes let a string go on over several lines. A line ends with a carriage return, a line
feed, or both. Tables and the other values that the format has are no values of a setting, and a
document that uses them is refused.
-/

namespace Monkey.Settings.Toml

def isBlank (c : Char) : Bool := c = ' ' || c = '\t'

def isBreak (c : Char) : Bool := c = '\n' || c = '\r'

/-- The characters that have no place in a line. -/
def isControl (c : Char) : Bool := c.toNat < 0x20

def skipBlanks (cs : List Char) : List Char := cs.dropWhile isBlank

/-- The characters of a document. In place of a stray byte stands the replacement character. -/
def charsOf (bs : Bytes) : List Char :=
  (Text.Rune.decode bs).map fun
    | .char c => c
    | .stray _ => '�'

def isBareKeyChar (c : Char) : Bool := c.isAlphanum || c = '_' || c = '-'

/-- The character that a letter after a backslash stands for. -/
def letter? : Char → Option Char
  | 'b' => some '\x08'
  | 't' => some '\t'
  | 'n' => some '\n'
  | 'f' => some '\x0c'
  | 'r' => some '\x0d'
  | '"' => some '"'
  | '\\' => some '\\'
  | _ => none

/-- The number of the first `count` hexadecimal digits. -/
def hexNumber? : Nat → Nat → List Char → Option Nat
  | 0, value, _ => some value
  | count + 1, value, c :: rest => do
    let digit ← Text.hexValue? c
    hexNumber? count (value * 16 + digit) rest
  | _ + 1, _, [] => none

/-- The character after a backslash, and how many characters it takes up. -/
def escape? : List Char → Option (Char × Nat)
  | 'u' :: rest => (hexNumber? 4 0 rest).bind fun n => (char? n).map fun c => (c, 5)
  | 'U' :: rest => (hexNumber? 8 0 rest).bind fun n => (char? n).map fun c => (c, 9)
  | c :: _ => (letter? c).map fun c => (c, 1)
  | [] => none
where
  char? (n : Nat) : Option Char := if n.isValidChar then some (Char.ofNat n) else none

/-- A string up to a closing double quote, and what comes after it. `skip` characters were taken
up already. -/
def basic? (done : List Char) (skip : Nat) : List Char → Option (List Char × List Char)
  | [] => none
  | c :: rest =>
    match skip with
    | skip + 1 => basic? done skip rest
    | 0 =>
      if c = '"' then some (done.reverse, rest)
      else if c = '\\' then
        match escape? rest with
        | some (e, more) => basic? (e :: done) more rest
        | none => none
      else if isControl c then none
      else basic? (c :: done) 0 rest

/-- A string up to a closing single quote, and what comes after it. -/
def literal? (done : List Char) : List Char → Option (List Char × List Char)
  | [] => none
  | c :: rest =>
    if c = '\'' then some (done.reverse, rest)
    else if isControl c && c != '\t' then none
    else literal? (c :: done) rest

/-- A string up to three closing double quotes. No other quotes are in it. Line breaks before its
first character do not belong to it, and a backslash at the end of a line takes away the line break
and the blanks after it. -/
def longBasic? (done : List Char) (skip : Nat) (joining : Bool) :
    List Char → Option (List Char × List Char)
  | [] => none
  | c :: rest =>
    match skip with
    | skip + 1 => longBasic? done skip joining rest
    | 0 =>
      if joining && (isBlank c || isBreak c) then longBasic? done 0 true rest
      else if isBreak c then
        longBasic? (if done.isEmpty then done else c :: done) 0 false rest
      else if c = '"' then
        if rest.take 2 = ['"', '"'] then some (done.reverse, rest.drop 2) else none
      else if c = '\\' then
        if rest.head?.any isBreak then longBasic? done 1 true rest
        else match escape? rest with
          | some (e, more) => longBasic? (e :: done) more false rest
          | none => none
      else if isControl c then none
      else longBasic? (c :: done) 0 false rest

/-- A string up to three closing single quotes. Line breaks before its first character do not belong
to it. -/
def longLiteral? (done : List Char) : List Char → Option (List Char × List Char)
  | [] => none
  | c :: rest =>
    if c = '\'' && rest.take 2 = ['\'', '\''] then some (done.reverse, rest.drop 2)
    else if isBreak c then longLiteral? (if done.isEmpty then done else c :: done) rest
    else if isControl c && c != '\t' then none
    else longLiteral? (c :: done) rest

def string? : List Char → Option (List Char × List Char)
  | '\'' :: '\'' :: '\'' :: rest => longLiteral? [] rest
  | '\'' :: rest => literal? [] rest
  | '"' :: '"' :: '"' :: rest => longBasic? [] 0 false rest
  | '"' :: rest => basic? [] 0 rest
  | _ => none

/-- The digits of a whole number: no leading zero, and underscores only between digits. -/
def isWhole (cs : List Char) : Bool :=
  match cs with
  | [] => false
  | [c] => c.isDigit
  | c :: _ => c.isDigit && c != '0' && wellSpaced cs
where
  wellSpaced : List Char → Bool
    | [] => true
    | ['_'] => false
    | '_' :: '_' :: _ => false
    | _ :: rest => wellSpaced rest

def isNumberChar (c : Char) : Bool := c.isDigit || c = '_'

def number? (cs : List Char) : Option (Int × List Char) := do
  let (negative, cs) := match cs with
    | '-' :: rest => (true, rest)
    | '+' :: rest => (false, rest)
    | _ => (false, cs)
  let digits := cs.takeWhile isNumberChar
  guard (isWhole digits)
  let n ← Text.digitsIn? 10 (digits.filter (· != '_'))
  let value := if negative then -Int.ofNat n else Int.ofNat n
  guard (Text.Decimal.fitsInt64 value)
  pure (value, cs.dropWhile isNumberChar)

def value? (cs : List Char) : Option (Given × List Char) :=
  match cs with
  | 't' :: 'r' :: 'u' :: 'e' :: rest => some (.flag true, rest)
  | 'f' :: 'a' :: 'l' :: 's' :: 'e' :: rest => some (.flag false, rest)
  | cs =>
    match string? cs with
    | some (text, rest) => some (.text (utf8 (String.ofList text)), rest)
    | none => (number? cs).map fun (n, rest) => (.number n, rest)

/-- A key and what comes after it. -/
def key? (cs : List Char) : Option (List Char × List Char) :=
  match cs with
  | '"' :: rest => do
    let (key, rest) ← basic? [] 0 rest
    guard (!key.isEmpty)
    pure (key, rest)
  | cs =>
    let key := cs.takeWhile isBareKeyChar
    if key.isEmpty then none else some (key, cs.dropWhile isBareKeyChar)

/-- What comes after the end of a line that has nothing more than a comment, or nothing if it has
more. -/
def endOfLine? (cs : List Char) : Option (List Char) :=
  let cs := match skipBlanks cs with
    | '#' :: rest => rest.dropWhile fun c => !isControl c || c = '\t'
    | cs => cs
  match cs with
  | [] => some []
  | c :: rest => if isBreak c then some rest else none

/-- The entries of a document. -/
def entries? : Nat → List Char → Option (List (List Char × Given))
  | 0, _ => none
  | fuel + 1, cs =>
    match endOfLine? cs with
    | some [] => some []
    | some rest => entries? fuel rest
    | none => do
      let (key, rest) ← key? (skipBlanks cs)
      match skipBlanks rest with
      | '=' :: rest =>
        let (value, rest) ← value? (skipBlanks rest)
        let rest ← endOfLine? rest
        let others ← entries? fuel rest
        pure ((key, value) :: others)
      | _ => none

def setEntry? (s : Settings) (entry : List Char × Given) : Option Settings := do
  let key ← Key.ofText? (utf8 (String.ofList entry.1))
  s.set? key entry.2

/-- The settings of a document, on top of the given ones. Nothing if the document is malformed,
repeats a key, has an unknown one, or gives a value of the wrong kind. -/
def read? (s : Settings) (bs : Bytes) : Option Settings := do
  let cs := charsOf bs
  let entries ← entries? (cs.length + 1) cs
  guard (decide (entries.map Prod.fst).Nodup)
  entries.foldlM setEntry? s

end Monkey.Settings.Toml

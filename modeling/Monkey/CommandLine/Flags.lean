import Monkey.Text.Quoted

/-!
# Flags

Flags come before the other arguments. A flag has one dash or two before its name, and its value
either after an equals sign or, unless it is a switch, in the next argument. A switch alone is on.
The first argument that is no flag ends the flags, and so does a double dash, which is dropped. A
single dash is no flag.
-/

namespace Monkey.CommandLine

/-- A flag with the names it goes by, the full one first. -/
structure Flag where
  name : String
  short : Option String
  isSwitch : Bool
  usage : String
  deriving DecidableEq, Repr

namespace Flag

def names (f : Flag) : List String := f.name :: f.short.toList

def switch (name usage : String) : Flag := ⟨name, none, true, usage⟩

def valued (name usage : String) : Flag := ⟨name, none, false, usage⟩

end Flag

/-- What can be wrong with flags. -/
inductive FlagFault where
  | malformed (argument : Bytes)
  | unknown (name : Bytes)
  | lacksValue (name : String)
  | notASwitchValue (value : Bytes) (name : String)
  deriving DecidableEq, Repr

def FlagFault.message : FlagFault → Bytes
  | malformed argument => utf8 "bad flag syntax: " ++ argument
  | unknown name => utf8 "flag provided but not defined: -" ++ name
  | lacksValue name => utf8 "flag needs an argument: -" ++ utf8 name
  | notASwitchValue value name =>
    utf8 "invalid boolean value " ++ Text.quote value ++ utf8 " for -" ++ utf8 name ++
      utf8 ": parse error"

/-- What an argument is by its form. -/
inductive ArgumentForm where
  | plain
  | terminator
  | malformed
  | flag (name : Bytes) (value : Option Bytes)
  deriving DecidableEq, Repr

/-- The name of a flag, and its value if there is an equals sign. -/
def flagForm (body : Bytes) : ArgumentForm :=
  match body with
  | [] => .malformed
  | b :: _ =>
    if b = 0x2d || b = 0x3d then .malformed
    else match body.dropWhile (· != 0x3d) with
      | [] => .flag body none
      | _ :: value => .flag (body.takeWhile (· != 0x3d)) (some value)

def argumentForm : Bytes → ArgumentForm
  | 0x2d :: 0x2d :: [] => .terminator
  | 0x2d :: 0x2d :: body => flagForm body
  | 0x2d :: b :: body => flagForm (b :: body)
  | _ => .plain

/-- The spellings of a truth value. -/
def switchValue? (value : Bytes) : Option Bool :=
  if ["1", "t", "T", "true", "TRUE", "True"].any fun word => utf8 word == value then some true
  else if ["0", "f", "F", "false", "FALSE", "False"].any fun word => utf8 word == value then
    some false
  else none

/-- What a flag was set to. -/
inductive Setting where
  | switch (on : Bool)
  | value (text : Bytes)
  deriving DecidableEq, Repr

/-- Arguments after their flags have been read. -/
structure Arguments where
  /-- The names that were used with their values, newest first. -/
  set : List (String × Setting)
  rest : List Bytes
  fault : Option FlagFault
  deriving DecidableEq, Repr

namespace Arguments

/-- Looks for a flag by one of its names. -/
def flagOf? (flags : List Flag) (name : Bytes) : Option (Flag × String) :=
  flags.findSome? fun flag =>
    (flag.names.find? fun known => utf8 known == name).map fun known => (flag, known)

/-- Reads flags, after those read already. -/
def readOnto (flags : List Flag) (done : List (String × Setting)) : List Bytes → Arguments
  | [] => ⟨done, [], none⟩
  | argument :: rest =>
    match argumentForm argument with
    | .plain => ⟨done, argument :: rest, none⟩
    | .terminator => ⟨done, rest, none⟩
    | .malformed => ⟨done, rest, some (.malformed argument)⟩
    | .flag name value? =>
      match flagOf? flags name, value? with
      | none, _ => ⟨done, rest, some (.unknown name)⟩
      | some (flag, name), some value =>
        if flag.isSwitch then
          match switchValue? value with
          | some on => readOnto flags ((name, .switch on) :: done) rest
          | none => ⟨done, rest, some (.notASwitchValue value name)⟩
        else readOnto flags ((name, .value value) :: done) rest
      | some (flag, name), none =>
        if flag.isSwitch then readOnto flags ((name, .switch true) :: done) rest
        else match rest with
          | value :: rest => readOnto flags ((name, .value value) :: done) rest
          | [] => ⟨done, [], some (.lacksValue name)⟩

def read (flags : List Flag) (arguments : List Bytes) : Arguments := readOnto flags [] arguments

/-- A flag that was used under two of its names, which are given with the later one first. -/
def twice? (a : Arguments) (flags : List Flag) : Option (String × String) :=
  flags.findSome? fun flag =>
    match flag.short with
    | some short =>
      if (a.set.lookup flag.name).isSome && (a.set.lookup short).isSome then some (short, flag.name)
      else none
    | none => none

/-- What a flag was set to last. -/
def get? (a : Arguments) (flag : Flag) : Option Setting := 
  flag.names.findSome? fun name => a.set.lookup name

def text? (a : Arguments) (flag : Flag) : Option Bytes :=
  match a.get? flag with
  | some (.value text) => some text
  | _ => none

def switch? (a : Arguments) (flag : Flag) : Option Bool :=
  match a.get? flag with
  | some (.switch on) => some on
  | _ => none

def isOn (a : Arguments) (flag : Flag) : Bool := (a.switch? flag).getD false

/-- The first argument after the flags; the empty text if there is none. -/
def first (a : Arguments) : Bytes := a.rest.headD []

end Arguments

end Monkey.CommandLine

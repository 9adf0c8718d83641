import Monkey.Settings.Basic
import Monkey.Yaml.Meaning

/-!
# Settings in YAML

A document with settings is a mapping from their names to scalars. An empty document and a null set
nothing, and neither does an entry whose key or value is null. A mapping may take in others, which
set only what it does not set itself.
-/

namespace Monkey.Settings.Yaml

open Monkey.Yaml (Meaning)
open Text (Double)

/-- A key with its value. -/
abbrev Entry := Yaml.Node × Yaml.Node

/-- The words that are truth values where one is asked for, though they are texts elsewhere. -/
def flagWord? (text : Bytes) : Option Bool :=
  if ["y", "Y", "yes", "Yes", "YES", "on", "On", "ON"].any (utf8 · == text) then some true
  else if ["n", "N", "no", "No", "NO", "off", "Off", "OFF"].any (utf8 · == text) then some false
  else none

/-- The whole part of a fraction. One below the range of 64 bits stands for the least number in it,
and so does the one that lies just above. -/
def wholePart? (x : Double) : Option Int :=
  let least := Int64.minValue.toInt
  match x.truncate? with
  | some n => if -least < n then none else if n < least || n = -least then some least else some n
  | none => if x = .infinite true then some least else none

/-- The value of the given form that a scalar stands for. Nothing if there is none; null is the
empty inner option. -/
def given? (form : Form) (text : Bytes) (meaning : Meaning) : Option (Option Given) :=
  match form, meaning with
  | _, .null => some none
  | .text, .text decoded => some (some (.text decoded))
  | .text, _ => some (some (.text text))
  | .flag, .flag b => some (some (.flag b))
  | .flag, .text word => (flagWord? word).map fun b => some (.flag b)
  | .number, .whole n => if Text.Decimal.fitsInt64 n then some (some (.number n)) else none
  | .number, .fraction x => (wholePart? x).map fun n => some (.number n)
  | _, _ => none

/-- The value of a node, which must be a scalar or stand for one. -/
def value? (form : Form) : Nat → Yaml.Node → Option (Option Given)
  | 0, _ => none
  | fuel + 1, node =>
    match node with
    | .scalar tag plain text => do
      let meaning ← Meaning.ofScalar? (.ofBytes tag) plain text
      given? form (utf8 (String.ofList text)) meaning
    | .reference _ (some target) => value? form fuel target
    | _ => none

/-- Whether two keys are the same as they are written. -/
def sameKey : Yaml.Node → Yaml.Node → Bool
  | .scalar _ _ text, .scalar _ _ other => text = other
  | .reference name _, .reference other _ => name = other
  | .sequence _, .sequence _ => true
  | .mapping _, .mapping _ => true
  | _, _ => false

def hasSameKeys : List Entry → Bool
  | [] => false
  | (key, _) :: rest => rest.any (fun entry => sameKey key entry.1) || hasSameKeys rest

/-- Whether a key says that the mappings in its value are taken in. -/
def isMerge : Yaml.Node → Bool
  | .scalar tag plain text =>
    text = ['<', '<'] && (((tag = [] || tag = utf8 "!") && plain) ||
      tag = utf8 "tag:yaml.org,2002:merge" || tag = utf8 "!!merge")
  | _ => false

/-- The name that a key stands for. Null is the empty inner option. -/
def name? (key : Yaml.Node) : Option (Option Bytes) := do
  match ← value? .text 2 key with
  | some (.text name) => pure (some name)
  | _ => pure none

/-- The names of the settings that a mapping gives. -/
def names (entries : List Entry) : List Bytes :=
  entries.filterMap fun entry => (name? entry.1).join

/-- Settings as they are taken up from a mapping, with the keys that it has set and, if it is taken
in by another one, the names that are no longer open. -/
structure Uptake where
  settings : Settings
  done : List Key
  closed : Option (List Bytes)

/-- Takes up an entry. -/
def entry? (u : Uptake) (entry : Entry) : Option Uptake := do
  if isMerge entry.1 then pure u
  else match ← name? entry.1 with
    | none => pure u
    | some name =>
      if (u.closed.getD []).contains name then pure u
      else
        let u := { u with closed := u.closed.map (name :: ·) }
        let key ← Key.ofText? name
        guard (!u.done.contains key)
        let u := { u with done := key :: u.done }
        match ← value? key.form 2 entry.2 with
        | none => pure u
        | some given =>
          let settings ← u.settings.set? key given
          pure { u with settings := settings }

/-- The mappings that are taken in with the given value. -/
def merged? : Yaml.Node → Option (List Yaml.Node)
  | .mapping entries => some [.mapping entries]
  | .reference _ (some (.mapping entries)) => some [.mapping entries]
  | .sequence items => items.mapM fun
    | .mapping entries => some (.mapping entries)
    | .reference _ (some (.mapping entries)) => some (.mapping entries)
    | _ => none
  | _ => none

/-- Takes up a node, and after the entries of a mapping those that it takes in. -/
def node? : Nat → Settings → Option (List Bytes) → Yaml.Node →
    Option (Settings × Option (List Bytes))
  | 0, _, _, _ => none
  | fuel + 1, s, closed, node =>
    match node with
    | .mapping entries => do
      let u ← entries.foldlM entry? ⟨s, [], closed⟩
      guard (!hasSameKeys entries)
      match entries.find? fun entry => isMerge entry.1 with
      | none => pure (u.settings, u.closed)
      | some (_, value) =>
        let parts ← merged? value
        let start := some (u.closed.getD (names entries))
        let (s, inner) ← parts.foldlM (fun (s, c) part => node? fuel s c part) (u.settings, start)
        pure (s, if u.closed.isSome then inner else none)
    | .reference _ (some target) => node? fuel s closed target
    | node => do
      match ← value? .text 1 node with
      | none => pure (s, closed)
      | some _ => none

/-- The settings of a document, on top of the given ones. Nothing if the document is malformed,
repeats a key, has an unknown one, or gives a value of the wrong kind. -/
def read? (s : Settings) (bs : Bytes) : Option Settings := do
  match ← Yaml.Node.first? (.ofBytes bs) with
  | none => pure s
  | some node => (node? (bs.length + 1) s none node).map Prod.fst

end Monkey.Settings.Yaml

import Monkey.Files
import Monkey.Settings.Toml
import Monkey.Settings.Yaml
import Monkey.Text.LowerCase

/-!
# Loading settings

Settings are read from a file in the format that the ending of its name tells, on top of the
defaults, and are then checked.
-/

namespace Monkey.Settings

inductive LoadFault where
  | emptyPath
  | unopened (path : Bytes) (fault : Files.Fault)
  | unknownFormat (ending : Bytes)
  | malformed (path : Bytes)
  | invalid (issues : List Issue)
  deriving DecidableEq, Repr

def LoadFault.message : LoadFault → Bytes
  | emptyPath => utf8 "config: empty path"
  | unopened path fault =>
    utf8 "config: open " ++ path ++ utf8 ": " ++ fault.message "open" path
  | unknownFormat ending =>
    utf8 "config: unsupported file type " ++ Text.quote ending ++
      utf8 " (want .yaml, .yml or .toml)"
  | malformed path => utf8 "config: parse " ++ path ++ utf8 ": malformed document"
  | invalid issues => issueSummary (issues.map Issue.message)

/-- The ending of the name of a file, from its last dot on. -/
def ending (path : Bytes) : Bytes :=
  let name := (path.reverse.takeWhile (· != 0x2f))
  if name.contains 0x2e then (name.takeWhile (· != 0x2e)).reverse.cons 0x2e else []

inductive Format where
  | yaml
  | toml
  deriving DecidableEq, Repr

def Format.ofEnding? (ending : Bytes) : Option Format :=
  if ending = utf8 ".yml" || ending = utf8 ".yaml" then some .yaml
  else if ending = utf8 ".toml" then some .toml
  else none

def Format.read? : Format → Settings → Bytes → Option Settings
  | yaml => Yaml.read?
  | toml => Toml.read?

def load (find : Files.Finder) (path : Bytes) : Except LoadFault Settings :=
  if path.isEmpty then .error .emptyPath
  else match find path with
    | .error fault => .error (.unopened path fault)
    | .ok entry =>
      let ending := Text.lowerCase (ending path)
      match Format.ofEnding? ending, entry with
      | none, _ => .error (.unknownFormat ending)
      | some _, .directory => .error (.malformed path)
      | some format, .file content =>
        match format.read? defaults content with
        | none => .error (.malformed path)
        | some s => if s.issues.isEmpty then .ok s else .error (.invalid s.issues)

end Monkey.Settings

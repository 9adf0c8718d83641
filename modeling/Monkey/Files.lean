import Monkey.Bytes

/-!
# Files

A snapshot of a directory: the files in it by their paths. A path is followed part by part, so
that a file in the place of a directory, or a directory that is not there, is told apart. What
cannot be opened or read is said in the words of the operating system.

What only reads files asks a `Finder` for them, so that it does not depend on such a snapshot.
-/

namespace Monkey

structure Files where
  entries : List (Bytes × Bytes)

namespace Files

inductive Fault where
  | missing
  | notDirectory
  | isDirectory
  | nameTooLong
  | badName
  deriving DecidableEq, Repr

def Fault.text : Fault → String
  | missing => "no such file or directory"
  | notDirectory => "not a directory"
  | isDirectory => "is a directory"
  | nameTooLong => "file name too long"
  | badName => "invalid argument"

/-- What a failed operation on a path says. -/
def Fault.message (fault : Fault) (operation : String) (path : Bytes) : Bytes :=
  utf8 operation ++ utf8 " " ++ path ++ utf8 ": " ++ utf8 fault.text

inductive Entry where
  | file (content : Bytes)
  | directory

/-- The parts of a path. -/
def parts (path : Bytes) : List Bytes := path.splitOn 0x2f

/-- The entry with exactly the given parts. -/
def entryAt? (files : Files) (place : List Bytes) : Option Entry :=
  match files.entries.find? fun entry => parts entry.1 = place with
  | some (_, content) => some (.file content)
  | none =>
    if files.entries.any fun entry => place.isPrefixOf (parts entry.1) then some .directory
    else if place.isEmpty then some .directory
    else none

/-- Whether a part of a path does not name anything further in. -/
def isStep (part : Bytes) : Bool := part.isEmpty || part = utf8 "." || part = utf8 ".."

/-- Follows the parts of a path from a place. No place means a directory outside, in which nothing
is known to be. -/
def follow (files : Files) :
    Option (List Bytes) → List Bytes → Except Fault (Option (List Bytes) × Entry)
  | none, [] => .ok (none, .directory)
  | none, part :: rest => if isStep part then follow files none rest else .error .missing
  | some place, [] =>
    match files.entryAt? place with
    | some entry => .ok (some place, entry)
    | none => .error .missing
  | some place, part :: rest =>
    match files.entryAt? place with
    | none => .error .missing
    | some (.file _) => .error .notDirectory
    | some .directory =>
      if part.isEmpty || part = utf8 "." then follow files (some place) rest
      else if part = utf8 ".." then
        follow files (if place.isEmpty then none else some place.dropLast) rest
      else if 255 < part.length then .error .nameTooLong
      else follow files (some (place ++ [part])) rest

/-- Where a path starts. A path from the root leads outside. -/
def origin (path : Bytes) : Option (List Bytes) := if path.head? = some 0x2f then none else some []

/-- Follows a path to its end. -/
def locate (files : Files) (path : Bytes) : Except Fault (Option (List Bytes) × Entry) :=
  if path.contains 0 then .error .badName
  else if path.isEmpty then .error .missing
  else if 4095 < path.length then .error .nameTooLong
  else files.follow (origin path) (parts path)

/-- What is found where a path leads to. -/
abbrev Finder := Bytes → Except Fault Entry

/-- What a path leads to. -/
def find (files : Files) : Finder := fun path => (files.locate path).map Prod.snd

/-- The content of a file, or what opening or reading it says. -/
def Finder.read (find : Finder) (path : Bytes) : Except Bytes Bytes :=
  match find path with
  | .ok (.file content) => .ok content
  | .ok .directory => .error (Fault.isDirectory.message "read" path)
  | .error fault => .error (fault.message "open" path)

/-- Writes a file anew, or says why it cannot be opened for writing. Its directory has to be
there. -/
def write (files : Files) (path content : Bytes) : Except Bytes Files :=
  match files.locate path with
  | .ok (some place, .file _) =>
    .ok ⟨files.entries.map fun entry => if parts entry.1 = place then (entry.1, content) else entry⟩
  | .ok _ => .error (Fault.isDirectory.message "open" path)
  | .error fault =>
    let names := parts path
    match fault, names.getLast?, files.follow (origin path) names.dropLast with
    | .missing, some name, .ok (some place, .directory) =>
      if name.isEmpty then .error (fault.message "open" path)
      else .ok ⟨files.entries ++ [(Bytes.join (utf8 "/") (place ++ [name]), content)]⟩
    | _, _, _ => .error (fault.message "open" path)

end Files

end Monkey

/-!
# Byte strings

Source text, names, literals and everything that is printed are byte strings, because nothing
forces a source to be well-formed text: a stray byte has to survive from the input to the message
that mentions it. Fixed texts are written as string literals and encoded by `utf8`, which goes
character by character, so that a closed text reduces to its list of bytes.
-/

namespace Monkey

abbrev Bytes := List UInt8

def utf8 (s : String) : Bytes :=
  s.toList.flatMap String.utf8EncodeChar

@[simp] theorem utf8_empty : utf8 "" = [] := rfl

theorem utf8_append (s t : String) : utf8 (s ++ t) = utf8 s ++ utf8 t := by
  simp [utf8]

namespace Bytes

/-- The parts, with `sep` between each two. -/
def join (sep : Bytes) : List Bytes → Bytes
  | [] => []
  | [part] => part
  | part :: parts => part ++ sep ++ join sep parts

@[simp] theorem join_nil (sep : Bytes) : join sep [] = [] := rfl

@[simp] theorem join_singleton (sep part : Bytes) : join sep [part] = part := rfl

theorem join_cons_cons (sep part next : Bytes) (parts : List Bytes) :
    join sep (part :: next :: parts) = part ++ sep ++ join sep (next :: parts) := rfl

end Bytes

end Monkey

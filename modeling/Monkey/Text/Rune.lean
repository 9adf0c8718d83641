import Monkey.Bytes

/-!
# Runes

`Rune.decode` reads a byte string as UTF-8 and never fails: where the bytes at hand do not start
a well-formed character, the first of them is set aside as a stray byte and reading goes on with
the next one. Overlong forms, surrogates and numbers beyond the last code point are not
well-formed. The bytes of the runes, put together again, are the bytes read.
-/

namespace Monkey.Text

inductive Rune where
  | char (c : Char)
  | stray (b : UInt8)
  deriving DecidableEq, Repr

namespace Rune

def bytes : Rune → Bytes
  | char c => String.utf8EncodeChar c
  | stray b => [b]

/-- The six payload bits of a continuation byte. -/
def tail? (b : UInt8) : Option Nat :=
  if 0x80 ≤ b && b ≤ 0xbf then some (b.toNat - 0x80) else none

/-- The character of a two-byte form. -/
def pair? (b₀ b₁ : UInt8) : Option Char := do
  let t₁ ← tail? b₁
  guard (0xc2 ≤ b₀ && b₀ ≤ 0xdf)
  pure (Char.ofNat ((b₀.toNat - 0xc0) * 0x40 + t₁))

/-- The character of a three-byte form. -/
def triple? (b₀ b₁ b₂ : UInt8) : Option Char := do
  let t₁ ← tail? b₁
  let t₂ ← tail? b₂
  guard (0xe0 ≤ b₀ && b₀ ≤ 0xef)
  let n := (b₀.toNat - 0xe0) * 0x1000 + t₁ * 0x40 + t₂
  guard (0x800 ≤ n && !(0xd800 ≤ n && n ≤ 0xdfff))
  pure (Char.ofNat n)

/-- The character of a four-byte form. -/
def quad? (b₀ b₁ b₂ b₃ : UInt8) : Option Char := do
  let t₁ ← tail? b₁
  let t₂ ← tail? b₂
  let t₃ ← tail? b₃
  guard (0xf0 ≤ b₀ && b₀ ≤ 0xf4)
  let n := (b₀.toNat - 0xf0) * 0x40000 + t₁ * 0x1000 + t₂ * 0x40 + t₃
  guard (0x10000 ≤ n && n ≤ 0x10ffff)
  pure (Char.ofNat n)

/-- The rune that starts with the byte `b₀`, and how many of the bytes after it belong to it. -/
def first (b₀ : UInt8) (rest : Bytes) : Rune × Nat :=
  if b₀ < 0x80 then (char (Char.ofNat b₀.toNat), 0)
  else match rest with
    | [] => (stray b₀, 0)
    | b₁ :: r₁ => match pair? b₀ b₁ with
      | some c => (char c, 1)
      | none => match r₁ with
        | [] => (stray b₀, 0)
        | b₂ :: r₂ => match triple? b₀ b₁ b₂ with
          | some c => (char c, 2)
          | none => match r₂ with
            | [] => (stray b₀, 0)
            | b₃ :: _ => match quad? b₀ b₁ b₂ b₃ with
              | some c => (char c, 3)
              | none => (stray b₀, 0)

/-- The runes of the bytes after the next `skip`, behind those read already, which are held
newest first. -/
def decodeOnto (done : List Rune) (skip : Nat) : Bytes → List Rune
  | [] => done.reverse
  | b :: rest =>
    match skip with
    | skip + 1 => decodeOnto done skip rest
    | 0 =>
      let (rune, more) := first b rest
      decodeOnto (rune :: done) more rest

def decode (bs : Bytes) : List Rune := decodeOnto [] 0 bs

def encode (rs : List Rune) : Bytes := rs.flatMap bytes

end Rune

/-- Whether a byte string is well-formed UTF-8 throughout. -/
def isWellFormed (bs : Bytes) : Bool :=
  (Rune.decode bs).all fun
    | .char _ => true
    | .stray _ => false

end Monkey.Text

/-!
# Decoding that never fails

Bytes are read as UTF-8. Each maximal part that no well-formed sequence can
continue becomes one replacement character, so every byte string has a text.
The reader is a machine that looks at one byte at a time: it is either between
characters or waiting for the continuation bytes of one.
-/

set_option autoImplicit false

namespace KernelExam.Text

def utf8Bytes (s : String) : List UInt8 := s.toList.flatMap String.utf8EncodeChar

def replacement : Char := '\ufffd'

/-- An unfinished character: the bits read so far, the range in which the next
byte has to lie, and how many bytes are to come after that one. -/
structure Pending where
  bits : Nat
  low : Nat
  high : Nat
  after : Nat
  deriving DecidableEq, Repr

inductive Lead where
  | whole (c : Char)
  | opens (p : Pending)
  | stray
  deriving DecidableEq, Repr

/-- The bounds on the second byte keep out overlong forms, surrogates and
numbers above the last code point. -/
def lead (b : UInt8) : Lead :=
  let n := b.toNat
  if n < 0x80 then .whole (Char.ofNat n)
  else if n < 0xC2 then .stray
  else if n < 0xE0 then .opens ⟨n - 0xC0, 0x80, 0xBF, 0⟩
  else if n = 0xE0 then .opens ⟨0, 0xA0, 0xBF, 1⟩
  else if n = 0xED then .opens ⟨0xD, 0x80, 0x9F, 1⟩
  else if n < 0xF0 then .opens ⟨n - 0xE0, 0x80, 0xBF, 1⟩
  else if n = 0xF0 then .opens ⟨0, 0x90, 0xBF, 2⟩
  else if n < 0xF4 then .opens ⟨n - 0xF0, 0x80, 0xBF, 2⟩
  else if n = 0xF4 then .opens ⟨4, 0x80, 0x8F, 2⟩
  else .stray

def lossyChars : Option Pending → List UInt8 → List Char
  | none, [] => []
  | some _, [] => [replacement]
  | none, b :: bs => match lead b with
    | .whole c => c :: lossyChars none bs
    | .opens p => lossyChars (some p) bs
    | .stray => replacement :: lossyChars none bs
  | some p, b :: bs =>
    if p.low ≤ b.toNat ∧ b.toNat ≤ p.high then
      let bits := 64 * p.bits + (b.toNat - 0x80)
      match p.after with
      | 0 => Char.ofNat bits :: lossyChars none bs
      | n + 1 => lossyChars (some ⟨bits, 0x80, 0xBF, n⟩) bs
    else replacement :: match lead b with
      | .whole c => c :: lossyChars none bs
      | .opens q => lossyChars (some q) bs
      | .stray => replacement :: lossyChars none bs

def lossy (bs : List UInt8) : String := String.ofList (lossyChars none bs)

end KernelExam.Text

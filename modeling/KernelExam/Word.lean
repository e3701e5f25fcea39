import KernelExam.Fault

/-!
# Words and bytes

A mailbox carries 32-bit words, a file carries bytes. Text travels through the
mailbox four bytes to a word, the lowest byte first, and ends at its first zero
byte.
-/

set_option autoImplicit false

namespace KernelExam

abbrev Word := Int32
abbrev Bytes := List UInt8

def overlay (src dst : Bytes) : Bytes := src.take dst.length ++ dst.drop src.length

def bytesOfWord (w : Word) : Bytes :=
  let n := w.toUInt32.toNat
  [UInt8.ofNat n, UInt8.ofNat (n / 256), UInt8.ofNat (n / 65536), UInt8.ofNat (n / 16777216)]

def wordOfBytes (a b c d : UInt8) : Word :=
  Int32.ofNat (a.toNat + 256 * b.toNat + 65536 * c.toNat + 16777216 * d.toNat)

def firstWord (bs : Bytes) : Word :=
  wordOfBytes (bs.getD 0 0) (bs.getD 1 0) (bs.getD 2 0) (bs.getD 3 0)

/-- That many words holding the bytes in order, with zeros after the last byte. -/
def packWords : Nat → Bytes → List Word
  | 0, _ => []
  | n + 1, bs => firstWord bs :: packWords n (bs.drop 4)

/-- The bytes in exactly `words` words; refused when no room is left for the
zero byte that ends them. -/
def pack (bs : Bytes) (words : Nat) : Option (List Word) :=
  if bs.length < 4 * words then some (packWords words bs) else none

def bufferLimit : Nat := 9223372036854775808

/-- Whether the bytes in `words` words can be counted in 64 bits and held in a buffer. -/
def checkRoom (words : Nat) : Except Fault Unit :=
  if 2 * bufferLimit ≤ 4 * words then .error .multiplyOverflow
  else if bufferLimit ≤ 4 * words then .error .capacityOverflow
  else .ok ()

def packChecked (bs : Bytes) (words : Nat) : Except Fault (Option (List Word)) :=
  (checkRoom words).map fun _ => pack bs words

/-- The bytes of the words over the front of `dst`, cut off where `dst` ends. -/
def unpack (ws : List Word) (dst : Bytes) : Bytes := overlay (ws.flatMap bytesOfWord) dst

def untilNul (bs : Bytes) : Bytes := bs.takeWhile (· ≠ 0)

def zeros (n : Nat) : Bytes := List.replicate n 0

theorem length_bytesOfWord (w : Word) : (bytesOfWord w).length = 4 := rfl

theorem firstWord_bytesOfWord (w : Word) : firstWord (bytesOfWord w) = w := by
  have h := w.toUInt32.toNat_lt
  have e : Int32.ofNat w.toUInt32.toNat = w := by
    apply Int32.toBitVec_inj.1
    simp
  simp only [firstWord, bytesOfWord, wordOfBytes, List.getD_cons_zero, List.getD_cons_succ,
    UInt8.toNat_ofNat']
  rw [show w.toUInt32.toNat % 2 ^ 8 + 256 * (w.toUInt32.toNat / 256 % 2 ^ 8)
    + 65536 * (w.toUInt32.toNat / 65536 % 2 ^ 8)
    + 16777216 * (w.toUInt32.toNat / 16777216 % 2 ^ 8) = w.toUInt32.toNat by omega, e]

theorem bytesOfWord_wordOfBytes (a b c d : UInt8) :
    bytesOfWord (wordOfBytes a b c d) = [a, b, c, d] := by
  have ha := a.toNat_lt
  have hb := b.toNat_lt
  have hc := c.toNat_lt
  have hd := d.toNat_lt
  have e : (wordOfBytes a b c d).toUInt32.toNat
      = a.toNat + 256 * b.toNat + 65536 * c.toNat + 16777216 * d.toNat := by
    simp only [wordOfBytes]
    rw [Int32.toUInt32_ofNat']
    simp only [UInt32.toNat_ofNat']
    omega
  simp only [bytesOfWord, e, List.cons.injEq, and_true]
  refine ⟨?_, ?_, ?_, ?_⟩ <;> apply UInt8.toNat_inj.1 <;> simp only [UInt8.toNat_ofNat'] <;> omega

theorem length_packWords (n : Nat) (bs : Bytes) : (packWords n bs).length = n := by
  induction n generalizing bs with
  | zero => rfl
  | succ n ih => simp [packWords, ih]

theorem length_overlay (src dst : Bytes) : (overlay src dst).length = dst.length := by
  simp only [overlay, List.length_append, List.length_take, List.length_drop]
  omega

end KernelExam

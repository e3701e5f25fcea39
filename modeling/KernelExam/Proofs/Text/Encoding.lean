import KernelExam.Text.Lossy
import KernelExam.Word
import Mathlib.Data.List.TakeWhile

/-!
# Text and its bytes

Decoding undoes encoding: of the bytes of a text nothing is lost. The encoding of a
character is followed through the decoder byte by byte, one case for each length that it
can have. A zero byte stands for the zero character and for nothing else.
-/

set_option autoImplicit false

namespace KernelExam

def beforeNul (s : String) : String := String.ofList (s.toList.takeWhile (· ≠ '\x00'))

namespace Text

section Decoder

variable {b : UInt8} {bs : List UInt8} {p : Pending}

theorem lossyChars_whole {c : Char} (h : lead b = .whole c) :
    lossyChars none (b :: bs) = c :: lossyChars none bs := by
  rw [lossyChars, h]

theorem lossyChars_opens (h : lead b = .opens p) :
    lossyChars none (b :: bs) = lossyChars (some p) bs := by
  rw [lossyChars, h]

theorem lossyChars_last {bits low high : Nat} (hlow : low ≤ b.toNat) (hhigh : b.toNat ≤ high) :
    lossyChars (some ⟨bits, low, high, 0⟩) (b :: bs) =
      Char.ofNat (64 * bits + (b.toNat - 0x80)) :: lossyChars none bs := by
  rw [lossyChars, if_pos ⟨hlow, hhigh⟩]

theorem lossyChars_more {bits low high n : Nat} (hlow : low ≤ b.toNat) (hhigh : b.toNat ≤ high) :
    lossyChars (some ⟨bits, low, high, n + 1⟩) (b :: bs) =
      lossyChars (some ⟨64 * bits + (b.toNat - 0x80), 0x80, 0xBF, n⟩) bs := by
  rw [lossyChars, if_pos ⟨hlow, hhigh⟩]

end Decoder

theorem toNat_ofNat {n : Nat} (h : n < 256) : (UInt8.ofNat n).toNat = n := by
  rw [UInt8.toNat_ofNat']
  exact Nat.mod_eq_of_lt h

theorem lead_one {v : Nat} (h : v ≤ 0x7f) : lead (UInt8.ofNat v) = .whole (Char.ofNat v) := by
  rw [lead, toNat_ofNat (by omega)]
  exact if_pos (by omega)

theorem lead_two {v : Nat} (hlow : 0x7f < v) (hhigh : v ≤ 0x7ff) :
    lead (UInt8.ofNat (v / 64 % 0x20 + 0xc0)) = .opens ⟨v / 64, 0x80, 0xBF, 0⟩ := by
  have hn : v / 64 % 0x20 + 0xc0 = v / 64 + 0xc0 := by omega
  rw [lead, toNat_ofNat (by omega), hn]
  rw [if_neg (by omega), if_neg (by omega), if_pos (by omega), Nat.add_sub_cancel]

theorem lead_three {v : Nat} (hlow : 0x7ff < v) (hhigh : v ≤ 0xffff)
    (hvalid : v < 0xd800 ∨ 0xdfff < v) :
    ∃ low high, lead (UInt8.ofNat (v / 4096 % 0x10 + 0xe0)) = .opens ⟨v / 4096, low, high, 1⟩ ∧
      low ≤ v / 64 % 0x40 + 0x80 ∧ v / 64 % 0x40 + 0x80 ≤ high := by
  have hn : v / 4096 % 0x10 + 0xe0 = v / 4096 + 0xe0 := by omega
  rw [lead, toNat_ofNat (by omega), hn]
  rw [if_neg (by omega), if_neg (by omega), if_neg (by omega)]
  by_cases hfirst : v / 4096 = 0
  · rw [if_pos (by omega), hfirst]
    exact ⟨_, _, rfl, by omega, by omega⟩
  · rw [if_neg (by omega)]
    by_cases hsurrogate : v / 4096 = 13
    · rw [if_pos (by omega), hsurrogate]
      exact ⟨_, _, rfl, by omega, by omega⟩
    · rw [if_neg (by omega), if_pos (by omega), Nat.add_sub_cancel]
      exact ⟨_, _, rfl, by omega, by omega⟩

theorem lead_four {v : Nat} (hlow : 0xffff < v) (hhigh : v < 0x110000) :
    ∃ low high, lead (UInt8.ofNat (v / 262144 % 0x08 + 0xf0)) =
        .opens ⟨v / 262144, low, high, 2⟩ ∧
      low ≤ v / 4096 % 0x40 + 0x80 ∧ v / 4096 % 0x40 + 0x80 ≤ high := by
  have hn : v / 262144 % 0x08 + 0xf0 = v / 262144 + 0xf0 := by omega
  rw [lead, toNat_ofNat (by omega), hn]
  rw [if_neg (by omega), if_neg (by omega), if_neg (by omega), if_neg (by omega),
    if_neg (by omega), if_neg (by omega)]
  by_cases hfirst : v / 262144 = 0
  · rw [if_pos (by omega), hfirst]
    exact ⟨_, _, rfl, by omega, by omega⟩
  · rw [if_neg (by omega)]
    by_cases hlast : v / 262144 = 4
    · rw [if_neg (by omega), if_pos (by omega), hlast]
      exact ⟨_, _, rfl, by omega, by omega⟩
    · rw [if_pos (by omega), Nat.add_sub_cancel]
      exact ⟨_, _, rfl, by omega, by omega⟩

theorem toNat_tail (n : Nat) : (UInt8.ofNat (n % 0x40 + 0x80)).toNat = n % 0x40 + 0x80 :=
  toNat_ofNat (by omega)

def codeBytes (v : Nat) : List UInt8 :=
  if v ≤ 0x7f then [UInt8.ofNat v]
  else if v ≤ 0x7ff then [UInt8.ofNat (v / 64 % 0x20 + 0xc0), UInt8.ofNat (v % 0x40 + 0x80)]
  else if v ≤ 0xffff then [UInt8.ofNat (v / 4096 % 0x10 + 0xe0),
    UInt8.ofNat (v / 64 % 0x40 + 0x80), UInt8.ofNat (v % 0x40 + 0x80)]
  else [UInt8.ofNat (v / 262144 % 0x08 + 0xf0), UInt8.ofNat (v / 4096 % 0x40 + 0x80),
    UInt8.ofNat (v / 64 % 0x40 + 0x80), UInt8.ofNat (v % 0x40 + 0x80)]

theorem utf8EncodeChar_eq (c : Char) : String.utf8EncodeChar c = codeBytes c.toNat := rfl

/-- The bytes of a character are decoded to it, whatever comes after them. -/
theorem lossyChars_encode (c : Char) (rest : List UInt8) :
    lossyChars none (String.utf8EncodeChar c ++ rest) = c :: lossyChars none rest := by
  have hvalid : c.toNat < 0xd800 ∨ 0xdfff < c.toNat ∧ c.toNat < 0x110000 := c.valid
  have hc : Char.ofNat c.toNat = c := Char.ofNat_toNat c
  rw [utf8EncodeChar_eq, codeBytes]
  generalize c.toNat = v at hvalid hc
  by_cases hone : v ≤ 0x7f
  · rw [if_pos hone, List.singleton_append, lossyChars_whole (lead_one hone), hc]
  rw [if_neg hone]
  by_cases htwo : v ≤ 0x7ff
  · have hlast := toNat_tail v
    rw [if_pos htwo, List.cons_append, lossyChars_opens (lead_two (by omega) htwo),
      List.singleton_append, lossyChars_last (by omega) (by omega), hlast,
      show 64 * (v / 64) + (v % 0x40 + 0x80 - 0x80) = v by omega, hc]
  rw [if_neg htwo]
  by_cases hthree : v ≤ 0xffff
  · obtain ⟨low, high, hlead, hlow, hhigh⟩ := lead_three (by omega) hthree (by omega)
    have hsecond := toNat_tail (v / 64)
    have hlast := toNat_tail v
    rw [if_pos hthree, List.cons_append, lossyChars_opens hlead, List.cons_append,
      lossyChars_more (by omega) (by omega), List.singleton_append,
      lossyChars_last (by omega) (by omega), hsecond, hlast,
      show 64 * (64 * (v / 4096) + (v / 64 % 0x40 + 0x80 - 0x80)) + (v % 0x40 + 0x80 - 0x80) = v
        by omega, hc]
  · obtain ⟨low, high, hlead, hlow, hhigh⟩ := lead_four (v := v) (by omega) (by omega)
    have hsecond := toNat_tail (v / 4096)
    have hthird := toNat_tail (v / 64)
    have hlast := toNat_tail v
    rw [if_neg hthree, List.cons_append, lossyChars_opens hlead, List.cons_append,
      lossyChars_more (by omega) (by omega), List.cons_append,
      lossyChars_more (by omega) (by omega), List.singleton_append,
      lossyChars_last (by omega) (by omega), hsecond, hthird, hlast,
      show 64 * (64 * (64 * (v / 262144) + (v / 4096 % 0x40 + 0x80 - 0x80)) +
        (v / 64 % 0x40 + 0x80 - 0x80)) + (v % 0x40 + 0x80 - 0x80) = v by omega, hc]

theorem lossyChars_flatMap (cs : List Char) :
    lossyChars none (cs.flatMap String.utf8EncodeChar) = cs := by
  induction cs with
  | nil => rfl
  | cons c cs ih => rw [List.flatMap_cons, lossyChars_encode, ih]

/-- Decoding the bytes of a text gives it back. -/
theorem lossy_utf8Bytes (s : String) : lossy (utf8Bytes s) = s := by
  rw [lossy, utf8Bytes, lossyChars_flatMap, String.ofList_toList]

theorem ofNat_ne_zero {n : Nat} (hpos : 0 < n) (hn : n < 256) : UInt8.ofNat n ≠ 0 := by
  intro he
  have ht := congrArg UInt8.toNat he
  rw [toNat_ofNat hn] at ht
  exact absurd ht (Nat.ne_of_gt hpos)

theorem encode_nul : String.utf8EncodeChar '\x00' = [0] := rfl

theorem ne_zero_of_mem_encode {c : Char} (hc : c ≠ '\x00') :
    ∀ b ∈ String.utf8EncodeChar c, b ≠ 0 := by
  have hpos : 0 < c.toNat := by
    refine Nat.pos_of_ne_zero fun hzero => hc ?_
    rw [← Char.ofNat_toNat c, hzero]
  rw [utf8EncodeChar_eq, codeBytes]
  have htail : ∀ n, ∀ b ∈ [UInt8.ofNat (n % 0x40 + 0x80)], b ≠ 0 :=
    fun n => List.forall_mem_singleton.mpr (ofNat_ne_zero (by omega) (by omega))
  split
  · exact List.forall_mem_singleton.mpr (ofNat_ne_zero hpos (by omega))
  split
  · exact List.forall_mem_cons.mpr ⟨ofNat_ne_zero (by omega) (by omega), htail _⟩
  have hmore : ∀ n, UInt8.ofNat (n % 0x40 + 0x80) ≠ 0 :=
    fun n => ofNat_ne_zero (by omega) (by omega)
  split
  · refine List.forall_mem_cons.mpr ⟨ofNat_ne_zero (by omega) (by omega), ?_⟩
    exact List.forall_mem_cons.mpr ⟨hmore _, htail _⟩
  · refine List.forall_mem_cons.mpr ⟨ofNat_ne_zero (by omega) (by omega), ?_⟩
    refine List.forall_mem_cons.mpr ⟨hmore _, ?_⟩
    exact List.forall_mem_cons.mpr ⟨hmore _, htail _⟩

theorem untilNul_encode (c : Char) (rest : Bytes) :
    untilNul (String.utf8EncodeChar c ++ rest) =
      if c = '\x00' then [] else String.utf8EncodeChar c ++ untilNul rest := by
  split
  · rename_i hc
    rw [hc, encode_nul]
    rfl
  · rename_i hc
    refine List.takeWhile_append_of_pos fun b hb => ?_
    exact decide_eq_true (ne_zero_of_mem_encode hc b hb)

theorem untilNul_utf8Bytes (s : String) : untilNul (utf8Bytes s) = utf8Bytes (beforeNul s) := by
  rw [beforeNul, utf8Bytes, utf8Bytes, String.toList_ofList]
  induction s.toList with
  | nil => rfl
  | cons c cs ih =>
    rw [List.flatMap_cons, untilNul_encode, List.takeWhile_cons, ih]
    by_cases hc : c = '\x00'
    · simp [hc]
    · simp [hc]

theorem zero_mem_utf8Bytes (s : String) : 0 ∈ utf8Bytes s ↔ '\x00' ∈ s.toList := by
  rw [utf8Bytes, List.mem_flatMap]
  constructor
  · rintro ⟨c, hc, hzero⟩
    by_cases he : c = '\x00'
    · exact he ▸ hc
    · exact absurd rfl (ne_zero_of_mem_encode he 0 hzero)
  · intro hc
    exact ⟨_, hc, by rw [encode_nul]; exact List.mem_singleton_self 0⟩

theorem beforeNul_of_not_mem {s : String} (h : '\x00' ∉ s.toList) : beforeNul s = s := by
  rw [beforeNul, List.takeWhile_eq_self_iff.mpr, String.ofList_toList]
  intro c hc
  exact decide_eq_true fun he => h (he ▸ hc)

end Text

end KernelExam

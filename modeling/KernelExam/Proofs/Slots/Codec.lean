import KernelExam.Proofs.FileSystem.Replay
import KernelExam.Proofs.Slots.Reading
import Mathlib.Data.List.Basic

/-!
# Words and back

Packed bytes come out of their words as they went in, with zeros up to the end of the last
word, whatever lies in the buffer that they are unpacked into and wherever it ends. Words
whose last byte is zero come out of their bytes as they went in.
-/

set_option autoImplicit false

namespace KernelExam

theorem packWords_append_zeros (n : Nat) (bs : Bytes) (k : Nat) :
    packWords n (bs ++ zeros k) = packWords n bs := by
  induction n generalizing bs k with
  | zero => rfl
  | succ n ih =>
    have hword : firstWord (bs ++ zeros k) = firstWord bs := by
      simp only [firstWord, getD_append_zeros]
    have hrest : (bs ++ zeros k).drop 4 = bs.drop 4 ++ zeros (k - (4 - bs.length)) := by
      rw [List.drop_append, zeros, List.drop_replicate]
      rfl
    rw [packWords, packWords, hword, hrest, ih]

theorem packWords_flatMap (ws : List Word) :
    packWords ws.length (ws.flatMap bytesOfWord) = ws := by
  induction ws with
  | nil => rfl
  | cons w ws ih =>
    have hword : firstWord (bytesOfWord w ++ ws.flatMap bytesOfWord) = w :=
      firstWord_bytesOfWord w
    have hrest : (bytesOfWord w ++ ws.flatMap bytesOfWord).drop 4 = ws.flatMap bytesOfWord := rfl
    rw [List.length_cons, List.flatMap_cons, packWords, hword, hrest, ih]

theorem getElem?_overlay_front {src dst : Bytes} {i : Nat} (hdst : i < dst.length)
    (hsrc : i < src.length) : (overlay src dst)[i]? = src[i]? := by
  have htake : i < (src.take dst.length).length := by
    rw [List.length_take]
    omega
  rw [overlay, List.getElem?_append_left htake, List.getElem?_take_of_lt hdst]

theorem getElem?_overlay_behind {src dst : Bytes} {i : Nat} (hsrc : src.length ≤ i) :
    (overlay src dst)[i]? = dst[i]? := by
  rcases Nat.lt_or_ge i dst.length with hi | hi
  · have htake : (src.take dst.length).length = src.length := by
      rw [List.length_take]
      omega
    rw [overlay, List.getElem?_append_right (by omega), htake, List.getElem?_drop]
    congr 1
    omega
  · have hlength : (overlay src dst).length ≤ i := by
      rw [length_overlay]
      exact hi
    rw [List.getElem?_eq_none hlength, List.getElem?_eq_none hi]

/-- `result` is `dst` with that many words of the bytes over its front. -/
structure Laid (bs : Bytes) (words : Nat) (dst result : Bytes) : Prop where
  length : result.length = dst.length
  front : ∀ i, i < dst.length → i < 4 * words → result[i]? = some (bs.getD i 0)
  behind : ∀ i, 4 * words ≤ i → result[i]? = dst[i]?
  text : 4 * words ≤ dst.length → untilNul result = untilNul bs

theorem laid_of_pack {bs : Bytes} {words : Nat} {ws : List Word} (h : pack bs words = some ws)
    (dst : Bytes) : Laid bs words dst (unpack ws dst) := by
  rw [pack] at h
  split at h
  case isFalse => cases h
  case isTrue hroom =>
    cases h
    have hbytes : (packWords words bs).flatMap bytesOfWord =
        bs ++ zeros (4 * words - bs.length) := flatMap_packWords words bs (Nat.le_of_lt hroom)
    have hlength : (bs ++ zeros (4 * words - bs.length)).length = 4 * words := by
      rw [List.length_append, zeros, List.length_replicate]
      omega
    rw [unpack, hbytes]
    constructor
    case length => exact length_overlay _ _
    case front =>
      intro i hdst hi
      rw [getElem?_overlay_front hdst (by omega), ← getD_append_zeros bs (4 * words - bs.length),
        List.getD_eq_getElem?_getD, List.getElem?_eq_getElem (by omega), Option.getD_some]
    case behind =>
      intro i hi
      exact getElem?_overlay_behind (by omega)
    case text =>
      intro hdst
      obtain ⟨k, hk⟩ : ∃ k, 4 * words - bs.length = k + 1 :=
        Nat.exists_eq_succ_of_ne_zero (by omega)
      rw [overlay, List.take_of_length_le (by omega), hk, untilNul_append_zeros]

/-- What becomes of bytes that are packed into that many words. -/
structure Carried (bs : Bytes) (words : Nat) : Prop where
  /-- Looking at the room first changes nothing as long as no count overflows. -/
  checked : packChecked bs words = .ok (pack bs words) ↔ 4 * words < bufferLimit
  refused : pack bs words = none ↔ 4 * words ≤ bs.length
  unpacked : ∀ ws, pack bs words = some ws →
    ws.length = words ∧ ∀ dst, Laid bs words dst (unpack ws dst)

theorem packChecked_eq_ok_iff (bs : Bytes) (words : Nat) :
    packChecked bs words = .ok (pack bs words) ↔ 4 * words < bufferLimit := by
  rcases Nat.lt_or_ge (4 * words) bufferLimit with hroom | hover
  · rw [packChecked, Referee.checkRoom_ok hroom]
    exact iff_of_true rfl hroom
  · apply iff_of_false _ (Nat.not_lt.mpr hover)
    intro h
    rw [packChecked, checkRoom, if_pos hover] at h
    split at h
    · cases h
    · cases h

theorem pack_eq_none_iff (bs : Bytes) (words : Nat) :
    pack bs words = none ↔ 4 * words ≤ bs.length := by
  simp only [pack, ite_eq_right_iff, reduceCtorEq, imp_false, Nat.not_lt]

theorem carried (bs : Bytes) (words : Nat) : Carried bs words := by
  constructor
  case checked => exact packChecked_eq_ok_iff bs words
  case refused => exact pack_eq_none_iff bs words
  case unpacked =>
    intro ws h
    refine ⟨?_, laid_of_pack h⟩
    rw [pack] at h
    split at h
    · cases h
      exact length_packWords words bs
    · cases h

theorem take_unpack {ws : List Word} {dst : Bytes} {n : Nat} (hws : n ≤ 4 * ws.length)
    (hdst : n ≤ dst.length) : (unpack ws dst).take n = (ws.flatMap bytesOfWord).take n := by
  have hlength : n ≤ ((ws.flatMap bytesOfWord).take dst.length).length := by
    rw [List.length_take, Session.length_flatMap_bytesOfWord]
    omega
  rw [unpack, overlay, List.take_append_of_le_length hlength, List.take_take, Nat.min_eq_left hdst]

theorem pack_take_unpack {ws : List Word} (hlast : (ws.flatMap bytesOfWord).getLast? = some 0)
    {dst : Bytes} (hdst : 4 * ws.length - 1 ≤ dst.length) :
    pack ((unpack ws dst).take (4 * ws.length - 1)) ws.length = some ws := by
  have hlength := Session.length_flatMap_bytesOfWord ws
  have hpos : 0 < 4 * ws.length := by
    rw [← hlength]
    exact List.length_pos_iff.mpr (List.ne_nil_of_mem (List.mem_of_getLast? hlast))
  have hbytes : (ws.flatMap bytesOfWord).take (4 * ws.length - 1) ++ zeros 1 =
      ws.flatMap bytesOfWord := by
    rw [← hlength, ← List.dropLast_eq_take]
    exact List.dropLast_append_getLast? 0 hlast
  have hfits : ((ws.flatMap bytesOfWord).take (4 * ws.length - 1)).length < 4 * ws.length := by
    rw [List.length_take]
    omega
  rw [take_unpack (Nat.sub_le _ _) hdst, pack, if_pos hfits, ← packWords_append_zeros _ _ 1, hbytes,
    packWords_flatMap]

/-- Bytes come back out of the words that they were packed into, and words whose last byte
is zero are packed again from the bytes that come out of them. -/
theorem words_carry_bytes (words : Nat) :
    (∀ bs, Carried bs words) ∧
    ∀ ws : List Word, ws.length = words → (ws.flatMap bytesOfWord).getLast? = some 0 →
      ∀ dst : Bytes, 4 * words - 1 ≤ dst.length →
        pack ((unpack ws dst).take (4 * words - 1)) words = some ws := by
  constructor
  · intro bs
    exact carried bs words
  · intro ws hws hlast dst hdst
    rw [← hws] at hdst ⊢
    exact pack_take_unpack hlast hdst

theorem words_carry_bytes_negative :
    pack ((unpack [-1, 16777215] (zeros 7)).take 7) 2 = some [-1, 16777215] :=
  (words_carry_bytes 2).2 [-1, 16777215] rfl (by decide) (zeros 7) (by decide)

end KernelExam

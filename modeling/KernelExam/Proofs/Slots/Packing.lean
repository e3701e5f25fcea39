import KernelExam.Proofs.Text.Encoding
import KernelExam.Referee

/-!
# Text in slots

Packed bytes come back from the slots with zeros after them, so a text that leaves room
for its final zero is read back up to its first zero character, from as many slots as it
was given or from more. Only the slots of the text change.
-/

set_option autoImplicit false

namespace KernelExam

theorem toInt_succ (n : Word) (h : n ≠ Int32.maxValue) : (n + 1).toInt = n.toInt + 1 := by
  have hlow := n.le_toInt
  have hhigh := n.toInt_lt
  have hmax : n.toInt ≠ 2147483647 := fun he => h (Int32.toInt_inj.mp he)
  rw [Int32.toInt_add, show (1 : Int32).toInt = 1 from rfl]
  exact Int.bmod_eq_of_le (by omega) (by omega)

theorem add_one_add_ofNat (i : Word) (k : Nat) :
    i + 1 + Int32.ofNat k = i + Int32.ofNat (k + 1) := by
  rw [Int32.ofNat_add, Int32.add_assoc, Int32.add_comm 1]
  rfl

theorem ne_add_ofNat (i : Word) {k : Nat} (hpos : 0 < k) (hk : k < 4294967296) :
    i ≠ i + Int32.ofNat k := by
  intro he
  have hzero : Int32.ofNat k = 0 := by
    rw [← Int32.add_right_inj i, ← he, Int32.add_zero]
  have hbits := congrArg (fun w : Word => w.toUInt32.toNat) hzero
  rw [Int32.toUInt32_ofNat', UInt32.toNat_ofNat', Nat.mod_eq_of_lt (by omega)] at hbits
  exact absurd hbits (Nat.ne_of_gt hpos)

theorem eq_maxValue {i : Word} (h : 2147483647 ≤ i.toInt) : i = Int32.maxValue := by
  have hlt := i.toInt_lt
  have hmax : i.toInt = 2147483647 := by omega
  exact Int32.toInt_inj.mp hmax

theorem ne_maxValue {i : Word} (h : i.toInt < 2147483647) : i ≠ Int32.maxValue := by
  rintro rfl
  exact absurd h (by decide)

theorem zeros_add (n k : Nat) : zeros (n + k) = zeros n ++ zeros k :=
  List.replicate_append_replicate.symm

theorem first_append_drop (bs : Bytes) :
    [bs.getD 0 0, bs.getD 1 0, bs.getD 2 0, bs.getD 3 0] ++ bs.drop 4 =
      bs ++ zeros (4 - bs.length) := by
  match bs with
  | [] => rfl
  | [_] => rfl
  | [_, _] => rfl
  | [_, _, _] => rfl
  | _ :: _ :: _ :: _ :: rest => simp [zeros]

theorem flatMap_packWords (n : Nat) (bs : Bytes) (h : bs.length ≤ 4 * n) :
    (packWords n bs).flatMap bytesOfWord = bs ++ zeros (4 * n - bs.length) := by
  induction n generalizing bs with
  | zero =>
    obtain rfl := List.eq_nil_of_length_eq_zero (Nat.le_zero.mp h)
    rfl
  | succ n ih =>
    have hdrop : (bs.drop 4).length = bs.length - 4 := List.length_drop
    rw [packWords, List.flatMap_cons, firstWord, bytesOfWord_wordOfBytes, ih _ (by omega),
      ← List.append_assoc, first_append_drop, List.append_assoc, ← zeros_add, hdrop,
      show 4 - bs.length + (4 * n - (bs.length - 4)) = 4 * (n + 1) - bs.length by omega]

theorem untilNul_append_zeros (bs more : Bytes) (n : Nat) :
    untilNul (bs ++ zeros (n + 1) ++ more) = untilNul bs := by
  induction bs with
  | nil => rfl
  | cons b bs ih =>
    rw [List.cons_append, List.cons_append, untilNul, untilNul, List.takeWhile_cons,
      List.takeWhile_cons]
    split
    · exact congrArg _ ih
    · rfl

namespace Referee

variable (r : Referee)

theorem loadRun_add (i : Word) (n k : Nat) :
    r.loadRun i (n + k) = r.loadRun i n ++ r.loadRun (i + Int32.ofNat n) k := by
  induction n generalizing i with
  | zero =>
    rw [Nat.zero_add, loadRun, List.nil_append, show Int32.ofNat 0 = 0 from rfl, Int32.add_zero]
  | succ n ih =>
    rw [Nat.succ_add, loadRun, loadRun, ih, add_one_add_ofNat, List.cons_append]

theorem length_loadRun (i : Word) (n : Nat) : (r.loadRun i n).length = n := by
  induction n generalizing i with
  | zero => rfl
  | succ n ih => rw [loadRun, List.length_cons, ih]

theorem loadRun_congr {r r' : Referee} (i : Word) (n : Nat)
    (h : ∀ k < n, r'.load (i + Int32.ofNat k) = r.load (i + Int32.ofNat k)) :
    r'.loadRun i n = r.loadRun i n := by
  induction n generalizing i with
  | zero => rfl
  | succ n ih =>
    have hfirst := h 0 (Nat.succ_pos n)
    rw [show Int32.ofNat 0 = 0 from rfl, Int32.add_zero] at hfirst
    have hrest : ∀ k < n, r'.load (i + 1 + Int32.ofNat k) = r.load (i + 1 + Int32.ofNat k) := by
      intro k hk
      rw [add_one_add_ofNat]
      exact h (k + 1) (Nat.succ_lt_succ hk)
    rw [loadRun, loadRun, hfirst, ih (i + 1) hrest]

theorem storeRun_ok (i : Word) (ws : List Word) (h : i.toInt + ws.length < 2147483647) :
    (r.storeRun i ws).2 = .ok () := by
  induction ws generalizing r i with
  | nil =>
    have hlast : i ≠ Int32.maxValue := ne_maxValue (by simpa using h)
    rw [storeRun, if_neg hlast]
  | cons w ws ih =>
    rw [List.length_cons] at h
    have hlast : i ≠ Int32.maxValue := ne_maxValue (by omega)
    rw [storeRun, if_neg hlast]
    exact ih _ _ (by rw [toInt_succ i hlast]; omega)

/-- The number after the last slot has to be a word. -/
theorem storeRun_overflow (i : Word) (ws : List Word) (h : 2147483647 ≤ i.toInt + ws.length) :
    (r.storeRun i ws).2 = .error .addOverflow := by
  induction ws generalizing r i with
  | nil => rw [storeRun, if_pos (eq_maxValue (by simpa using h))]
  | cons w ws ih =>
    rw [List.length_cons] at h
    by_cases hlast : i = Int32.maxValue
    · rw [storeRun, if_pos hlast]
    · rw [storeRun, if_neg hlast]
      exact ih _ _ (by rw [toInt_succ i hlast]; omega)

theorem load_storeRun (i j : Word) (ws : List Word)
    (h : ∀ k < ws.length, j ≠ i + Int32.ofNat k) :
    (r.storeRun i ws).1.load j = r.load j := by
  induction ws generalizing r i with
  | nil =>
    rw [storeRun]
    split <;> rfl
  | cons w ws ih =>
    rw [storeRun]
    split
    · rfl
    · have hfirst := h 0 (Nat.succ_pos _)
      rw [show Int32.ofNat 0 = 0 from rfl, Int32.add_zero] at hfirst
      have hrest : ∀ k < ws.length, j ≠ i + 1 + Int32.ofNat k := by
        intro k hk
        rw [add_one_add_ofNat]
        exact h (k + 1) (Nat.succ_lt_succ hk)
      exact (ih _ _ hrest).trans (if_neg hfirst)

theorem loadRun_storeRun (i : Word) (ws : List Word) (h : i.toInt + ws.length < 2147483647) :
    (r.storeRun i ws).1.loadRun i ws.length = ws := by
  induction ws generalizing r i with
  | nil => rfl
  | cons w ws ih =>
    rw [List.length_cons] at h
    have hlow := Int32.le_toInt i
    have hlast : i ≠ Int32.maxValue := ne_maxValue (by omega)
    have hkept : ∀ k < ws.length, i ≠ i + 1 + Int32.ofNat k := by
      intro k hk
      rw [add_one_add_ofNat]
      exact ne_add_ofNat i (Nat.succ_pos k) (by omega)
    rw [storeRun, if_neg hlast, List.length_cons, loadRun, load_storeRun _ _ _ _ hkept, load_store,
      if_pos rfl, ih _ _ (by rw [toInt_succ i hlast]; omega)]

theorem storeRun_eq (i : Word) (ws : List Word) :
    ∃ slots, (r.storeRun i ws).1 = { r with slots } := by
  induction ws generalizing r i with
  | nil =>
    rw [storeRun]
    split <;> exact ⟨r.slots, rfl⟩
  | cons w ws ih =>
    rw [storeRun]
    split
    · exact ⟨r.slots, rfl⟩
    · obtain ⟨slots, h⟩ := ih (r.store i w) (i + 1)
      exact ⟨slots, h⟩

theorem setText_eq (slot : Slot) (s : String) (words : Nat) :
    ∃ slots, (r.setText slot s words).1 = { r with slots } := by
  rw [setText]
  split
  · exact ⟨r.slots, rfl⟩
  · exact ⟨r.slots, rfl⟩
  · exact r.storeRun_eq ..

theorem checkRoom_ok {words : Nat} (h : 4 * words < bufferLimit) : checkRoom words = .ok () := by
  rw [checkRoom, if_neg (by omega), if_neg (by omega)]

theorem setText_refused (slot : Slot) (s : String) {words : Nat} (hroom : 4 * words < bufferLimit)
    (h : 4 * words ≤ (Text.utf8Bytes s).length) : r.setText slot s words = (r, .ok false) := by
  have hpack : pack (Text.utf8Bytes s) words = none := if_neg (Nat.not_lt.mpr h)
  rw [setText, packChecked, checkRoom_ok hroom]
  simp only [Except.map, hpack]

theorem setText_stored (slot : Slot) (s : String) {words : Nat} (hroom : 4 * words < bufferLimit)
    (h : (Text.utf8Bytes s).length < 4 * words) :
    r.setText slot s words =
      ((r.storeRun slot.index (packWords words (Text.utf8Bytes s))).1,
        (r.storeRun slot.index (packWords words (Text.utf8Bytes s))).2.map fun _ => true) := by
  have hpack : pack (Text.utf8Bytes s) words = some (packWords words (Text.utf8Bytes s)) := if_pos h
  rw [setText, packChecked, checkRoom_ok hroom]
  simp only [Except.map, hpack]

theorem length_of_packChecked {bs : Bytes} {words : Nat} {ws : List Word}
    (h : packChecked bs words = .ok (some ws)) : ws.length = words := by
  rw [packChecked] at h
  cases hroom : checkRoom words with
  | error f =>
    rw [hroom] at h
    cases h
  | ok _ =>
    rw [hroom] at h
    have hpack : pack bs words = some ws := Except.ok.inj h
    rw [pack] at hpack
    split at hpack
    · obtain rfl := Option.some.inj hpack
      exact length_packWords words bs
    · cases hpack

theorem load_setText (slot : Slot) (s : String) {words : Nat} {j : Word}
    (h : ∀ k < words, j ≠ slot.index + Int32.ofNat k) :
    (r.setText slot s words).1.load j = r.load j := by
  rw [setText]
  split
  · rfl
  · rfl
  · rename_i ws hpack
    refine load_storeRun r _ j ws ?_
    rwa [length_of_packChecked hpack]

theorem text_eq (i : Word) (words : Nat) (h : i.toInt + words ≤ 2147483647) :
    r.text i words = .ok (Text.lossy (untilNul ((r.loadRun i words).flatMap bytesOfWord))) := by
  have hlow := Int32.le_toInt i
  have hroom : 4 * words < bufferLimit := by
    rw [bufferLimit]
    omega
  rw [text, checkRoom_ok hroom]
  simp only []
  rw [if_neg (by omega), bytesUntilNul_eq]

/-- A text is read from its slots only. -/
theorem text_congr {r r' : Referee} (i : Word) (words : Nat)
    (h : ∀ k < words, r'.load (i + Int32.ofNat k) = r.load (i + Int32.ofNat k)) :
    r'.text i words = r.text i words := by
  rw [text, text, bytesUntilNul_eq, bytesUntilNul_eq, loadRun_congr i words h]

theorem text_setText (slot : Slot) (s : String) {words more : Nat}
    (hfits : (Text.utf8Bytes s).length < 4 * words)
    (hlast : slot.index.toInt + words ≤ 2147483646)
    (hmore : words ≤ more) (hend : slot.index.toInt + more ≤ 2147483647) :
    (r.setText slot s words).1.text slot.index more = .ok (beforeNul s) := by
  have hlow := slot.toInt_index.1
  have hroom : 4 * words < bufferLimit := by
    rw [bufferLimit]
    omega
  have hlength := length_packWords words (Text.utf8Bytes s)
  have hback := r.loadRun_storeRun slot.index (packWords words (Text.utf8Bytes s))
    (by rw [hlength]; omega)
  rw [hlength] at hback
  obtain ⟨d, rfl⟩ := Nat.exists_eq_add_of_le hmore
  obtain ⟨gap, hgap⟩ : ∃ gap, 4 * words - (Text.utf8Bytes s).length = gap + 1 :=
    ⟨4 * words - (Text.utf8Bytes s).length - 1, by omega⟩
  rw [text_eq _ _ _ hend, setText_stored r slot s hroom hfits, loadRun_add, hback,
    List.flatMap_append, flatMap_packWords _ _ (Nat.le_of_lt hfits), hgap, untilNul_append_zeros,
    Text.untilNul_utf8Bytes, Text.lossy_utf8Bytes]

end Referee

end KernelExam

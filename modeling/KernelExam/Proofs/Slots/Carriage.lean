import KernelExam.Proofs.Slots.Reading

/-!
# Text through the slots

A text goes from the referee's side into slots and comes back on either side of the
mailbox: the referee reads it in one go, a process by one request for each slot. Both get
the part before the first zero character, and of any words whatsoever both make the same
text.
-/

set_option autoImplicit false

namespace KernelExam

open Text Session

/-- How a slot and those after it carry text. The number after a run of slots that is written
has to be a word with a successor, the number after one that is read a word. -/
structure Slot.Carries (slot : Slot) : Prop where
  /-- A text is taken exactly when it leaves a byte for its final zero. -/
  taken : ∀ (r : Referee) s (words : Nat), slot.index.toInt + words ≤ 2147483646 →
    (r.setText slot s words).2 = .ok (decide ((utf8Bytes s).length < 4 * words))
  /-- Nothing is stored of a text that is too long, however many slots there are. -/
  refused : ∀ (r : Referee) s words, 4 * words < bufferLimit →
    4 * words ≤ (utf8Bytes s).length → r.setText slot s words = (r, .ok false)
  confined : ∀ (r : Referee) s words, ∃ slots, (r.setText slot s words).1 = { r with slots } ∧
    ∀ j, (∀ k < words, j ≠ slot.index + Int32.ofNat k) → slots j = r.slots j
  /-- A plan takes just the texts that its referee takes. -/
  provided : ∀ (plan : Plan) s (words : Nat), slot.index.toInt + words ≤ 2147483646 →
    plan.provide (.text slot s words) =
      if (utf8Bytes s).length < 4 * words then
        .ok { plan with referee := (plan.referee.setText slot s words).1 }
      else .error (.textTooLong s words)
  /-- A text that was taken is read back up to its first zero character. -/
  read : ∀ (r : Referee) s (words more : Nat), (utf8Bytes s).length < 4 * words →
    slot.index.toInt + words ≤ 2147483646 → words ≤ more →
    slot.index.toInt + more ≤ 2147483647 →
    (r.setText slot s words).1.text slot.index more = .ok (beforeNul s)
  /-- A process of a machine with that text obtains the same. -/
  argued : ∀ (r : Referee) s (words more : Nat) (m : Machine),
    (utf8Bytes s).length < 4 * words → slot.index.toInt + words ≤ 2147483646 → words ≤ more →
    slot.index.toInt + more ≤ 2147483647 → m.referee = (r.setText slot s words).1 →
    m.Obtains (stringArgument slot more) slot.index more (beforeNul s)
  /-- Of the same words, whatever they are, both sides make one text. -/
  agreed : ∀ (m : Machine) (n : Nat), slot.index.toInt + n ≤ 2147483647 →
    ∃ t, m.referee.text slot.index n = .ok t ∧ m.Obtains (stringArgument slot n) slot.index n t
  /-- A buffer is filled from one request for each slot, the last of them perhaps in part. -/
  requested : ∀ (buffer : Bytes), (buffer.length + 3) / 4 < 2147483648 →
    slot.index.toInt + ((buffer.length + 3) / 4 : Nat) ≤ 2147483648 → ∀ replies bytes,
    (loadWords slot buffer).replay replies = some bytes ↔
      ∃ ws, ws.length = (buffer.length + 3) / 4 ∧ replies = loads slot.index ws ∧
        bytes = (ws.flatMap bytesOfWord).take buffer.length
  loaded : ∀ (m : Machine) (buffer : Bytes), (buffer.length + 3) / 4 < 2147483648 →
    slot.index.toInt + ((buffer.length + 3) / 4 : Nat) ≤ 2147483648 →
    m.Obtains (loadWords slot buffer) slot.index ((buffer.length + 3) / 4)
      (((m.referee.loadRun slot.index ((buffer.length + 3) / 4)).flatMap bytesOfWord).take
        buffer.length)

namespace Slot

variable (slot : Slot)

theorem room_of_last {words : Nat} (h : slot.index.toInt + words ≤ 2147483647) :
    4 * words < bufferLimit := by
  have hlow := slot.toInt_index.1
  rw [bufferLimit]
  omega

theorem setText_taken (r : Referee) (s : String) (words : Nat)
    (h : slot.index.toInt + words ≤ 2147483646) :
    (r.setText slot s words).2 = .ok (decide ((utf8Bytes s).length < 4 * words)) := by
  have hroom : 4 * words < bufferLimit := slot.room_of_last (by omega)
  have hlength := length_packWords words (utf8Bytes s)
  by_cases hfits : (utf8Bytes s).length < 4 * words
  · have hstored := r.storeRun_ok slot.index (packWords words (utf8Bytes s))
      (by rw [hlength]; omega)
    rw [r.setText_stored slot s hroom hfits, hstored, decide_eq_true hfits]
    rfl
  · rw [r.setText_refused slot s hroom (Nat.not_lt.mp hfits), decide_eq_false hfits]

theorem provide_text (plan : Plan) (s : String) (words : Nat)
    (h : slot.index.toInt + words ≤ 2147483646) :
    plan.provide (.text slot s words) =
      if (utf8Bytes s).length < 4 * words then
        .ok { plan with referee := (plan.referee.setText slot s words).1 }
      else .error (.textTooLong s words) := by
  have htaken := slot.setText_taken plan.referee s words h
  rw [Plan.provide]
  rcases hset : plan.referee.setText slot s words with ⟨referee, result⟩
  rw [hset] at htaken
  obtain rfl : result = _ := htaken
  by_cases hfits : (utf8Bytes s).length < 4 * words
  · rw [if_pos hfits, decide_eq_true hfits]
  · rw [if_neg hfits, decide_eq_false hfits]

theorem obtains_stringArgument (m : Machine) (n : Nat) (h : slot.index.toInt + n ≤ 2147483647) :
    ∃ t, m.referee.text slot.index n = .ok t ∧
      m.Obtains (stringArgument slot n) slot.index n t := by
  refine ⟨_, m.referee.text_eq slot.index n h, ?_⟩
  have hlength := m.referee.length_loadRun slot.index n
  have hbuffer : (zeros (4 * n)).length = 4 * n := List.length_replicate
  have hobtains := m.obtains_reading slot.index n
    fun ws => lossy (untilNul (unpack ws (zeros (4 * n))))
  rw [← stringArgument_eq_reading slot h, unpack_eq_take (by omega), hbuffer,
    List.take_of_length_le (by rw [length_flatMap_bytesOfWord]; omega)] at hobtains
  exact hobtains

theorem replay_loadWords_iff (buffer : Bytes) (h : (buffer.length + 3) / 4 < 2147483648)
    (hlast : slot.index.toInt + ((buffer.length + 3) / 4 : Nat) ≤ 2147483648)
    (replies : List Reply) (bytes : Bytes) :
    (loadWords slot buffer).replay replies = some bytes ↔
      ∃ ws, ws.length = (buffer.length + 3) / 4 ∧ replies = loads slot.index ws ∧
        bytes = (ws.flatMap bytesOfWord).take buffer.length := by
  rw [loadWords_eq_reading h hlast, replay_reading_iff]
  refine exists_congr fun ws => and_congr_right fun hlength => ?_
  rw [unpack_eq_take (by omega)]

theorem obtains_loadWords (m : Machine) (buffer : Bytes)
    (h : (buffer.length + 3) / 4 < 2147483648)
    (hlast : slot.index.toInt + ((buffer.length + 3) / 4 : Nat) ≤ 2147483648) :
    m.Obtains (loadWords slot buffer) slot.index ((buffer.length + 3) / 4)
      (((m.referee.loadRun slot.index ((buffer.length + 3) / 4)).flatMap bytesOfWord).take
        buffer.length) := by
  have hlength := m.referee.length_loadRun slot.index ((buffer.length + 3) / 4)
  have hobtains := m.obtains_reading slot.index ((buffer.length + 3) / 4)
    fun ws => unpack ws buffer
  rwa [← loadWords_eq_reading h hlast, unpack_eq_take (by omega)] at hobtains

/-- Every slot carries text. -/
theorem carries : slot.Carries where
  taken r s words h := slot.setText_taken r s words h
  refused r s _ hroom h := r.setText_refused slot s hroom h
  confined r s words := by
    obtain ⟨slots, hslots⟩ := r.setText_eq slot s words
    refine ⟨slots, hslots, fun j hj => ?_⟩
    have hload := r.load_setText slot s hj
    rwa [hslots] at hload
  provided plan s words h := slot.provide_text plan s words h
  read r s _ _ hfits hlast hmore hend := r.text_setText slot s hfits hlast hmore hend
  argued r s words more m hfits hlast hmore hend hm := by
    obtain ⟨t, ht, hobtains⟩ := slot.obtains_stringArgument m more hend
    rw [hm, r.text_setText slot s hfits hlast hmore hend] at ht
    obtain rfl := Except.ok.inj ht
    exact hobtains
  agreed m n h := slot.obtains_stringArgument m n h
  requested := slot.replay_loadWords_iff
  loaded := slot.obtains_loadWords

end Slot

/-- Counts that no buffer has room for, or whose last slot has no successor, break the storing
off, and the slots of a buffer are counted in a word. -/
theorem slots_counted_in_words :
    (utf8Bytes "x").length < 4 * 4611686018427387904 ∧
      (Referee.fresh.setText .random "x" 4611686018427387904).2 = .error .multiplyOverflow ∧
      (Referee.fresh.setText .random "x" 2147483638).2 = .error .addOverflow ∧
      loadWords .random (zeros 17179869184) = .done (zeros 17179869184) := by
  refine ⟨by decide, by rfl, ?_, ?_⟩
  · have hroom : 4 * 2147483638 < bufferLimit := by decide
    have hindex : Slot.random.index.toInt = 9 := by decide
    have hlength := length_packWords 2147483638 (utf8Bytes "x")
    rw [Referee.fresh.setText_stored .random "x" hroom (by decide),
      Referee.storeRun_overflow _ _ _ (by rw [hlength, hindex]; decide)]
    rfl
  · have hcount : slotCount (zeros 17179869184).length = 0 := by
      rw [zeros, List.length_replicate]
      decide
    have hnone : unpack [] (zeros 17179869184) = zeros 17179869184 := by
      rw [unpack, overlay, List.flatMap_nil, List.take_nil, List.nil_append]
      rfl
    rw [loadWords, hcount]
    show Program.done (unpack [] (zeros 17179869184)) = _
    rw [hnone]

end KernelExam

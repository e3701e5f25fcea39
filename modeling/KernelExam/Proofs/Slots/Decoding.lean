import KernelExam.Machine.Plan
import KernelExam.Proofs.Machine.Kinship
import KernelExam.Proofs.Slots.Packing

/-!
# Text at the end of the slots

Slots have all words for numbers. A text is read from any run of them that stops short of
the last; the reader steps past every slot that it takes, and past the last there is no
number.
-/

set_option autoImplicit false

namespace KernelExam

open Text

def Addressed (i : Word) (n : Nat) : Prop := ∀ k < n, i.toInt + (k : Int) < 2147483648

instance (i : Word) (n : Nat) : Decidable (Addressed i n) :=
  inferInstanceAs (Decidable (∀ k < n, i.toInt + (k : Int) < 2147483648))

namespace Referee

variable (r : Referee)

def slotBytes (i : Word) (n : Nat) : Bytes :=
  (List.range n).flatMap fun k : Nat => bytesOfWord (r.load (Int32.ofInt (i.toInt + k)))

/-- The text before the first zero byte in these slots. -/
def spelled (i : Word) (n : Nat) : String := lossy (untilNul (r.slotBytes i n))

theorem loadRun_eq_map (i : Word) (n : Nat) :
    r.loadRun i n = (List.range n).map fun k => r.load (i + Int32.ofNat k) := by
  induction n with
  | zero => rfl
  | succ n ih =>
    rw [loadRun_add, ih, List.range_succ, List.map_append]
    rfl

theorem add_ofNat_eq_ofInt (i : Word) (k : Nat) :
    i + Int32.ofNat k = Int32.ofInt (i.toInt + (k : Int)) := by
  rw [Int32.ofInt_add, Int32.ofInt_toInt]
  rfl

theorem slotBytes_eq (i : Word) (n : Nat) :
    r.slotBytes i n = (r.loadRun i n).flatMap bytesOfWord := by
  rw [loadRun_eq_map, List.flatMap_map, slotBytes]
  exact List.flatMap_congr fun k _ => by rw [add_ofNat_eq_ofInt]

end Referee

theorem Addressed.end_le {i : Word} {n : Nat} (h : Addressed i n) :
    i.toInt + (n : Int) ≤ 2147483648 := by
  have hlt := i.toInt_lt
  cases n with
  | zero => omega
  | succ n =>
    have hlast := h n (Nat.lt_succ_self n)
    omega

namespace Referee

variable {i : Word} {n : Nat} (r : Referee)

theorem text_of_addressed (h : Addressed i n) (hend : i.toInt + (n : Int) ≠ 2147483648) :
    r.text i n = .ok (r.spelled i n) := by
  have hle := h.end_le
  rw [r.text_eq i n (by omega), spelled, slotBytes_eq]

theorem text_of_last (hend : i.toInt + (n : Int) = 2147483648) :
    r.text i n = .error .addOverflow := by
  have hlow := i.le_toInt
  have hlt := i.toInt_lt
  have hroom : 4 * n < bufferLimit := by
    rw [bufferLimit]
    omega
  rw [text, checkRoom_ok hroom]
  exact if_pos (by omega)

end Referee

structure Machine.Asks (m : Machine) (pid : Pid) (t : Task) (i count : Word)
    (next : Word → Program Unit) : Prop where
  alive : m.alive pid = true
  running : m.referee.halted = false
  task : m.task? pid = some t
  body : t.body = .call (.ask Request.fileExists.code i count) next

/-- What comes of `n` slots with numbers, from slot `i` on, when they are read as text. -/
structure Decoded (i : Word) (n : Nat) : Prop where
  /-- Short of the last slot the reader gets the text, whatever the slots hold, -/
  read : i.toInt + (n : Int) ≠ 2147483648 → ∀ r : Referee, r.text i n = .ok (r.spelled i n)
  /-- and a process that asks for the file of that name has its answer and goes on. -/
  answered : i.toInt + (n : Int) ≠ 2147483648 → ∀ (m : Machine) pid t (count : Word) next,
    count.toInt = n → m.Asks pid t i count next →
    ∃ a : Word, a = (if m.fileExists (m.referee.spelled i n) then 1 else 0) ∧
      m.step pid = some (m.setTask pid { t with body := next a }) ∧
      (m.setTask pid { t with body := next a }).alive pid = true
  /-- A run up to the last slot breaks its reader, -/
  broken : i.toInt + (n : Int) = 2147483648 → ∀ r : Referee, r.text i n = .error .addOverflow
  /-- and ends a process that asks. -/
  killed : i.toInt + (n : Int) = 2147483648 → ∀ (m : Machine) pid t (count : Word) next,
    count.toInt = n → m.Asks pid t i count next →
    m.step pid = some (m.finish pid .exception) ∧ (m.finish pid .exception).alive pid = false

namespace Machine

variable {m : Machine} {pid : Pid} {t : Task} {i count : Word} {next : Word → Program Unit}
  {n : Nat}

theorem existsInSlots_eq (hc : count.toInt = n) :
    m.existsInSlots i count = match m.referee.text i n with
      | .error f => (m, .fault f)
      | .ok name => (m, .answer (if m.fileExists name then 1 else 0)) := by
  have hpositive : ¬ count < 0 := by
    rw [Int32.lt_iff_toInt_lt, hc]
    exact Int.not_lt.mpr (Int.natCast_nonneg n)
  have hcount : count.toInt.toNat = n := by rw [hc, Int.toNat_natCast]
  cases ht : m.referee.text i n with
  | error f => simp only [existsInSlots, if_neg hpositive, hcount, ht]
  | ok name => simp only [existsInSlots, if_neg hpositive, hcount, ht]

theorem Asks.step (h : m.Asks pid t i count next) (hc : count.toInt = n) :
    m.step pid = match m.referee.text i n with
      | .error _ => some (m.finish pid .exception)
      | .ok name =>
        some (m.setTask pid { t with body := next (if m.fileExists name then 1 else 0) }) := by
  have hserve : m.serve pid (.ask Request.fileExists.code i count) = m.existsInSlots i count := rfl
  rw [step_of_call h.alive h.task h.body h.running, hserve, existsInSlots_eq hc]
  cases m.referee.text i n <;> rfl

end Machine

/-- Every run of slots with numbers is read as text, but for those that go up to the last. -/
theorem slots_decoded {i : Word} {n : Nat} (h : Addressed i n) : Decoded i n where
  read hend r := r.text_of_addressed h hend
  answered hend m pid t count next hc hasks := by
    refine ⟨_, rfl, ?_, ?_⟩
    · rw [hasks.step hc, m.referee.text_of_addressed h hend]
    · rw [Machine.alive, Machine.setTask_processes]
      exact hasks.alive
  broken hend r := r.text_of_last hend
  killed hend m pid t count next hc hasks := by
    refine ⟨?_, ?_⟩
    · rw [hasks.step hc, m.referee.text_of_last hend]
    · rw [← Bool.not_eq_true, Machine.alive_finish _ hasks.alive]
      exact fun hself => hself.1 rfl

def Machine.curious : Machine := ((Plan.empty.register "p" fun _ _ =>
  .call (.ask Request.fileExists.code 2147483647 1) fun _ => .done ()).build.boot "p" []).1

theorem slots_decoded_last :
    (Referee.fresh.store 2147483646 97).text 2147483646 1 = .ok "a" ∧
      (Referee.fresh.store 2147483647 97).text 2147483647 1 = .error .addOverflow ∧
      Machine.curious.step 1 = some (Machine.curious.finish 1 .exception) ∧
      (Machine.curious.finish 1 .exception).alive 1 = false := by
  have hshort : Addressed 2147483646 1 := by decide
  have hlast : Addressed 2147483647 1 := by decide
  have hasks : Machine.curious.Asks 1
      ⟨"p", [], .call (.ask Request.fileExists.code 2147483647 1) fun _ => .done (), []⟩
      2147483647 1 fun _ => .done () := ⟨rfl, rfl, rfl, rfl⟩
  refine ⟨?_, (slots_decoded hlast).broken rfl _, ?_⟩
  · rw [(slots_decoded hshort).read (by decide)]
    rfl
  · exact (slots_decoded hlast).killed rfl Machine.curious 1 _ 1 _ rfl hasks

end KernelExam

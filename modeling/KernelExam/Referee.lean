import KernelExam.Process
import KernelExam.Text.Lossy

/-!
# The referee

The referee keeps the slots and semaphores of the mailbox, collects checkpoints,
takes the first outcome that is reported, and counts the processes that are
alive. Slots never written hold zero and semaphores never set have no permit.
-/

set_option autoImplicit false

namespace KernelExam

inductive Outcome where
  | done
  | fail
  deriving DecidableEq, Repr

structure Referee where
  slots : Word → Word
  permits : Word → Nat
  outcome : Option (Outcome × Pid)
  checkpoints : List Word
  live : Nat
  halted : Bool

namespace Referee

def fresh : Referee := ⟨fun _ => 0, fun _ => 0, none, [], 0, false⟩

def maxPermits : Nat := 4294967295

def load (r : Referee) (i : Word) : Word := r.slots i

def store (r : Referee) (i value : Word) : Referee :=
  { r with slots := fun j => if j = i then value else r.slots j }

/-- Stores words one after the other, from slot `i` on. The number after each slot,
and so after the last of them, has to be a word too. -/
def storeRun (r : Referee) (i : Word) (ws : List Word) : Referee × Except Fault Unit :=
  if i = Int32.maxValue then (r, .error .addOverflow)
  else match ws with
    | [] => (r, .ok ())
    | w :: ws => (r.store i w).storeRun (i + 1) ws

def setText (r : Referee) (slot : Slot) (s : String) (words : Nat) :
    Referee × Except Fault Bool :=
  match packChecked (Text.utf8Bytes s) words with
  | .error f => (r, .error f)
  | .ok none => (r, .ok false)
  | .ok (some ws) =>
    let stored := r.storeRun slot.index ws
    (stored.1, stored.2.map fun _ => true)

def loadRun (r : Referee) (i : Word) : Nat → List Word
  | 0 => []
  | n + 1 => r.load i :: r.loadRun (i + 1) n

def bytesUntilNul (r : Referee) (i : Word) : Nat → Bytes
  | 0 => []
  | n + 1 =>
    let bs := untilNul (bytesOfWord (r.load i))
    if bs.length < 4 then bs else bs ++ r.bytesUntilNul (i + 1) n

/-- The text in `words` slots from slot `i` on. The number after each slot that
is read is worked out too, so the last slot of all cannot be part of a text. -/
def text (r : Referee) (i : Word) (words : Nat) : Except Fault String :=
  match checkRoom words with
  | .error f => .error f
  | .ok () =>
    if 0 < words ∧ 2147483647 < i.toInt + words then .error .addOverflow
    else .ok (Text.lossy (r.bytesUntilNul i words))

def setPermits (r : Referee) (id : Word) (n : Nat) : Referee :=
  { r with permits := fun j => if j = id then n else r.permits j }

/-- What a P meets. -/
inductive Turn where
  | taken (r : Referee)
  | halted
  | blocked

def p (r : Referee) (id : Word) : Turn :=
  if r.halted then .halted
  else if 0 < r.permits id then .taken (r.setPermits id (r.permits id - 1))
  else .blocked

def v (r : Referee) (id : Word) : Except Fault Referee :=
  if r.permits id < maxPermits then .ok (r.setPermits id (r.permits id + 1))
  else .error .addOverflow

def checkpoint (r : Referee) (value : Word) : Referee :=
  { r with checkpoints := r.checkpoints ++ [value] }

def report (r : Referee) (o : Outcome) (pid : Pid) : Referee × Bool :=
  match r.outcome with
  | some _ => (r, false)
  | none => ({ r with outcome := some (o, pid) }, true)

def started (r : Referee) : Referee := { r with live := r.live + 1 }

def ended (r : Referee) : Referee := { r with live := r.live - 1 }

def halt (r : Referee) : Referee := { r with halted := true }

def idle (r : Referee) : Bool := r.live = 0

/-- Nothing is left to wait for: an outcome is known or nobody is alive. -/
def settled (r : Referee) : Bool := r.outcome.isSome || r.idle

theorem load_store (r : Referee) (i j value : Word) :
    (r.store i value).load j = if j = i then value else r.load j := rfl

theorem bytesUntilNul_eq (r : Referee) (i : Word) (n : Nat) :
    r.bytesUntilNul i n = untilNul ((r.loadRun i n).flatMap bytesOfWord) := by
  induction n generalizing i with
  | zero => rfl
  | succ n ih =>
    rw [loadRun, List.flatMap_cons, bytesUntilNul, ih, untilNul, untilNul, untilNul,
      List.takeWhile_append]
    by_cases h : ((bytesOfWord (r.load i)).takeWhile (· ≠ 0)).length < 4
    · rw [if_pos h, if_neg (by rw [length_bytesOfWord]; omega)]
    · have hle := (List.takeWhile_prefix (· ≠ 0) (l := bytesOfWord (r.load i))).length_le
      rw [length_bytesOfWord] at hle
      have he : ((bytesOfWord (r.load i)).takeWhile (· ≠ 0)).length
          = (bytesOfWord (r.load i)).length := by rw [length_bytesOfWord]; omega
      rw [if_neg h, if_pos he, (List.takeWhile_prefix _).eq_of_length he]

theorem permits_setPermits (r : Referee) (id other : Word) (n : Nat) :
    (r.setPermits id n).permits other = if other = id then n else r.permits other := rfl

end Referee

end KernelExam

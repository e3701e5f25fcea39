import KernelExam.Word

/-!
# The mailbox between a program and its referee

A program under examination talks to the referee through one numbered request
with two words. Most requests name a slot, which holds one word, or a semaphore.
The highest numbers of both are taken by the harness itself.
-/

set_option autoImplicit false

namespace KernelExam

inductive Request where
  | checkpoint
  | fileExists
  | fail
  | done
  | loadWord
  | storeWord
  | v
  | p
  deriving DecidableEq, Repr

namespace Request

def code : Request → Word
  | .checkpoint => -1
  | .fileExists => 0
  | .fail => 10
  | .done => 11
  | .loadWord => 12
  | .storeWord => 13
  | .v => 14
  | .p => 15

def all : List Request :=
  [.checkpoint, .fileExists, .fail, .done, .loadWord, .storeWord, .v, .p]

def ofCode? (n : Word) : Option Request := all.find? fun r => r.code = n

theorem ofCode?_code (r : Request) : ofCode? r.code = some r := by
  cases r <;> rfl

end Request

inductive Slot where
  | parameter (n : UInt8)
  | random
  | shellProgram
  | processCount
  | testId
  deriving DecidableEq, Repr

namespace Slot

/-- Slots below this number belong to the single test. -/
def parameters : Nat := 9

def shellProgramWords : Nat := 4

def index : Slot → Word
  | .parameter n => Int32.ofNat n.toNat
  | .random => 9
  | .shellProgram => 10
  | .processCount => 14
  | .testId => 15

theorem toInt_index (slot : Slot) : 0 ≤ slot.index.toInt ∧ slot.index.toInt < 256 := by
  cases slot with
  | parameter n =>
    have hn := n.toNat_lt
    rw [index, Int32.toInt_ofNat_of_lt (by omega)]
    omega
  | random | shellProgram | processCount | testId => decide

def ofParameter (n : UInt8) : Except Fault Slot :=
  if n.toNat < parameters then .ok (.parameter n) else .error .reservedSlot

end Slot

inductive Semaphore where
  | user (n : UInt8)
  | childWait
  | processLock
  deriving DecidableEq, Repr

namespace Semaphore

/-- Semaphores below this number belong to the single test. -/
def users : Nat := 14

def id : Semaphore → Word
  | .user n => Int32.ofNat n.toNat
  | .childWait => 14
  | .processLock => 15

def ofUser (n : UInt8) : Except Fault Semaphore :=
  if n.toNat < users then .ok (.user n) else .error .reservedSemaphore

end Semaphore

/-- Who gives the process lock its first permit. -/
inductive LockInit where
  /-- The lock has one permit before any process starts. -/
  | referee
  /-- The process that finds no other registered releases the lock once. -/
  | firstProcess
  deriving DecidableEq, Repr

end KernelExam

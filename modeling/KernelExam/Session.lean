import KernelExam.Program
import KernelExam.Text.Lossy

/-!
# A session with the referee

Every test program opens a session before it does anything else: under the
process lock it takes the next number of the process count for its own, then
learns which test it is to run and what the shell program is called. From then
on the session is how it talks to the referee.
-/

set_option autoImplicit false

namespace KernelExam

structure Session where
  processId : Word
  testId : Word
  shellProgram : String
  deriving DecidableEq, Repr

namespace Session

def ask (r : Request) (a0 a1 : Word) : Program Word := .make (.ask r.code a0 a1)

def loadAt (i : Word) : Program Word := ask .loadWord i 0

def load (slot : Slot) : Program Word := loadAt slot.index

def store (slot : Slot) (value : Word) : Program Unit := do
  let _ ← ask .storeWord slot.index value

def loadRun (i : Word) : Nat → Program (List Word)
  | 0 => pure []
  | n + 1 => do
    let w ← loadAt i
    let ws ← loadRun (i + 1) n
    pure (w :: ws)

/-- How many slots a buffer of that size takes, counted in a word: a count with no word of
its own wraps round, and one that comes out negative takes none. -/
def slotCount (size : Nat) : Nat := (Int32.ofNat ((size + 3) / 4)).toInt.toNat

/-- Fills a buffer from the slots that it takes, the last of them perhaps in part. There is no
slot after the last word; a buffer that takes more breaks the program off when it gets there. -/
def loadWords (slot : Slot) (buffer : Bytes) : Program Bytes :=
  let room := (Int32.maxValue.toInt - slot.index.toInt + 1).toNat
  if slotCount buffer.length ≤ room then do
    let ws ← loadRun slot.index (slotCount buffer.length)
    pure (unpack ws buffer)
  else do
    let _ ← loadRun slot.index room
    .crash

theorem slotCount_eq {size : Nat} (h : (size + 3) / 4 < 2147483648) :
    slotCount size = (size + 3) / 4 := by
  rw [slotCount, Int32.toInt_ofNat_of_lt h, Int.toNat_natCast]

theorem loadWords_eq {slot : Slot} {buffer : Bytes} (h : (buffer.length + 3) / 4 < 2147483648)
    (hlast : slot.index.toInt + ((buffer.length + 3) / 4 : Nat) ≤ 2147483648) :
    loadWords slot buffer =
      (loadRun slot.index ((buffer.length + 3) / 4)).bind fun ws => .done (unpack ws buffer) := by
  have hmax : Int32.maxValue.toInt = 2147483647 := by decide
  rw [loadWords, slotCount_eq h]
  exact if_pos (by omega)

def stringArgument (slot : Slot) (words : Nat) : Program String :=
  match checkRoom words with
  | .error _ => .crash
  | .ok () => do
    let buffer ← loadWords slot (zeros (4 * words))
    pure (Text.lossy (untilNul buffer))

def p (s : Semaphore) : Program Unit := do
  let _ ← ask .p s.id 0

def v (s : Semaphore) : Program Unit := do
  let _ ← ask .v s.id 0

def waitChild : Program Unit := p .childWait

def signalParent : Program Unit := v .childWait

def checkpoint (value : Word) : Program Unit := do
  let _ ← ask .checkpoint value 0

def fileExists (slot : Slot) (words : Nat) : Program Bool := do
  let n ← ask .fileExists slot.index (Int32.ofNat words)
  pure (n == 1)

/-- The lock is held from the first load to the last release; a count that has no
successor breaks the program off while it holds the lock. -/
def takeNumber : Program Word := do
  p .processLock
  let n ← load .processCount
  if n = Int32.maxValue then .crash
  else
    store .processCount (n + 1)
    v .processLock
    pure n

def register (init : LockInit) : Program Session := do
  if init = .firstProcess then
    let n ← load .processCount
    if n = 0 then v .processLock
  let processId ← takeNumber
  let shellProgram ← stringArgument .shellProgram Slot.shellProgramWords
  let testId ← load .testId
  pure ⟨processId, testId, shellProgram⟩

def done {α : Type} : Program α := do
  let _ ← ask .done 0 0
  .exit 0

def fail {α : Type} : Program α := do
  let _ ← ask .fail 0 0
  .exit 1

def ensure (holds : Bool) : Program Unit := if holds then pure () else fail

def restart (s : Session) : Program Word := .make (.exec s.shellProgram [])

def writeText : List String → Program Bool
  | [] => pure true
  | s :: rest => do
    let n ← Program.make (.write stdout (Text.utf8Bytes s))
    if n.toInt = (Text.utf8Bytes s).length then writeText rest else pure false

/-- The frame of every test program: a body that comes to its end has failed. -/
def start (body : Session → Program Unit) : Program Unit := do
  let s ← register .referee
  body s
  fail

end Session

end KernelExam

import KernelExam.Descriptor
import KernelExam.Mailbox

/-!
# Processes

Process numbers start at 1 and are handed out in order, never twice: the entry
of a process that has been reaped stays behind as an empty place.
-/

set_option autoImplicit false

namespace KernelExam

abbrev Pid := Int

inductive Termination where
  | exited (status : Word)
  | exception
  /-- Was running when the machine stopped. -/
  | halted
  deriving DecidableEq, Repr

structure ProcessState where
  parent : Option Pid
  cwd : String
  descriptors : DescriptorTable
  termination : Option Termination
  deriving DecidableEq, Repr

structure ProcessTable where
  slots : List (Option ProcessState)
  deriving DecidableEq, Repr

namespace ProcessTable

def empty : ProcessTable := ⟨[]⟩

/-- The largest number that a process can get, so that the next one is still a word. -/
def maxPid : Pid := 2147483646

def place? (pid : Pid) : Option Nat := if 1 ≤ pid then some (pid - 1).toNat else none

def get? (t : ProcessTable) (pid : Pid) : Option ProcessState :=
  (place? pid).bind fun n => (t.slots[n]?).join

def put (t : ProcessTable) (pid : Pid) (p : Option ProcessState) : ProcessTable :=
  match place? pid with
  | some n => ⟨t.slots.set n p⟩
  | none => t

def spawn (t : ProcessTable) (parent : Option Pid) (cwd : String) :
    Except Fault (ProcessTable × Pid) :=
  let pid : Pid := t.slots.length + 1
  if maxPid < pid then .error .addOverflow
  else .ok (⟨t.slots ++ [some ⟨parent, cwd, .stdio, none⟩]⟩, pid)

def modify (t : ProcessTable) (pid : Pid) (f : ProcessState → ProcessState) : ProcessTable :=
  match t.get? pid with
  | some p => t.put pid (some (f p))
  | none => t

def reap (t : ProcessTable) (pid : Pid) : ProcessTable := t.put pid none

/-- Records how a process ended and closes its descriptors. Only the first end
counts; `false` says that there was none to record. -/
def terminate (t : ProcessTable) (pid : Pid) (how : Termination) : ProcessTable × Bool :=
  match t.get? pid with
  | some p =>
    if p.termination.isSome then (t, false)
    else (t.put pid (some { p with termination := some how, descriptors := .closed }), true)
  | none => (t, false)

def entries (t : ProcessTable) : List (Pid × ProcessState) :=
  (t.slots.zipIdx 1).filterMap fun (p, n) => p.map fun p => ((n : Pid), p)

end ProcessTable

end KernelExam

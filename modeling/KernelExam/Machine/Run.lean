import KernelExam.Machine.Syscall
import KernelExam.Text.Quoted

/-!
# Running a machine

A process takes one step at a time: it makes a call, leaves a note, or ends.
`step` says what becomes of the machine when a given process takes the next
step, and has no answer while that process waits. Any order of steps is a run;
`run` lets a process go on for as long as it does not wait, up to a limit, and
gives the others their turns one after the other.
-/

set_option autoImplicit false

namespace KernelExam

inductive Verdict where
  | done
  | fail
  /-- Every process ended and none reported. -/
  | exited
  | timedOut
  deriving DecidableEq, Repr

def Verdict.message : Verdict → String
  | .done => "done"
  | .fail => "fail"
  | .exited => "exited without outcome"
  | .timedOut => "timed out"

structure Report where
  verdict : Verdict
  checkpoints : List Word
  stdout : Bytes
  /-- Processes that the halt found alive. -/
  halted : List Pid
  deriving DecidableEq, Repr

inductive MachineError where
  | unknownProgram (name : String)
  | textTooLong (text : String) (words : Nat)
  | seed (path : String) (error : FileError)
  | alreadyBooted
  | fault (f : Fault)
  deriving DecidableEq, Repr

def MachineError.message : MachineError → String
  | .unknownProgram name => "no program named " ++ Text.quoted name
  | .textTooLong text words =>
    Text.quoted text ++ " does not fit in " ++ toString words ++ " words"
  | .seed path error => "cannot seed " ++ path ++ ": " ++ error.message
  | .alreadyBooted => "machine already booted"
  | .fault f => f.message

namespace Machine

/-- The machine after the next step of a process that is not ended. A halted
machine ends every process at its next call. -/
def advance (m : Machine) (pid : Pid) (t : Task) : Option Machine :=
  match t.body with
  | .done _ => some (m.finish pid (.exited 0))
  | .exit status => some (m.finish pid (.exited status))
  | .crash => some (m.finish pid .exception)
  | .note n next => some (m.setTask pid { t with body := next, notes := t.notes ++ [n] })
  | .call c next =>
    if m.referee.halted then some (m.finish pid .halted)
    else match m.serve pid c with
      | (m', .answer a) => some (m'.setTask pid { t with body := next a })
      | (_, .blocked) => none
      | (m', .fault _) => some (m'.finish pid .exception)

def step (m : Machine) (pid : Pid) : Option Machine :=
  if m.alive pid then (m.task? pid).bind (m.advance pid) else none

/-- The steps of one process until it waits, ends or has taken `n` of them. -/
def turn (stop : Machine → Bool) (pid : Pid) : Nat → Machine → Machine
  | 0, m => m
  | n + 1, m =>
    if stop m then m
    else match m.step pid with
      | some m' => turn stop pid n m'
      | none => m

def slice : Nat := 128

/-- Gives turns to the processes of a queue until none can go on or the machine
has to `stop`, at most `n` turns. The first that does not wait has the next turn
and then goes to the end of the queue, behind those that it started. -/
def runUntil (stop : Machine → Bool) : Nat → List Pid → Machine → Machine
  | 0, _, m => m
  | n + 1, queue, m =>
    if stop m then m
    else match queue.span fun pid => (m.step pid).isNone with
      | (_, []) => m
      | (waiting, pid :: rest) =>
        let m' := turn stop pid slice m
        runUntil stop n (rest ++ waiting ++ m'.pids.drop m.tasks.length ++ [pid]) m'

/-- A run that takes more turns than this counts as hung. -/
def patience : Nat := 4000000

def boot (m : Machine) (program : String) (args : List String) : Machine × Except MachineError Unit :=
  if m.booted then (m, .error .alreadyBooted)
  else
    let m := { m with booted := true }
    match m.referee.setText .shellProgram program Slot.shellProgramWords with
    | (_, .error f) => (m, .error (.fault f))
    | (_, .ok false) => (m, .error (.textTooLong program Slot.shellProgramWords))
    | (referee, .ok true) =>
      let m := { m with referee }
      match m.launch none program args with
      | (m', .error f) => (m', .error (.fault f))
      | (m', .ok none) => (m', .error (.unknownProgram program))
      | (m', .ok (some _)) => (m', .ok ())

/-- Stops the machine and lets every process come to its end. -/
def shutDown (m : Machine) : Machine :=
  runUntil (fun _ => false) (m.tasks.length + patience) m.pids m.halt

def haltedPids (m : Machine) : List Pid :=
  (m.processes.entries.filter fun (_, p) => p.termination = some .halted).map Prod.fst

def verdict (m : Machine) (settled : Bool) : Verdict :=
  match m.referee.outcome with
  | some (.done, _) => .done
  | some (.fail, _) => .fail
  | none => if settled then .exited else .timedOut

/-- Boots a program and runs it until an outcome is reported, everybody has
ended, or nobody can go on. -/
def run (m : Machine) (program : String) (args : List String) :
    Machine × Except MachineError Report :=
  match m.boot program args with
  | (m, .error e) => (m, .error e)
  | (m, .ok ()) =>
    let ran := runUntil (fun m => m.referee.settled) patience m.pids m
    let m := ran.shutDown
    (m, .ok ⟨m.verdict ran.referee.settled, m.referee.checkpoints, m.stdout, m.haltedPids⟩)

end Machine

end KernelExam

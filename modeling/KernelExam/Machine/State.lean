import KernelExam.FileSystem.Basic
import KernelExam.Program
import KernelExam.Referee

/-!
# The machine

A machine is a kernel with its file system, its processes and its console,
together with the referee that watches it. Every process ever started keeps its
task, so that its notes can be read when it is long gone.
-/

set_option autoImplicit false

namespace KernelExam

/-- What a registered name stands for: a program for each process number and
argument list. -/
abbrev Image := Pid → List String → Program Unit

structure Task where
  program : String
  args : List String
  body : Program Unit
  notes : List Note

structure Machine where
  /-- The newest registration of a name comes first. -/
  registry : List (String × Image)
  files : FileSystem
  processes : ProcessTable
  /-- The task of process `n + 1` is at place `n`. A process whose start broke
  down has none, and so neither takes a step nor ends. -/
  tasks : List (Option Task)
  referee : Referee
  stdin : Bytes
  stdout : Bytes
  booted : Bool

namespace Machine

def task? (m : Machine) (pid : Pid) : Option Task :=
  (ProcessTable.place? pid).bind fun n => (m.tasks[n]?).join

def setTask (m : Machine) (pid : Pid) (t : Task) : Machine :=
  match ProcessTable.place? pid with
  | some n => { m with tasks := m.tasks.set n (some t) }
  | none => m

def alive (m : Machine) (pid : Pid) : Bool :=
  match m.processes.get? pid with
  | some p => p.termination.isNone
  | none => false

def pids (m : Machine) : List Pid := (List.range m.tasks.length).map fun n => Int.ofNat (n + 1)

def resolve (m : Machine) (pid : Pid) (path : String) : Option String :=
  (m.processes.get? pid).bind fun p => Path.resolve path p.cwd

def descriptor? (m : Machine) (pid : Pid) (fd : Word) : Option Descriptor :=
  (m.processes.get? pid).bind fun p => p.descriptors.get? fd

def setDescriptor (m : Machine) (pid : Pid) (fd : Word) (d : Descriptor) : Machine :=
  { m with processes := m.processes.modify pid fun p =>
      { p with descriptors := p.descriptors.set fd (some d) } }

def fileExists (m : Machine) (path : String) : Bool :=
  match Path.resolve path "/" with
  | some q => m.files.fileExists q
  | none => false

def fileBytes (m : Machine) (path : String) : Except FileError Bytes :=
  match Path.resolve path "/" with
  | some q => m.files.fileBytes q
  | none => .error .invalidPath

/-- Stops the machine: from now on every call ends the process that makes it. -/
def halt (m : Machine) : Machine := { m with referee := m.referee.halt }

def finish (m : Machine) (pid : Pid) (how : Termination) : Machine :=
  { m with
    processes := (m.processes.terminate pid how).1
    referee := m.referee.ended }

/-- What a process is called while it runs. -/
def label (path : String) (pid : Pid) : Bytes := Text.utf8Bytes (path ++ "#" ++ toString pid)

/-- Starts a program as a new process in its parent's directory, the root for a
process without a parent. Its label must be free of zero bytes; this is looked at
when the process has been entered already. -/
def launch (m : Machine) (parent : Option Pid) (path : String) (args : List String) :
    Machine × Except Fault (Option Pid) :=
  let name := Path.dropSlashes path
  match m.registry.lookup name with
  | none => (m, .ok none)
  | some image =>
    let cwd := ((parent.bind m.processes.get?).map ProcessState.cwd).getD "/"
    match m.processes.spawn parent cwd with
    | .error f => (m, .error f)
    | .ok (processes, pid) =>
      let m := { m with processes, referee := m.referee.started }
      if 0 ∈ label path pid then
        ({ m with tasks := m.tasks ++ [none] }, .error (.zeroInLabel (label path pid)))
      else ({ m with tasks := m.tasks ++ [some ⟨name, args, image pid args, []⟩] }, .ok (some pid))

end Machine

end KernelExam

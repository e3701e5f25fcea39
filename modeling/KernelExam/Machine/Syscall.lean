import KernelExam.Machine.State

/-!
# System calls

How the machine answers a call of a process. A call may also have to wait, or
break its caller; the machine that comes with a wait is not used.
-/

set_option autoImplicit false

namespace KernelExam

inductive Reaction (α : Type) where
  | answer (a : α)
  | blocked
  | fault (f : Fault)

namespace Machine

/-- All arguments of a process, each with its final zero, fit into a page. -/
def pageSize : Nat := 1024

def argumentBytes : List String → Nat
  | [] => 0
  | a :: rest => (Text.utf8Bytes a).length + 1 + argumentBytes rest

def exec (m : Machine) (pid : Pid) (path : String) (args : List String) :
    Machine × Reaction Word :=
  if pageSize < argumentBytes args then (m, .answer (-1))
  else match m.launch (some pid) path args with
    | (m', .error f) => (m', .fault f)
    | (m', .ok none) => (m', .answer (-1))
    | (m', .ok (some child)) => (m', .answer (Int32.ofInt child))

/-- Waits for a child and reaps it. Who is not a child cannot be waited for. -/
def join (m : Machine) (pid : Pid) (child status : Word) : Machine × Reaction (Word × Word) :=
  match m.processes.get? child.toInt with
  | none => (m, .answer (-1, status))
  | some p =>
    if p.parent = some pid then
      let reaped := { m with processes := m.processes.reap child.toInt }
      match p.termination with
      | none => (m, .blocked)
      | some (.exited code) => (reaped, .answer (1, code))
      | some .exception => (reaped, .answer (0, -1))
      | some .halted => (reaped, .answer (0, -1))
    else (m, .answer (-1, status))

def install (m : Machine) (pid : Pid) (object : Nat) : Machine × Reaction Word :=
  match m.processes.get? pid with
  | none => (m, .answer (-1))
  | some p => match p.descriptors.insert (.ofObject object) with
    | none => (m, .answer (-1))
    | some (t, n) =>
      ({ m with processes := m.processes.put pid (some { p with descriptors := t }) },
        .answer (Int32.ofNat n))

/-- The file is made, or emptied, before a place for its descriptor is looked for. -/
def create (m : Machine) (pid : Pid) (path : String) : Machine × Reaction Word :=
  match m.resolve pid path with
  | none => (m, .answer (-1))
  | some q => match m.files.create q with
    | (files, .error _) => ({ m with files }, .answer (-1))
    | (files, .ok o) => { m with files }.install pid o

def openFile (m : Machine) (pid : Pid) (path : String) : Machine × Reaction Word :=
  match m.resolve pid path with
  | none => (m, .answer (-1))
  | some q => match m.files.openFile q with
    | .error _ => (m, .answer (-1))
    | .ok o => m.install pid o

/-- A position past the end of a file that was emptied moves back to its end. -/
def read (m : Machine) (pid : Pid) (fd : Word) (size : Nat) :
    Machine × Reaction (Word × Bytes) :=
  match m.descriptor? pid fd with
  | none => (m, .answer (-1, []))
  | some d =>
    if d.readable then match d.endpoint with
      | .stdout => (m, .answer (-1, []))
      | .stdin =>
        let bs := m.stdin.take size
        ({ m with stdin := m.stdin.drop size }, .answer (Int32.ofNat bs.length, bs))
      | .file o position =>
        let start := min position (m.files.objects.contents o).length
        let bs := m.files.objects.slice o start size
        (m.setDescriptor pid fd (d.seek (start + bs.length)),
          .answer (Int32.ofNat bs.length, bs))
    else (m, .answer (-1, []))

def write (m : Machine) (pid : Pid) (fd : Word) (bs : Bytes) : Machine × Reaction Word :=
  match m.descriptor? pid fd with
  | none => (m, .answer (-1))
  | some d =>
    if d.writable then match d.endpoint with
      | .stdin => (m, .answer (-1))
      | .stdout => ({ m with stdout := m.stdout ++ bs }, .answer (Int32.ofNat bs.length))
      | .file o position =>
        let objects := m.files.objects.overwrite o position bs
        ({ m with files := { m.files with objects } }.setDescriptor pid fd
          (d.seek (position + bs.length)), .answer (Int32.ofNat bs.length))
    else (m, .answer (-1))

def close (m : Machine) (pid : Pid) (fd : Word) : Machine × Reaction Word :=
  match m.descriptor? pid fd with
  | none => (m, .answer (-1))
  | some _ =>
    ({ m with processes := m.processes.modify pid fun p =>
        { p with descriptors := (p.descriptors.remove fd).1 } }, .answer 0)

def onPath (m : Machine) (pid : Pid) (path : String)
    (operation : String → Machine × Except FileError Unit) : Machine × Reaction Word :=
  match m.resolve pid path with
  | none => (m, .answer (-1))
  | some q => match operation q with
    | (m', .ok ()) => (m', .answer 0)
    | (m', .error _) => (m', .answer (-1))

def unlink (m : Machine) (q : String) : Machine × Except FileError Unit :=
  let (files, result) := m.files.unlink q
  ({ m with files }, result)

def chdir (m : Machine) (pid : Pid) (q : String) : Machine × Except FileError Unit :=
  if m.files.isDir q then
    ({ m with processes := m.processes.modify pid fun p => { p with cwd := q } }, .ok ())
  else (m, .error .notADirectory)

def mkdir (m : Machine) (q : String) : Machine × Except FileError Unit :=
  let (files, result) := m.files.mkdir q
  ({ m with files }, result)

/-- Whether a live process has a path for its directory. -/
def inUse (m : Machine) (q : String) : Bool :=
  m.processes.slots.any fun p => p.any fun p => p.termination.isNone && p.cwd = q

def rmdir (m : Machine) (q : String) : Machine × Except FileError Unit :=
  if m.inUse q then (m, .error .inUse)
  else
    let (files, result) := m.files.rmdir q
    ({ m with files }, result)

def report (m : Machine) (o : Outcome) (pid : Pid) : Machine :=
  match m.referee.report o pid with
  | (referee, true) => { m with referee }.halt
  | (referee, false) => { m with referee }

def existsInSlots (m : Machine) (slot words : Word) : Machine × Reaction Word :=
  if words < 0 then (m, .answer (-1))
  else match m.referee.text slot words.toInt.toNat with
    | .error f => (m, .fault f)
    | .ok name => (m, .answer (if m.fileExists name then 1 else 0))

def ask (m : Machine) (pid : Pid) (request a0 a1 : Word) : Machine × Reaction Word :=
  match Request.ofCode? request with
  | none => (m, .answer (-1))
  | some .p => match m.referee.p a0 with
    | .taken referee => ({ m with referee }, .answer 0)
    | _ => (m, .blocked)
  | some .v => match m.referee.v a0 with
    | .ok referee => ({ m with referee }, .answer 0)
    | .error f => (m, .fault f)
  | some .loadWord => (m, .answer (m.referee.load a0))
  | some .storeWord => ({ m with referee := m.referee.store a0 a1 }, .answer 0)
  | some .done => (m.report .done pid, .answer 0)
  | some .fail => (m.report .fail pid, .answer 0)
  | some .checkpoint => ({ m with referee := m.referee.checkpoint a0 }, .answer 0)
  | some .fileExists => m.existsInSlots a0 a1

def serve (m : Machine) (pid : Pid) : (c : Call) → Machine × Reaction c.Answer
  | .exec path args => m.exec pid path args
  | .join child status => m.join pid child status
  | .create path => m.create pid path
  | .openFile path => m.openFile pid path
  | .read fd size => m.read pid fd size
  | .write fd bs => m.write pid fd bs
  | .readRaw _ _ _ => (m, .answer (-1))
  | .writeRaw _ _ _ => (m, .answer (-1))
  | .close fd => m.close pid fd
  | .unlink path => m.onPath pid path m.unlink
  | .chdir path => m.onPath pid path (m.chdir pid)
  | .mkdir path => m.onPath pid path m.mkdir
  | .rmdir path => m.onPath pid path m.rmdir
  | .ask request a0 a1 => m.ask pid request a0 a1

end Machine

end KernelExam

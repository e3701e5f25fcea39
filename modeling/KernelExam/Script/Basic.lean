import KernelExam.Session

/-!
# Scripts

A script is a test program written down as data: calls, harness operations and a
little control. Numbers in it may stand for themselves or for a variable, which
holds what an earlier step found.
-/

set_option autoImplicit false

namespace KernelExam

inductive Operand where
  | literal (n : Int)
  | var (name : String)
  deriving DecidableEq, Repr

/-- A step that comes back with a finding. A slot or semaphore that was named
wrongly is carried as the fault it raises when the step is reached. -/
inductive Action where
  | pid
  | argv
  | argc
  | parseArg (n : Operand)
  | exec (path : String) (args : List String)
  | join (pid status : Operand)
  | create (path : String)
  | openFile (path : String)
  | read (fd size : Operand)
  | write (fd : Operand) (bytes : Bytes)
  | readRaw (fd address size : Operand)
  | writeRaw (fd address size : Operand)
  | close (fd : Operand)
  | unlink (path : String)
  | chdir (path : String)
  | mkdir (path : String)
  | rmdir (path : String)
  | ask (request a0 a1 : Operand)
  | exit (status : Operand)
  | register (init : LockInit)
  | info
  | processId
  | load (slot : Except Fault Slot)
  | store (slot : Except Fault Slot) (value : Operand)
  | loadWords (slot : Except Fault Slot) (size : Operand)
  | string (slot : Except Fault Slot) (words : Operand)
  | p (semaphore : Except Fault Semaphore)
  | v (semaphore : Except Fault Semaphore)
  | waitChild
  | signalParent
  | checkpoint (value : Operand)
  | fileExists (slot : Except Fault Slot) (words : Operand)
  | restart
  | print (parts : List String)
  | ensure (a b : Operand)
  | done
  | fail
  | leave (status : Operand)

def Action.label : Action → String
  | .pid => "pid"
  | .argv => "argv"
  | .argc => "argc"
  | .parseArg _ => "parse_arg"
  | .exec _ _ => "exec"
  | .join _ _ => "join"
  | .create _ => "creat"
  | .openFile _ => "open"
  | .read _ _ => "read"
  | .write _ _ => "write"
  | .readRaw _ _ _ => "read_raw"
  | .writeRaw _ _ _ => "write_raw"
  | .close _ => "close"
  | .unlink _ => "unlink"
  | .chdir _ => "chdir"
  | .mkdir _ => "mkdir"
  | .rmdir _ => "rmdir"
  | .ask _ _ _ => "ag"
  | .exit _ => "exit"
  | .register _ => "register"
  | .info => "ctx.info"
  | .processId => "ctx.process_id"
  | .load _ => "ctx.load"
  | .store _ _ => "ctx.store"
  | .loadWords _ _ => "ctx.load_words"
  | .string _ _ => "ctx.string"
  | .p _ => "ctx.p"
  | .v _ => "ctx.v"
  | .waitChild => "ctx.wait_child"
  | .signalParent => "ctx.signal_parent"
  | .checkpoint _ => "ctx.checkpoint"
  | .fileExists _ _ => "ctx.file_exists"
  | .restart => "ctx.restart"
  | .print _ => "ctx.stdout"
  | .ensure _ _ => "ctx.ensure"
  | .done => "ctx.done"
  | .fail => "ctx.fail"
  | .leave _ => "ctx.exit"

inductive Script where
  | stop
  | act (a : Action) (name : Option String) (rest : Script)
  | leave
  | crash
  | loop (times : Operand) (body rest : Script)
  | branch (on : Operand) (value : Int) (yes no rest : Script)
  /-- Runs a body in the frame of a test program, with the process identity kept
  under a name, if one is given; nothing comes after that. -/
  | start (name : Option String) (body : Script)

end KernelExam

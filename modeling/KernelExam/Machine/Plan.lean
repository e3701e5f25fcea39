import KernelExam.Machine.Run

/-!
# Plans for machines

A plan says what a machine starts with: its programs, slots, files and console
input, and who opens the process lock. A plan is drawn up in steps, each of
which may be refused.
-/

set_option autoImplicit false

namespace KernelExam

structure Plan where
  registry : List (String × Image)
  files : FileSystem
  referee : Referee
  stdin : Bytes
  lockInit : LockInit

inductive Provision where
  | slot (slot : Slot) (value : Word)
  | text (slot : Slot) (s : String) (words : Nat)
  | file (path : String) (contents : Bytes)
  | folder (path : String)
  | stdin (bytes : Bytes)
  | lockInit (init : LockInit)

namespace Plan

def empty : Plan := ⟨[], .empty, .fresh, [], .referee⟩

/-- A later program takes the name from an earlier one. -/
def register (plan : Plan) (name : String) (image : Image) : Plan :=
  { plan with registry := (name, image) :: plan.registry }

/-- Changes the file system at a path taken from the root. -/
def seed (plan : Plan) (path : String)
    (change : String → FileSystem × Except FileError Unit) : Except MachineError Plan :=
  match Path.resolve path "/" with
  | none => .error (.seed path .invalidPath)
  | some q => match change q with
    | (files, .ok ()) => .ok { plan with files }
    | (_, .error e) => .error (.seed path e)

def provide (plan : Plan) : Provision → Except MachineError Plan
  | .slot slot value => .ok { plan with referee := plan.referee.store slot.index value }
  | .text slot s words => match plan.referee.setText slot s words with
    | (referee, .ok true) => .ok { plan with referee }
    | (_, .ok false) => .error (.textTooLong s words)
    | (_, .error f) => .error (.fault f)
  | .file path contents => plan.seed path fun q => plan.files.writeFile q contents
  | .folder path => plan.seed path plan.files.makeFolders
  | .stdin bytes => .ok { plan with stdin := plan.stdin ++ bytes }
  | .lockInit init => .ok { plan with lockInit := init }

def provideAll (plan : Plan) : List Provision → Except MachineError Plan
  | [] => .ok plan
  | s :: rest => match plan.provide s with
    | .ok plan => plan.provideAll rest
    | .error e => .error e

def build (plan : Plan) : Machine where
  registry := plan.registry
  files := plan.files
  processes := .empty
  tasks := []
  referee := match plan.lockInit with
    | .referee => plan.referee.setPermits Semaphore.processLock.id 1
    | .firstProcess => plan.referee
  stdin := plan.stdin
  stdout := []
  booted := false

end Plan

end KernelExam

import KernelExam.Session

/-!
# The tests of processes

Starting and joining children, exit statuses, arguments, and the order in which
processes register.
-/

set_option autoImplicit false

namespace KernelExam.Suite.Processes
open Session

def childPid : Slot := .parameter 0

def smallArgument : String := "abcdefgh"

def largeArgument : String := String.join (List.replicate 512 smallArgument)

def exec (path : String) (args : List String) : Program Word := .make (.exec path args)

def join (pid status : Word) : Program (Word × Word) := .make (.join pid status)

/-- The child reaches its checkpoint before the parent does. -/
def checkpoints (s : Session) : Program Unit := do
  if s.processId = 0 then
    let child ← s.restart
    ensure (child ≠ -1)
    waitChild
    checkpoint 1
    done
  checkpoint 2
  signalParent
  .exit 0

def restarts (s : Session) : Nat → Program (List Word)
  | 0 => pure []
  | n + 1 => do
    let pid ← s.restart
    waitChild
    let pids ← restarts s n
    pure (pid :: pids)

def distinctPids (s : Session) : Program Unit := do
  if s.processId = 0 then
    let pids ← restarts s 16
    ensure (decide pids.Nodup)
    done
  signalParent
  .exit 0

def rendezvous (s : Session) : Program Unit := do
  if s.processId = 0 then
    let first ← s.restart
    ensure (first ≠ -1)
    let second ← s.restart
    ensure (second ≠ -1)
    waitChild
    .exit 0
  else if s.processId = 1 then
    signalParent
    signalParent
    .exit 0
  else
    waitChild
    done

def exitStatus (s : Session) : Program Unit := do
  let expected ← load .random
  if s.processId = 0 then
    let child ← s.restart
    let (code, status) ← join child 0
    ensure (code = 1)
    ensure (status = expected)
    done
  .exit expected

def missingProgram : Program Unit := do
  let pid ← exec "abcdefghijklmnopqrstuvwxyz" []
  ensure (pid = -1)
  done

def grandchild (s : Session) : Program Unit := do
  if s.processId = 0 then
    let child ← s.restart
    ensure (child ≠ -1)
    waitChild
    let pid ← load childPid
    let (code, _) ← join pid 0
    ensure (code = -1)
    done
  else if s.processId = 1 then
    let first ← s.restart
    ensure (first ≠ -1)
    let second ← s.restart
    store childPid second
    signalParent
    .exit 0
  else if s.processId = 2 then .exit 0
  else
    let status ← load .random
    .exit status

def arguments (s : Session) (args : List String) : Program Unit := do
  if s.processId = 0 then
    let child ← exec s.shellProgram ["this", "is-dumb"]
    ensure (child ≠ -1)
    .exit 0
  ensure (args = ["this", "is-dumb"])
  done

/-- Arguments that do not fit into a page are refused. -/
def largeArguments (s : Session) : Program Unit := do
  let pid ← exec s.shellProgram (List.replicate 8 largeArgument)
  ensure (pid = -1)
  done

def smallArguments (s : Session) (args : List String) : Program Unit := do
  if s.processId = 0 then
    let child ← exec s.shellProgram (List.replicate 8 smallArgument)
    ensure (child ≠ -1)
    let (code, status) ← join child 0
    ensure (code = 1)
    ensure (status = 8)
    done
  ensure (args.all (· = smallArgument))
  .exit (Int32.ofNat args.length)

def sureRestarts (s : Session) : Nat → Program Unit
  | 0 => pure ()
  | n + 1 => do
    let pid ← s.restart
    ensure (pid ≠ -1)
    waitChild
    sureRestarts s n

def manyChildren (s : Session) : Program Unit := do
  if s.processId = 0 then
    sureRestarts s 20
    done
  signalParent
  .exit 0

def run (args : List String) (s : Session) : Program Unit :=
  if s.testId = 0 then checkpoints s
  else if s.testId = 1 then distinctPids s
  else if s.testId = 2 then rendezvous s
  else if s.testId = 3 then exitStatus s
  else if s.testId = 4 then missingProgram
  else if s.testId = 5 then grandchild s
  else if s.testId = 6 then arguments s args
  else if s.testId = 7 then largeArguments s
  else if s.testId = 8 then smallArguments s args
  else if s.testId = 11 then manyChildren s
  else pure ()

def main (args : List String) : Program Unit := start (run args)

end KernelExam.Suite.Processes

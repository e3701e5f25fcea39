import KernelExam.Session

/-!
# The tests of files

Two slots name a file that exists, which begins with the four bytes of the
random word, and two a file that does not. Standard input begins with the same
four bytes.
-/

set_option autoImplicit false

namespace KernelExam.Suite.Files
open Session

def presentFile : Slot := .parameter 0
def absentFile : Slot := .parameter 2
def descriptorSlot : Slot := .parameter 4

def nameWords : Nat := 2

def create (path : String) : Program Word := .make (.create path)
def openFile (path : String) : Program Word := .make (.openFile path)
def close (fd : Word) : Program Word := .make (.close fd)
def unlink (path : String) : Program Word := .make (.unlink path)
def write (fd : Word) (bs : Bytes) : Program Word := .make (.write fd bs)

def read (fd : Word) (buffer : Bytes) : Program (Word × Bytes) := do
  let (n, bs) ← Program.make (.read fd buffer.length)
  pure (n, overlay bs buffer)

def absentExists : Program Bool := fileExists absentFile nameWords

def readValue (fd : Word) : Program Word := do
  let (n, bs) ← read fd (zeros 4)
  ensure (n = 4)
  pure (firstWord bs)

def checkValue (value : Word) : Program Unit := do
  let expected ← load .random
  ensure (value = expected)

def ensureExists (expected : Bool) : Program Unit := do
  let found ← absentExists
  ensure (found = expected)

def ensureClosed (fd : Word) : Program Unit := do
  let n ← close fd
  ensure (n = 0)

def ensureCreated (path : String) : Program Word := do
  let fd ← create path
  ensure (fd ≠ -1)
  pure fd

def ensureOpened (path : String) : Program Word := do
  let fd ← openFile path
  ensure (fd ≠ -1)
  pure fd

def cycle (absent : String) : Program Unit := do
  let fd ← ensureCreated absent
  ensureExists true
  ensureClosed fd
  let n ← unlink absent
  ensure (n = 0)
  ensureExists false

def createTest (absent : String) : Program Unit := do
  ensureExists false
  let _ ← ensureCreated absent
  ensureExists true
  done

def unlinkTest (absent : String) : Program Unit := do
  ensureExists false
  cycle absent
  done

def cycles (absent : String) : Nat → Program Unit
  | 0 => pure ()
  | n + 1 => do
    cycle absent
    cycles absent n

def closeTest (absent : String) : Program Unit := do
  cycles absent 17
  done

def opens (path : String) : Nat → Program Unit
  | 0 => pure ()
  | n + 1 => do
    let _ ← ensureOpened path
    opens path n

/-- Opens a file until that is refused, which is what the test waits for. -/
def opensUntilRefused (path : String) : Nat → Program Unit
  | 0 => pure ()
  | n + 1 => do
    let fd ← openFile path
    if fd = -1 then done
    opensUntilRefused path n

def exhaustTest (present : String) : Program Unit := do
  opens present 10
  opensUntilRefused present 10

def restarts (s : Session) : Nat → Program Unit
  | 0 => pure ()
  | n + 1 => do
    let pid ← s.restart
    ensure (pid ≠ -1)
    waitChild
    restarts s n

def exitTest (present : String) (s : Session) : Program Unit := do
  if s.processId = 0 then
    restarts s 5
    done
  opens present 5
  signalParent
  .exit 0

def readTest (present : String) : Program Unit := do
  let fd ← ensureOpened present
  let value ← readValue fd
  ensureClosed fd
  checkValue value
  done

/-- A child does not see its parent's descriptors. -/
def privateTest (present : String) (s : Session) : Program Unit := do
  if s.processId = 0 then
    let fd ← ensureOpened present
    store descriptorSlot fd
    let child ← s.restart
    ensure (child ≠ -1)
    waitChild
    let value ← readValue fd
    ensureClosed fd
    checkValue value
    done
  let fd ← load descriptorSlot
  let n ← close fd
  ensure (n = -1)
  signalParent
  .exit 0

def writeTest (present absent : String) : Program Unit := do
  let source ← ensureOpened present
  let target ← ensureCreated absent
  let value ← readValue source
  let n ← write target (bytesOfWord value)
  ensure (n = 4)
  ensureClosed source
  ensureClosed target
  let again ← ensureOpened absent
  let value ← readValue again
  ensureClosed again
  checkValue value
  done

def badWriteTest (absent : String) : Program Unit := do
  let fd ← ensureCreated absent
  let n ← Program.make (.writeRaw fd 0x7FFE1234 0x7FFFFFFF)
  ensure (n ≤ 0)
  done

def badReadTest (present : String) : Program Unit := do
  let fd ← ensureOpened present
  let n ← Program.make (.readRaw fd 0 4)
  ensure (n ≤ 0)
  done

def readBytes : Nat → Program Bytes
  | 0 => pure []
  | n + 1 => do
    let (count, bs) ← read stdin (zeros 1)
    ensure (count = 1)
    let rest ← readBytes n
    pure (bs ++ rest)

def consoleTest : Program Unit := do
  let bs ← readBytes 4
  checkValue (firstWord bs)
  done

def outputTest (present : String) (s : Session) : Program Unit := do
  if s.processId = 0 then
    let child ← s.restart
    ensure (child ≠ -1)
    waitChild
    let _ ← write stdout (Text.utf8Bytes present)
    waitChild
    done
  signalParent
  let _ ← write stdout (Text.utf8Bytes present)
  signalParent
  .exit 0

def run (s : Session) : Program Unit := do
  let present ← stringArgument presentFile nameWords
  let absent ← stringArgument absentFile nameWords
  if s.testId = 0 then createTest absent
  else if s.testId = 1 then unlinkTest absent
  else if s.testId = 2 then closeTest absent
  else if s.testId = 3 then exhaustTest present
  else if s.testId = 4 then exitTest present s
  else if s.testId = 5 then readTest present
  else if s.testId = 6 then privateTest present s
  else if s.testId = 7 then writeTest present absent
  else if s.testId = 8 then badWriteTest absent
  else if s.testId = 9 then badReadTest present
  else if s.testId = 10 then consoleTest
  else if s.testId = 11 then outputTest present s
  else pure ()

def main (_ : List String) : Program Unit := start run

end KernelExam.Suite.Files

import KernelExam.Session

/-!
# The test of directories

One walk through changing, making and removing directories. It echoes the file
`/test/asdf`, which has to be there, and then a file of its own.
-/

set_option autoImplicit false

namespace KernelExam.Suite.Directories
open Session

def greeting : Bytes := Text.utf8Bytes "hello world!"

def expect (c : Call) (right : c.Answer → Bool) : Program c.Answer := do
  let a ← Program.make c
  ensure (right a)
  pure a

/-- The walk's buffer holds a hundred bytes. A count above that points past its
end, and the program breaks off. -/
def echo (fd : Word) : Program Bytes := do
  let (n, bs) ← expect (.read fd 100) fun (n, _) => 0 < n
  let buffer := overlay bs (zeros 100)
  if 100 < n then .crash
  else
    let _ ← expect (.write stdout (buffer.take n.toInt.toNat)) (· = n)
    pure buffer

def walk : Program Unit := do
  let _ ← expect (.chdir "test") (· = 0)
  let fd ← expect (.openFile "asdf") (· = 2)
  let buffer ← echo fd
  let _ ← expect (.close fd) (· = 0)
  let _ ← expect (.chdir "..") (· = 0)
  let _ ← expect (.rmdir "/test") (· = -1)
  let _ ← expect (.unlink "test/asdf") (· = 0)
  let _ ← expect (.rmdir "test") (· = 0)
  let _ ← expect (.mkdir "blah") (· = 0)
  let _ ← expect (.mkdir "blah") (· = -1)
  let _ ← expect (.chdir "blah") (· = 0)
  let fd ← expect (.create "qwer") (· = 2)
  let _ ← expect (.write fd greeting) (· = 12)
  let _ ← expect (.close fd) (· = 0)
  let fd ← Program.make (.openFile "qwer")
  let (_, bs) ← expect (.read fd 12) fun (n, _) => n = 12
  let _ ← expect (.write stdout (overlay bs (buffer.take 12))) (· = 12)
  let _ ← expect (.close fd) (· = 0)
  let _ ← expect (.unlink "qwer") (· = 0)
  let _ ← expect (.chdir "/") (· = 0)
  let _ ← expect (.rmdir "blah") (· = 0)
  done

def run (s : Session) : Program Unit := if s.testId = 0 then walk else pure ()

def main (_ : List String) : Program Unit := start run

end KernelExam.Suite.Directories

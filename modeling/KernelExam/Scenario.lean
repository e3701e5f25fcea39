import KernelExam.Suite.Processes
import KernelExam.Suite.Files
import KernelExam.Suite.Directories
import KernelExam.Machine.Run

/-!
# The catalogue of scenarios

A scenario is one test of one test program, with what has to come of it beyond
the report that it is done.
-/

set_option autoImplicit false

namespace KernelExam

inductive Suite where
  | processes
  | files
  | directories
  deriving DecidableEq, Repr

namespace Suite

def all : List Suite := [.processes, .files, .directories]

def name : Suite → String
  | .processes => "exec_test"
  | .files => "file_tests"
  | .directories => "dir_test"

def ofName? (s : String) : Option Suite := all.find? fun suite => suite.name = s

def image : Suite → Image
  | .processes => fun _ args => Processes.main args
  | .files => fun _ args => Files.main args
  | .directories => fun _ args => Directories.main args

theorem ofName?_name (suite : Suite) : ofName? suite.name = some suite := by
  cases suite <;> decide

end Suite

/-- What has to hold of a run that is done. -/
inductive Expectation where
  | done
  | checkpoints (values : List Word)
  | stdout (bytes : Bytes)
  deriving DecidableEq, Repr

structure Scenario where
  suite : Suite
  testId : Word
  description : String
  expectation : Expectation
  deriving DecidableEq, Repr

namespace Scenario

def display (s : Scenario) : String :=
  s.suite.name ++ " #" ++ toString s.testId.toInt ++ " (" ++ s.description ++ ")"

def catalogue : List Scenario := [
  ⟨.processes, 0, "child reaches its checkpoint first", .checkpoints [2, 1]⟩,
  ⟨.processes, 1, "sixteen children get distinct pids", .done⟩,
  ⟨.processes, 2, "two rendezvous through one parent", .done⟩,
  ⟨.processes, 3, "join returns the exit status", .done⟩,
  ⟨.processes, 4, "exec of a missing program fails", .done⟩,
  ⟨.processes, 5, "a grandchild cannot be joined", .done⟩,
  ⟨.processes, 6, "arguments reach the child", .done⟩,
  ⟨.processes, 7, "arguments larger than a page are rejected", .done⟩,
  ⟨.processes, 8, "eight small arguments", .done⟩,
  ⟨.processes, 11, "twenty children in a row", .done⟩,
  ⟨.files, 0, "creat makes the file exist", .done⟩,
  ⟨.files, 1, "unlink removes a closed file", .done⟩,
  ⟨.files, 2, "close releases the descriptor", .done⟩,
  ⟨.files, 3, "open runs out of descriptors", .done⟩,
  ⟨.files, 4, "exit closes every descriptor", .done⟩,
  ⟨.files, 5, "read", .done⟩,
  ⟨.files, 6, "descriptor tables are private", .done⟩,
  ⟨.files, 7, "write then read back", .done⟩,
  ⟨.files, 8, "write from a bad address fails", .done⟩,
  ⟨.files, 9, "read into a bad address fails", .done⟩,
  ⟨.files, 10, "standard input is the console", .done⟩,
  ⟨.files, 11, "standard output does not interleave", .stdout (Text.utf8Bytes "inputinput")⟩,
  ⟨.directories, 0, "chdir, mkdir and rmdir",
    .stdout (Text.utf8Bytes "hello from asdf\nhello world!")⟩]

def select (suite : Option Suite) (testId : Option Word) : List Scenario :=
  catalogue.filter fun s => suite.all (s.suite = ·) && testId.all (s.testId = ·)

end Scenario

end KernelExam

import KernelExam.Scenario
import KernelExam.Machine.Plan

/-!
# Grading

To grade a scenario is to run its program on a machine made for it, and to hold
the report against what the scenario expects.
-/

set_option autoImplicit false

namespace KernelExam

/-- How a report falls short. -/
inductive Mismatch where
  | verdict (found : Verdict)
  | checkpoints (found expected : List Word)
  | stdout (found expected : String)
  deriving DecidableEq, Repr

def Mismatch.message : Mismatch → String
  | .verdict found => "verdict was " ++ found.message
  | .checkpoints found expected =>
    "checkpoints " ++ Text.bracketed (found.map Int32.toInt) ++ ", expected "
      ++ Text.bracketed (expected.map Int32.toInt)
  | .stdout found expected =>
    "stdout " ++ Text.quoted found ++ ", expected " ++ Text.quoted expected

inductive GradingError where
  | unknownProgram (name : String)
  | noScenario
  | machine (error : MachineError)
  deriving DecidableEq, Repr

def GradingError.message : GradingError → String
  | .unknownProgram name => "no program named " ++ Text.quoted name
  | .noScenario => "no scenario matches"
  | .machine error => error.message

/-- The verdict is looked at first: only a run that is done can be compared. -/
def Expectation.mismatch (e : Expectation) (r : Report) : Option Mismatch :=
  if r.verdict ≠ .done then some (.verdict r.verdict)
  else match e with
    | .done => none
    | .checkpoints expected =>
      if r.checkpoints = expected then none else some (.checkpoints r.checkpoints expected)
    | .stdout expected =>
      if r.stdout = expected then none
      else some (.stdout (Text.lossy r.stdout) (Text.lossy expected))

def presentFile : String := "input"
def absentFile : String := "aa"
def echoedFile : String := "/test/asdf"
def echoedBytes : Bytes := Text.utf8Bytes "hello from asdf\n"

namespace Suite

/-- What a suite finds on its machine, apart from the programs. -/
def provisions (random : Word) : Suite → List Provision
  | .processes => []
  | .files => [
    .text (.parameter 0) presentFile Files.nameWords,
    .text (.parameter 2) absentFile Files.nameWords,
    .file presentFile (bytesOfWord random),
    .stdin (bytesOfWord random)]
  | .directories => [.file echoedFile echoedBytes]

end Suite

namespace Scenario

def basePlan (s : Scenario) (random : Word) : Plan :=
  let plan := { Plan.empty with referee :=
    (Plan.empty.referee.store Slot.testId.index s.testId).store Slot.random.index random }
  Suite.all.foldl (fun plan suite => plan.register suite.name suite.image) plan

def machine (s : Scenario) (random : Word) : Except MachineError Machine :=
  ((s.basePlan random).provideAll (s.suite.provisions random)).map Plan.build

end Scenario

structure Grade where
  scenario : Scenario
  report : Report
  mismatch : Option Mismatch

namespace Grade

def passed (g : Grade) : Bool := g.mismatch.isNone

end Grade

def Scenario.grade (s : Scenario) (random : Word) : Except GradingError Grade :=
  match s.machine random with
  | .error e => .error (.machine e)
  | .ok m => match (m.run s.suite.name []).2 with
    | .error e => .error (.machine e)
    | .ok report => .ok ⟨s, report, s.expectation.mismatch report⟩

end KernelExam

import KernelExam.Grading
import KernelExam.Text.Numeral

/-!
# The command line

`[PROGRAM] [TEST_ID]` choose scenarios; `-r`/`--random` and `-t`/`--timeout` take
a number, `-l`/`--list` and `-h`/`--help` none. The value of an option is the rest
of its argument or the next argument, which then must not look like an option.
Everything after `--` is taken as it stands, and no option may come twice.
-/

set_option autoImplicit false

namespace KernelExam.CommandLine

structure Settings where
  program : Option String
  testId : Option Word
  random : Option Word
  /-- Seconds; no run of a scenario comes near any limit. -/
  timeout : Option Nat
  list : Bool
  deriving DecidableEq, Repr

inductive Numbered where
  | random
  | timeout
  deriving DecidableEq, Repr

/-- Why the arguments give no settings. -/
inductive Stop where
  | usage
  | help
  deriving DecidableEq, Repr

/-- How far the arguments have been read. -/
structure Reading where
  settings : Settings
  pending : Option Numbered
  plain : Bool
  deriving DecidableEq, Repr

namespace Reading

def first : Reading := ⟨⟨none, none, none, none, false⟩, none, false⟩

def setNumber (r : Reading) (o : Numbered) (text : String) : Except Stop Reading :=
  match o with
  | .random => match r.settings.random, Text.word? text with
    | none, some n =>
      .ok { r with settings := { r.settings with random := some n }, pending := none }
    | _, _ => .error .usage
  | .timeout => match r.settings.timeout, Text.count64? text with
    | none, some n =>
      .ok { r with settings := { r.settings with timeout := some n }, pending := none }
    | _, _ => .error .usage

def setList (r : Reading) : Except Stop Reading :=
  if r.settings.list then .error .usage
  else .ok { r with settings := { r.settings with list := true } }

def positional (r : Reading) (text : String) : Except Stop Reading :=
  match r.settings.program, r.settings.testId with
  | none, _ => .ok { r with settings := { r.settings with program := some text } }
  | some _, none => match Text.word? text with
    | some n => .ok { r with settings := { r.settings with testId := some n } }
    | none => .error .usage
  | some _, some _ => .error .usage

def attached (r : Reading) (o : Numbered) : List Char → Except Stop Reading
  | [] => .ok { r with pending := some o }
  | '=' :: cs => r.setNumber o (String.ofList cs)
  | cs => r.setNumber o (String.ofList cs)

def short (r : Reading) : List Char → Except Stop Reading
  | [] => .ok r
  | 'l' :: cs => match r.setList with
    | .ok r => r.short cs
    | .error e => .error e
  | 'r' :: cs => r.attached .random cs
  | 't' :: cs => r.attached .timeout cs
  | 'h' :: _ => .error .help
  | _ => .error .usage

/-- The name of a long option, and its value if there is an equals sign. -/
def splitValue (cs : List Char) : String × Option String :=
  (String.ofList (cs.takeWhile (· ≠ '=')),
    (cs.dropWhile (· ≠ '=')).tail?.map String.ofList)

def long (r : Reading) (cs : List Char) : Except Stop Reading :=
  match splitValue cs with
  | ("random", some value) => r.setNumber .random value
  | ("random", none) => .ok { r with pending := some .random }
  | ("timeout", some value) => r.setNumber .timeout value
  | ("timeout", none) => .ok { r with pending := some .timeout }
  | ("list", none) => r.setList
  | ("help", none) => .error .help
  | _ => .error .usage

def next (r : Reading) (argument : String) : Except Stop Reading :=
  if r.plain then r.positional argument
  else match r.pending, argument.toList with
    | some o, '-' :: [] => r.setNumber o argument
    | some _, '-' :: _ => .error .usage
    | some o, _ => r.setNumber o argument
    | none, '-' :: '-' :: [] => .ok { r with plain := true }
    | none, '-' :: '-' :: cs => r.long cs
    | none, '-' :: c :: cs => r.short (c :: cs)
    | none, _ => r.positional argument

def all : Reading → List String → Except Stop Settings
  | r, [] => if r.pending.isSome then .error .usage else .ok r.settings
  | r, argument :: rest => match r.next argument with
    | .ok r => all r rest
    | .error e => .error e

end Reading

def parse (arguments : List String) : Except Stop Settings := Reading.first.all arguments

structure Printed where
  status : Nat
  stdout : String
  stderr : String
  deriving DecidableEq, Repr

def usageLine : String := "Usage: ag-grader [OPTIONS] [PROGRAM] [TEST_ID]\n"

def helpText : String :=
  "Runs the test programs on the simulated kernel and grades them\n\n" ++ usageLine ++
  "\nArguments:\n" ++
  "  [PROGRAM]  Program to run (exec_test, file_tests, dir_test); all when omitted\n" ++
  "  [TEST_ID]  Test ID; every test of the program when omitted\n" ++
  "\nOptions:\n" ++
  "  -r, --random <RANDOM>    Value of the random slot; drawn afresh when omitted\n" ++
  "  -t, --timeout <TIMEOUT>  Seconds before a run counts as hung [default: 10]\n" ++
  "  -l, --list               List the scenarios instead of running them\n" ++
  "  -h, --help               Print help\n"

def stopped : Stop → Printed
  | .help => ⟨0, helpText, ""⟩
  | .usage => ⟨2, "", usageLine⟩

def listLine (s : Scenario) : String :=
  Text.padRight 10 s.suite.name ++ " " ++ Text.padLeft 2 (toString s.testId.toInt) ++ "  "
    ++ s.description ++ "\n"

def hexWord (w : Word) : String := "0x" ++ String.ofList (Text.hexDigits w.toUInt32.toNat)

def gradeLine (s : Scenario) : Option Mismatch → String
  | none => "\x1b[32m[PASS]\x1b[0m " ++ s.display ++ "\n"
  | some mismatch => "\x1b[31m[FAIL]\x1b[0m " ++ s.display ++ ": " ++ mismatch.message ++ "\n"

def summary (passed failed : Nat) (random : Word) : String :=
  toString passed ++ " passed, " ++ toString failed ++ " failed (random=" ++ hexWord random
    ++ ")\n"

def showMachineError : MachineError → String
  | .unknownProgram name => "UnknownProgram(" ++ Text.quoted name ++ ")"
  | .textTooLong text words =>
    "StringTooLong(" ++ Text.quoted text ++ ", " ++ toString words ++ ")"
  | .seed path error => "Seed(" ++ Text.quoted path ++ ", " ++ showFileError error ++ ")"
  | .alreadyBooted => "AlreadyBooted"
  | .fault f => "Fault(" ++ Text.quoted f.message ++ ")"
where
  showFileError : FileError → String
    | .alreadyExists => "AlreadyExists"
    | .notFound => "NotFound"
    | .isADirectory => "IsADirectory"
    | .notADirectory => "NotADirectory"
    | .directoryNotEmpty => "DirectoryNotEmpty"
    | .invalidPath => "InvalidPath"
    | .inUse => "InUse"

def showError : GradingError → String
  | .unknownProgram name => "UnknownProgram(" ++ Text.quoted name ++ ")"
  | .noScenario => "NoScenario"
  | .machine error => "Sim(" ++ showMachineError error ++ ")"

def broken (stdout : String) (e : GradingError) : Printed :=
  ⟨1, stdout, "Error: " ++ showError e ++ "\n"⟩

def gradeAll (random : Word) : List Scenario → (passed failed : Nat) → (out : String) → Printed
  | [], passed, failed, out =>
    ⟨if failed = 0 then 0 else 1, out ++ summary passed failed random, ""⟩
  | s :: rest, passed, failed, out => match s.grade random with
    | .error e => broken out e
    | .ok g =>
      let out := out ++ gradeLine s g.mismatch
      if g.passed then gradeAll random rest (passed + 1) failed out
      else gradeAll random rest passed (failed + 1) out

/-- The scenarios that settings choose. -/
def chosen (s : Settings) : Except GradingError (List Scenario) :=
  match s.program with
  | none => atLeastOne (Scenario.select none s.testId)
  | some name => match Suite.ofName? name with
    | none => .error (.unknownProgram name)
    | some suite => atLeastOne (Scenario.select (some suite) s.testId)
where
  atLeastOne (ss : List Scenario) : Except GradingError (List Scenario) :=
    if ss = [] then .error .noScenario else .ok ss

/-- Carries out settings; `drawn` stands in for a random word that was not given. -/
def carryOut (drawn : Word) (s : Settings) : Printed :=
  if s.list then ⟨0, String.join (Scenario.catalogue.map listLine), ""⟩
  else match chosen s with
    | .error e => broken "" e
    | .ok scenarios => gradeAll (s.random.getD drawn) scenarios 0 0 ""

def command (drawn : Word) (arguments : List String) : Printed :=
  match parse arguments with
  | .error e => stopped e
  | .ok s => carryOut drawn s

/-- A test program that is started outside the kernel explains itself. -/
def offMachine (suite : Suite) : Printed :=
  ⟨2, "", suite.name ++ " talks to the kernel under test and cannot run on its own.\n" ++
    "Run it on the simulator instead: ag-grader " ++ suite.name ++ " <TEST_ID>\n"⟩

end KernelExam.CommandLine

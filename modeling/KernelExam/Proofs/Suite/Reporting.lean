import KernelExam.Proofs.Registration.Conduct
import KernelExam.Scenario

/-!
# Proper reports on any kernel

A test program is written to run on a kernel that may be wrong about everything. On
any kernel at all it ends by an exit, right after its report if it makes one, unless
it waits for a permit. The directory test has one way to break off: it takes a count
above a hundred as the length of what is in its buffer of a hundred bytes.
-/

set_option autoImplicit false

namespace KernelExam

/-- Anything that answers calls, with a memory `σ` between them. A call without an
answer waits for ever. -/
abbrev Kernel (σ : Type) : Type := σ → (c : Call) → Option (c.Answer × σ)

inductive Stop where
  | returned
  | exited (status : Word)
  | crashed
  | waiting (c : Call)

/-- The calls of a program with their answers, and how it ended after the last. -/
structure Course where
  replies : List Reply
  stop : Stop

namespace Kernel

variable {σ : Type}

def perform (k : Kernel σ) : Program Unit → σ → Course
  | .done _, _ => ⟨[], .returned⟩
  | .exit status, _ => ⟨[], .exited status⟩
  | .crash, _ => ⟨[], .crashed⟩
  | .note _ next, s => k.perform next s
  | .call c next, s => match k s c with
    | some (a, s) =>
      let rest := k.perform (next a) s
      ⟨⟨c, a⟩ :: rest.replies, rest.stop⟩
    | none => ⟨[], .waiting c⟩

def WaitsOnlyInP (k : Kernel σ) : Prop :=
  ∀ s c, k s c = none → ∃ a0 a1, c = .ask Request.p.code a0 a1

/-- The process count is never answered to be the largest word. -/
def CountsOn (k : Kernel σ) : Prop :=
  ∀ s a1 n s', k s (.ask Request.loadWord.code countSlot a1) = some (n, s') → n ≠ Int32.maxValue

end Kernel

/-- A count that is too large for the buffer of the directory test. -/
def Call.Overruns : (c : Call) → c.Answer → Prop
  | .read _ size, a => size = 100 ∧ 100 < a.1
  | _, _ => False

theorem Call.not_overruns_read {fd : Word} {size : Nat} (h : size ≠ 100) {a : Word × Bytes} :
    ¬ (Call.read fd size).Overruns a := by
  rintro ⟨rfl, -⟩
  exact h rfl

def Call.Sane (c : Call) (a : c.Answer) : Prop :=
  ∀ a1, c = .ask Request.loadWord.code countSlot a1 → c.code a ≠ Int32.maxValue

namespace Program

variable {α β : Type} {risk ret : Prop}

/-- Every report is followed by its exit, and nothing but an overrun buffer breaks the
program off. `risk` has to hold where that can happen, `ret` where the program returns. -/
inductive Reporting (risk ret : Prop) {α : Type} : Program α → Prop
  | done {a : α} : ret → Reporting risk ret (.done a)
  | exit (status : Word) : Reporting risk ret (.exit status)
  | note {n : Note} {next : Program α} : Reporting risk ret next →
      Reporting risk ret (.note n next)
  | report (o : Outcome) :
      Reporting risk ret (.call (.ask o.request.code 0 0) fun _ => .exit o.status)
  | call {c : Call} {next : c.Answer → Program α} : c.outcome? = none →
      (∀ a, c.Sane a → ¬ c.Overruns a → Reporting risk ret (next a)) →
      (∀ a, c.Overruns a → risk ∧ next a = .crash) → Reporting risk ret (.call c next)

namespace Reporting

theorem bind {x : Program α} {f : α → Program β} (hx : Reporting risk True x)
    (hf : ∀ a, Reporting risk ret (f a)) : Reporting risk ret (x.bind f) := by
  induction hx with
  | done _ => exact hf _
  | exit status => exact .exit status
  | note _ ih => exact .note ih
  | report o => exact .report o
  | call hc _ hover ih =>
    refine .call hc ih ?_
    intro a ha
    obtain ⟨hallowed, hcrash⟩ := hover a ha
    rw [hcrash]
    exact ⟨hallowed, rfl⟩

theorem make {c : Call} (hc : c.outcome? = none) (hover : ∀ a, ¬ c.Overruns a) :
    Reporting risk True (Program.make c) :=
  .call hc (fun _ _ _ => .done trivial) fun a ha => absurd ha (hover a)

theorem ite {p : Prop} [Decidable p] {x y : Program α} (hx : Reporting risk ret x)
    (hy : Reporting risk ret y) : Reporting risk ret (if p then x else y) := by
  split
  · exact hx
  · exact hy

end Reporting

end Program

namespace Session

open Program

variable {risk : Prop}

theorem ask_reporting {r : Request} (hd : r ≠ .done) (hf : r ≠ .fail) (a0 a1 : Word) :
    (ask r a0 a1).Reporting risk True := by
  refine .make ?_ fun _ => id
  cases r <;> first | rfl | contradiction

theorem load_reporting (slot : Slot) : (load slot).Reporting risk True :=
  ask_reporting (by decide) (by decide) _ _

theorem store_reporting (slot : Slot) (value : Word) : (store slot value).Reporting risk True :=
  (ask_reporting (by decide) (by decide) _ _).bind fun _ => .done trivial

theorem p_reporting (s : Semaphore) : (p s).Reporting risk True :=
  (ask_reporting (by decide) (by decide) _ _).bind fun _ => .done trivial

theorem v_reporting (s : Semaphore) : (v s).Reporting risk True :=
  (ask_reporting (by decide) (by decide) _ _).bind fun _ => .done trivial

theorem checkpoint_reporting (value : Word) : (checkpoint value).Reporting risk True :=
  (ask_reporting (by decide) (by decide) _ _).bind fun _ => .done trivial

theorem fileExists_reporting (slot : Slot) (words : Nat) :
    (fileExists slot words).Reporting risk True :=
  (ask_reporting (by decide) (by decide) _ _).bind fun _ => .done trivial

theorem loadRun_reporting (i : Word) (n : Nat) : (loadRun i n).Reporting risk True := by
  induction n generalizing i with
  | zero => exact .done trivial
  | succ n ih =>
    have hload : (loadAt i).Reporting risk True := ask_reporting (by decide) (by decide) _ _
    exact hload.bind fun w => (ih (i + 1)).bind fun ws => .done trivial

theorem stringArgument_reporting (slot : Slot) {words : Nat} (h : words < 1073741824) :
    (stringArgument slot words).Reporting risk True := by
  have hroom : checkRoom words = .ok () := by
    rw [checkRoom, bufferLimit, if_neg (by omega), if_neg (by omega)]
  have hslots : ((zeros (4 * words)).length + 3) / 4 = words := by
    rw [zeros, List.length_replicate]
    omega
  have hlast := slot.toInt_index.2
  rw [stringArgument, hroom]
  dsimp only
  rw [loadWords_eq (by omega) (by omega)]
  exact ((loadRun_reporting _ _).bind fun ws => .done trivial).bind fun buffer => .done trivial

theorem done_reporting {α : Type} (ret : Prop) : (done : Program α).Reporting risk ret := .report .done

theorem fail_reporting {α : Type} (ret : Prop) : (fail : Program α).Reporting risk ret := .report .fail

theorem ensure_reporting (holds : Bool) : (ensure holds).Reporting risk True :=
  .ite (.done trivial) (fail_reporting True)

theorem restart_reporting (s : Session) : s.restart.Reporting risk True := .make rfl fun _ => id

theorem takeNumber_reporting : takeNumber.Reporting risk True := by
  refine (p_reporting _).bind fun _ => ?_
  refine .call rfl ?_ fun _ => False.elim
  intro n hn _
  have hne : (n : Word) ≠ Int32.maxValue := hn 0 rfl
  change Reporting risk True (if (n : Word) = Int32.maxValue then _ else _)
  rw [if_neg hne]
  refine (store_reporting _ _).bind fun _ => ?_
  exact (v_reporting _).bind fun _ => .done trivial

theorem register_reporting : (register .referee).Reporting risk True := by
  refine takeNumber_reporting.bind fun n => ?_
  refine (stringArgument_reporting _ (by decide)).bind fun shellProgram => ?_
  exact (load_reporting _).bind fun testId => .done trivial

theorem start_reporting {body : Session → Program Unit} (h : ∀ s, (body s).Reporting risk True) :
    (start body).Reporting risk False :=
  register_reporting.bind fun s => (h s).bind fun _ => fail_reporting False

end Session

namespace Suite

open Program Session

variable {risk : Prop}

namespace Directories

theorem expect_reporting {c : Call} (hc : c.outcome? = none) (hover : ∀ a, ¬ c.Overruns a)
    (right : c.Answer → Bool) : (expect c right).Reporting True True :=
  (Reporting.make hc hover).bind fun _ => (ensure_reporting _).bind fun _ => .done trivial

theorem echo_eq (fd : Word) : echo fd = .call (.read fd 100) fun a =>
    (ensure (0 < a.1)).bind fun _ =>
      if 100 < a.1 then .crash
      else (expect (.write stdout ((overlay a.2 (zeros 100)).take a.1.toInt.toNat)) (· = a.1)).bind
        fun _ => .done (overlay a.2 (zeros 100)) := by
  refine congrArg (Program.call (.read fd 100)) ?_
  funext ⟨n, bs⟩
  exact Program.bind_assoc (ensure (0 < n)) _ _

theorem echo_reporting (fd : Word) : (echo fd).Reporting True True := by
  rw [echo_eq]
  refine .call rfl ?_ ?_
  · intro a _ hover
    have hle : ¬ 100 < a.1 := fun h => hover ⟨rfl, h⟩
    rw [if_neg hle]
    refine (ensure_reporting _).bind fun _ => ?_
    exact (expect_reporting rfl (fun _ => id) _).bind fun _ => .done trivial
  · rintro a ⟨-, hn⟩
    have hpos : 0 < a.1 := Int32.lt_trans (by decide) hn
    rw [ensure, decide_eq_true hpos, if_pos rfl, if_pos hn]
    exact ⟨trivial, rfl⟩

theorem run_reporting (s : Session) : (run s).Reporting True True := by
  have step {c : Call} {right : c.Answer → Bool} (hc : c.outcome? = none)
      (hover : ∀ a, ¬ c.Overruns a) := expect_reporting hc hover right
  refine .ite ?_ (.done trivial)
  iterate 2 refine (step rfl fun _ => id).bind fun _ => ?_
  refine (echo_reporting _).bind fun buffer => ?_
  iterate 11 refine (step rfl fun _ => id).bind fun _ => ?_
  refine (Reporting.make rfl fun _ => id).bind fun fd => ?_
  refine (step rfl fun _ => Call.not_overruns_read (by decide)).bind fun a => ?_
  iterate 5 refine (step rfl fun _ => id).bind fun _ => ?_
  exact done_reporting True

end Directories

namespace Files

variable (present absent : String) (s : Session)

theorem create_reporting (path : String) : (create path).Reporting risk True := .make rfl fun _ => id

theorem openFile_reporting (path : String) : (openFile path).Reporting risk True := .make rfl fun _ => id

theorem close_reporting (fd : Word) : (close fd).Reporting risk True := .make rfl fun _ => id

theorem unlink_reporting (path : String) : (unlink path).Reporting risk True := .make rfl fun _ => id

theorem write_reporting (fd : Word) (bs : Bytes) : (write fd bs).Reporting risk True :=
  .make rfl fun _ => id

theorem read_reporting (fd : Word) {buffer : Bytes} (h : buffer.length ≠ 100) :
    (read fd buffer).Reporting risk True :=
  (Reporting.make rfl fun _ => Call.not_overruns_read h).bind fun _ => .done trivial

theorem readValue_reporting (fd : Word) : (readValue fd).Reporting risk True :=
  (read_reporting fd (by decide)).bind fun _ => (ensure_reporting _).bind fun _ => .done trivial

theorem checkValue_reporting (value : Word) : (checkValue value).Reporting risk True :=
  (load_reporting _).bind fun _ => ensure_reporting _

theorem ensureExists_reporting (expected : Bool) : (ensureExists expected).Reporting risk True :=
  (fileExists_reporting _ _).bind fun _ => ensure_reporting _

theorem ensureClosed_reporting (fd : Word) : (ensureClosed fd).Reporting risk True :=
  (close_reporting fd).bind fun _ => ensure_reporting _

theorem ensureCreated_reporting (path : String) : (ensureCreated path).Reporting risk True :=
  (create_reporting path).bind fun _ => (ensure_reporting _).bind fun _ => .done trivial

theorem ensureOpened_reporting (path : String) : (ensureOpened path).Reporting risk True :=
  (openFile_reporting path).bind fun _ => (ensure_reporting _).bind fun _ => .done trivial

theorem cycle_reporting : (cycle absent).Reporting risk True := by
  refine (ensureCreated_reporting absent).bind fun fd => ?_
  refine (ensureExists_reporting true).bind fun _ => ?_
  refine (ensureClosed_reporting fd).bind fun _ => ?_
  refine (unlink_reporting absent).bind fun n => ?_
  exact (ensure_reporting _).bind fun _ => ensureExists_reporting false

theorem createTest_reporting : (createTest absent).Reporting risk True := by
  refine (ensureExists_reporting false).bind fun _ => ?_
  refine (ensureCreated_reporting absent).bind fun _ => ?_
  exact (ensureExists_reporting true).bind fun _ => done_reporting True

theorem unlinkTest_reporting : (unlinkTest absent).Reporting risk True :=
  (ensureExists_reporting false).bind fun _ => (cycle_reporting absent).bind fun _ =>
    done_reporting True

theorem cycles_reporting (n : Nat) : (cycles absent n).Reporting risk True := by
  induction n with
  | zero => exact .done trivial
  | succ n ih => exact (cycle_reporting absent).bind fun _ => ih

theorem opens_reporting (n : Nat) : (opens present n).Reporting risk True := by
  induction n with
  | zero => exact .done trivial
  | succ n ih => exact (ensureOpened_reporting present).bind fun _ => ih

theorem opensUntilRefused_reporting (n : Nat) : (opensUntilRefused present n).Reporting risk True := by
  induction n with
  | zero => exact .done trivial
  | succ n ih =>
    refine (openFile_reporting present).bind fun fd => ?_
    exact .ite ((done_reporting True).bind fun _ => ih) ih

theorem restarts_reporting (n : Nat) : (restarts s n).Reporting risk True := by
  induction n with
  | zero => exact .done trivial
  | succ n ih =>
    refine (restart_reporting s).bind fun pid => ?_
    exact (ensure_reporting _).bind fun _ => (p_reporting _).bind fun _ => ih

theorem exitTest_reporting : (exitTest present s).Reporting risk True := by
  have child : (do opens present 5; signalParent; Program.exit 0 : Program Unit).Reporting risk True :=
    (opens_reporting present 5).bind fun _ => (v_reporting _).bind fun _ => .exit 0
  refine .ite ?_ child
  refine (restarts_reporting s 5).bind fun _ => ?_
  exact (done_reporting True).bind fun _ => child

theorem readTest_reporting : (readTest present).Reporting risk True := by
  refine (ensureOpened_reporting present).bind fun fd => ?_
  refine (readValue_reporting fd).bind fun value => ?_
  refine (ensureClosed_reporting fd).bind fun _ => ?_
  exact (checkValue_reporting value).bind fun _ => done_reporting True

theorem privateTest_reporting : (privateTest present s).Reporting risk True := by
  have child : ∀ fd, (do let n ← close fd; ensure (n = -1); signalParent; Program.exit 0 :
      Program Unit).Reporting risk True := fun fd =>
    (close_reporting fd).bind fun _ => (ensure_reporting _).bind fun _ =>
      (v_reporting _).bind fun _ => .exit 0
  refine .ite ?_ ((load_reporting _).bind child)
  refine (ensureOpened_reporting present).bind fun fd => ?_
  refine (store_reporting _ fd).bind fun _ => ?_
  refine (restart_reporting s).bind fun pid => ?_
  refine (ensure_reporting _).bind fun _ => ?_
  refine (p_reporting _).bind fun _ => ?_
  refine (readValue_reporting fd).bind fun value => ?_
  refine (ensureClosed_reporting fd).bind fun _ => ?_
  refine (checkValue_reporting value).bind fun _ => ?_
  exact (done_reporting True).bind fun _ => (load_reporting _).bind child

theorem writeTest_reporting : (writeTest present absent).Reporting risk True := by
  refine (ensureOpened_reporting present).bind fun source => ?_
  refine (ensureCreated_reporting absent).bind fun target => ?_
  refine (readValue_reporting source).bind fun value => ?_
  refine (write_reporting target _).bind fun n => ?_
  refine (ensure_reporting _).bind fun _ => ?_
  refine (ensureClosed_reporting source).bind fun _ => ?_
  refine (ensureClosed_reporting target).bind fun _ => ?_
  refine (ensureOpened_reporting absent).bind fun again => ?_
  refine (readValue_reporting again).bind fun value => ?_
  refine (ensureClosed_reporting again).bind fun _ => ?_
  exact (checkValue_reporting value).bind fun _ => done_reporting True

theorem badWriteTest_reporting : (badWriteTest absent).Reporting risk True := by
  refine (ensureCreated_reporting absent).bind fun fd => ?_
  refine (Reporting.make rfl fun _ => id).bind fun n => ?_
  exact (ensure_reporting _).bind fun _ => done_reporting True

theorem badReadTest_reporting : (badReadTest present).Reporting risk True := by
  refine (ensureOpened_reporting present).bind fun fd => ?_
  refine (Reporting.make rfl fun _ => id).bind fun n => ?_
  exact (ensure_reporting _).bind fun _ => done_reporting True

theorem readBytes_reporting (n : Nat) : (readBytes n).Reporting risk True := by
  induction n with
  | zero => exact .done trivial
  | succ n ih =>
    refine (read_reporting stdin (by decide)).bind fun a => ?_
    exact (ensure_reporting _).bind fun _ => ih.bind fun rest => .done trivial

theorem consoleTest_reporting : consoleTest.Reporting risk True :=
  (readBytes_reporting 4).bind fun _ => (checkValue_reporting _).bind fun _ => done_reporting True

theorem outputTest_reporting : (outputTest present s).Reporting risk True := by
  have child : (do
      signalParent
      let _ ← write stdout (Text.utf8Bytes present)
      signalParent
      Program.exit 0 : Program Unit).Reporting risk True :=
    (v_reporting _).bind fun _ => (write_reporting _ _).bind fun _ => (v_reporting _).bind fun _ =>
      .exit 0
  refine .ite ?_ child
  refine (restart_reporting s).bind fun pid => ?_
  refine (ensure_reporting _).bind fun _ => ?_
  refine (p_reporting _).bind fun _ => ?_
  refine (write_reporting _ _).bind fun _ => ?_
  refine (p_reporting _).bind fun _ => ?_
  exact (done_reporting True).bind fun _ => child

theorem run_reporting : (run s).Reporting risk True := by
  refine (stringArgument_reporting _ (by decide)).bind fun present => ?_
  refine (stringArgument_reporting _ (by decide)).bind fun absent => ?_
  refine .ite (createTest_reporting absent) ?_
  refine .ite (unlinkTest_reporting absent) ?_
  refine .ite ((cycles_reporting absent 17).bind fun _ => done_reporting True) ?_
  refine .ite ((opens_reporting present 10).bind fun _ => opensUntilRefused_reporting present 10) ?_
  refine .ite (exitTest_reporting present s) ?_
  refine .ite (readTest_reporting present) ?_
  refine .ite (privateTest_reporting present s) ?_
  refine .ite (writeTest_reporting present absent) ?_
  refine .ite (badWriteTest_reporting absent) ?_
  refine .ite (badReadTest_reporting present) ?_
  refine .ite consoleTest_reporting ?_
  exact .ite (outputTest_reporting present s) (.done trivial)

end Files

namespace Processes

variable (s : Session) (args : List String)

theorem exec_reporting (path : String) : (exec path args).Reporting risk True := .make rfl fun _ => id

theorem join_reporting (pid status : Word) : (join pid status).Reporting risk True :=
  .make rfl fun _ => id

theorem signalAndExit_reporting :
    (do signalParent; Program.exit 0 : Program Unit).Reporting risk True :=
  (v_reporting _).bind fun _ => .exit 0

theorem checkpoints_reporting : (checkpoints s).Reporting risk True := by
  have child : (do checkpoint 2; signalParent; Program.exit 0 : Program Unit).Reporting risk True :=
    (checkpoint_reporting 2).bind fun _ => signalAndExit_reporting
  refine .ite ?_ child
  refine (restart_reporting s).bind fun pid => ?_
  refine (ensure_reporting _).bind fun _ => ?_
  refine (p_reporting _).bind fun _ => ?_
  refine (checkpoint_reporting 1).bind fun _ => ?_
  exact (done_reporting True).bind fun _ => child

theorem restarts_reporting (n : Nat) : (restarts s n).Reporting risk True := by
  induction n with
  | zero => exact .done trivial
  | succ n ih =>
    refine (restart_reporting s).bind fun pid => ?_
    exact (p_reporting _).bind fun _ => ih.bind fun pids => .done trivial

theorem distinctPids_reporting : (distinctPids s).Reporting risk True := by
  refine .ite ?_ signalAndExit_reporting
  refine (restarts_reporting s 16).bind fun pids => ?_
  refine (ensure_reporting _).bind fun _ => ?_
  exact (done_reporting True).bind fun _ => signalAndExit_reporting

theorem rendezvous_reporting : (rendezvous s).Reporting risk True := by
  refine .ite ?_ (.ite ?_ ?_)
  · refine (restart_reporting s).bind fun first => ?_
    refine (ensure_reporting _).bind fun _ => ?_
    refine (restart_reporting s).bind fun second => ?_
    refine (ensure_reporting _).bind fun _ => ?_
    exact (p_reporting _).bind fun _ => .exit 0
  · exact (v_reporting _).bind fun _ => signalAndExit_reporting
  · exact (p_reporting _).bind fun _ => done_reporting True

theorem exitStatus_reporting : (exitStatus s).Reporting risk True := by
  refine (load_reporting _).bind fun expected => ?_
  refine .ite ?_ (.exit expected)
  refine (restart_reporting s).bind fun child => ?_
  refine (join_reporting child 0).bind fun a => ?_
  refine (ensure_reporting _).bind fun _ => ?_
  refine (ensure_reporting _).bind fun _ => ?_
  exact (done_reporting True).bind fun _ => .exit expected

theorem missingProgram_reporting : missingProgram.Reporting risk True :=
  (exec_reporting [] _).bind fun _ => (ensure_reporting _).bind fun _ => done_reporting True

theorem grandchild_reporting : (grandchild s).Reporting risk True := by
  refine .ite ?_ (.ite ?_ (.ite (.exit 0) ((load_reporting _).bind fun status => .exit status)))
  · refine (restart_reporting s).bind fun child => ?_
    refine (ensure_reporting _).bind fun _ => ?_
    refine (p_reporting _).bind fun _ => ?_
    refine (load_reporting _).bind fun pid => ?_
    refine (join_reporting pid 0).bind fun a => ?_
    exact (ensure_reporting _).bind fun _ => done_reporting True
  · refine (restart_reporting s).bind fun first => ?_
    refine (ensure_reporting _).bind fun _ => ?_
    refine (restart_reporting s).bind fun second => ?_
    exact (store_reporting _ second).bind fun _ => signalAndExit_reporting

theorem arguments_reporting : (arguments s args).Reporting risk True := by
  have child : (do ensure (args = ["this", "is-dumb"]); done : Program Unit).Reporting risk True :=
    (ensure_reporting _).bind fun _ => done_reporting True
  refine .ite ?_ child
  refine (exec_reporting _ _).bind fun pid => ?_
  refine (ensure_reporting _).bind fun _ => ?_
  exact (Reporting.exit 0).bind fun _ => child

theorem largeArguments_reporting : (largeArguments s).Reporting risk True :=
  (exec_reporting _ _).bind fun _ => (ensure_reporting _).bind fun _ => done_reporting True

theorem smallArguments_reporting : (smallArguments s args).Reporting risk True := by
  have child : (do
      ensure (args.all (· = smallArgument))
      Program.exit (Int32.ofNat args.length) : Program Unit).Reporting risk True :=
    (ensure_reporting _).bind fun _ => .exit _
  refine .ite ?_ child
  refine (exec_reporting _ _).bind fun pid => ?_
  refine (ensure_reporting _).bind fun _ => ?_
  refine (join_reporting pid 0).bind fun a => ?_
  refine (ensure_reporting _).bind fun _ => ?_
  refine (ensure_reporting _).bind fun _ => ?_
  exact (done_reporting True).bind fun _ => child

theorem sureRestarts_reporting (n : Nat) : (sureRestarts s n).Reporting risk True := by
  induction n with
  | zero => exact .done trivial
  | succ n ih =>
    refine (restart_reporting s).bind fun pid => ?_
    exact (ensure_reporting _).bind fun _ => (p_reporting _).bind fun _ => ih

theorem manyChildren_reporting : (manyChildren s).Reporting risk True := by
  refine .ite ?_ signalAndExit_reporting
  refine (sureRestarts_reporting s 20).bind fun _ => ?_
  exact (done_reporting True).bind fun _ => signalAndExit_reporting

theorem run_reporting : (run args s).Reporting risk True := by
  refine .ite (checkpoints_reporting s) ?_
  refine .ite (distinctPids_reporting s) ?_
  refine .ite (rendezvous_reporting s) ?_
  refine .ite (exitStatus_reporting s) ?_
  refine .ite missingProgram_reporting ?_
  refine .ite (grandchild_reporting s) ?_
  refine .ite (arguments_reporting s args) ?_
  refine .ite (largeArguments_reporting s) ?_
  refine .ite (smallArguments_reporting s args) ?_
  exact .ite (manyChildren_reporting s) (.done trivial)

end Processes

theorem image_reporting (suite : Suite) (pid : Pid) (args : List String) :
    (suite.image pid args).Reporting (suite = .directories) False := by
  cases suite with
  | processes => exact start_reporting (Processes.run_reporting · args)
  | files => exact start_reporting Files.run_reporting
  | directories =>
    rw [eq_self]
    exact start_reporting Directories.run_reporting

end Suite

namespace Course

def Overran (course : Course) : Prop := ∃ r ∈ course.replies, r.call.Overruns r.answer

structure Proper (course : Course) : Prop where
  crashed_iff : course.stop = .crashed ↔ course.Overran
  ends : ¬ course.Overran → (∃ status, course.stop = .exited status) ∨
    ∃ a0 a1, course.stop = .waiting (.ask Request.p.code a0 a1)
  /-- Nothing comes after a report but the exit that belongs to it. -/
  report : ∀ before r after o, course.replies = before ++ r :: after →
    r.call.outcome? = some o → after = [] ∧ course.stop = .exited o.status

theorem Proper.cons {rest : Course} (h : rest.Proper) {r : Reply} (hr : r.call.outcome? = none)
    (hover : ¬ r.call.Overruns r.answer) : Proper ⟨r :: rest.replies, rest.stop⟩ := by
  have hsame : Overran ⟨r :: rest.replies, rest.stop⟩ ↔ rest.Overran := by
    simp [Overran, hover]
  refine ⟨by rw [hsame]; exact h.crashed_iff, by rw [hsame]; exact h.ends, ?_⟩
  intro before r' after o he ho
  cases before with
  | nil =>
    obtain ⟨rfl, -⟩ := List.cons.inj he
    rw [hr] at ho
    cases ho
  | cons first before =>
    obtain ⟨-, he⟩ := List.cons.inj he
    exact h.report before r' after o he ho

end Course

namespace Kernel

variable {σ : Type} {k : Kernel σ} {risk : Prop} {x : Program Unit}

theorem perform_reporting (hwait : k.WaitsOnlyInP) (hcount : k.CountsOn)
    (hx : x.Reporting risk False) (s : σ) :
    (k.perform x s).Proper ∧ ((k.perform x s).Overran → risk) := by
  induction hx generalizing s with
  | done h => exact h.elim
  | exit status =>
    refine ⟨⟨by simp [perform, Course.Overran], fun _ => Or.inl ⟨status, rfl⟩, ?_⟩, ?_⟩
    · simp [perform]
    · simp [perform, Course.Overran]
  | note _ ih => exact ih s
  | report o =>
    have hover : ∀ a, ¬ (Call.ask o.request.code 0 0).Overruns a := fun _ => id
    rw [perform]
    cases ha : k s (.ask o.request.code 0 0) with
    | none =>
      obtain ⟨a0, a1, he⟩ := hwait s _ ha
      cases o <;> cases he
    | some a =>
      refine ⟨⟨?_, fun _ => Or.inl ⟨o.status, rfl⟩, ?_⟩, ?_⟩
      · simp [perform, Course.Overran, hover]
      · intro before r after o' he ho
        obtain ⟨rfl, he⟩ | ⟨_, -, he⟩ := List.cons_eq_append_iff.mp he
        · obtain ⟨rfl, rfl⟩ := List.cons.inj he
          rw [o.outcome?_request] at ho
          obtain rfl := Option.some.inj ho
          exact ⟨rfl, rfl⟩
        · simp [perform] at he
      · simp [perform, Course.Overran, hover]
  | @call c next hc _ hover ih =>
    rw [perform]
    cases ha : k s c with
    | none =>
      obtain ⟨a0, a1, rfl⟩ := hwait s c ha
      refine ⟨⟨by simp [Course.Overran], fun _ => Or.inr ⟨a0, a1, rfl⟩, by simp⟩, ?_⟩
      simp [Course.Overran]
    | some a =>
      obtain ⟨a, s'⟩ := a
      by_cases hlarge : c.Overruns a
      · obtain ⟨hallowed, hcrash⟩ := hover a hlarge
        have hlast : ∃ r ∈ [Reply.mk c a], r.call.Overruns r.answer := ⟨⟨c, a⟩, by simp, hlarge⟩
        simp only [hcrash, perform]
        refine ⟨⟨⟨fun _ => hlast, fun _ => rfl⟩, fun h => absurd hlast h, ?_⟩, fun _ => hallowed⟩
        intro before r after o he ho
        obtain ⟨rfl, he⟩ | ⟨_, -, he⟩ := List.cons_eq_append_iff.mp he
        · obtain ⟨rfl, -⟩ := List.cons.inj he
          rw [hc] at ho
          cases ho
        · simp at he
      · have hsane : c.Sane a := by
          rintro a1 rfl
          exact hcount s a1 a s' ha
        obtain ⟨hproper, hallowed⟩ := ih a hsane hlarge s'
        refine ⟨hproper.cons hc hlarge, ?_⟩
        rintro ⟨r, hr, hover⟩
        rcases List.mem_cons.mp hr with rfl | hr
        · exact absurd hover hlarge
        · exact hallowed ⟨r, hr, hover⟩

/-- On any kernel a test program ends as it should, unless it is the directory test and
some count was too large for its buffer: then it breaks off. -/
theorem perform_image (suite : Suite) (pid : Pid) (args : List String) (hwait : k.WaitsOnlyInP)
    (hcount : k.CountsOn) (s : σ) :
    (k.perform (suite.image pid args) s).Proper ∧
      ((k.perform (suite.image pid args) s).Overran → suite = .directories) :=
  perform_reporting hwait hcount (suite.image_reporting pid args) s

/-- A kernel that says yes to everything and claims to read a byte too many. -/
def boastful : Kernel Unit := fun _ c => match c with
  | .read _ size => some ((Int32.ofNat (size + 1), []), ())
  | .join _ _ => some ((1, 0), ())
  | .openFile _ => some ((2 : Word), ())
  | .exec _ _ | .create _ | .write _ _ | .readRaw _ _ _ | .writeRaw _ _ _ | .close _ | .unlink _
  | .chdir _ | .mkdir _ | .rmdir _ | .ask _ _ _ => some ((0 : Word), ())

theorem perform_image_boastful : boastful.WaitsOnlyInP ∧ boastful.CountsOn ∧
    (boastful.perform (Suite.directories.image 1 []) ()).stop = .crashed ∧
    (boastful.perform (Suite.directories.image 1 []) ()).replies.length = 12 := by
  have hwait : boastful.WaitsOnlyInP := by
    intro s c h
    cases c <;> cases h
  have hcount : boastful.CountsOn := by
    have hzero : (0 : Word) ≠ Int32.maxValue := by decide
    rintro ⟨⟩ a1 n s' ⟨⟩
    exact hzero
  refine ⟨hwait, hcount, ?_, by rfl⟩
  refine (perform_image .directories 1 [] hwait hcount ()).1.crashed_iff.mpr ?_
  have hread : (boastful.perform (Suite.directories.image 1 []) ()).replies[11]? =
      some ⟨.read 2 100, ((101 : Word), [])⟩ := by rfl
  exact ⟨_, List.mem_of_getElem? hread, rfl, by decide⟩

end Kernel

end KernelExam

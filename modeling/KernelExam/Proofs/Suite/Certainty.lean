import KernelExam.Proofs.Machine.Surely
import KernelExam.Grading
import Mathlib

/-!
# What the kernel makes of every test

Each test in the catalogue is done on this kernel and comes to what the catalogue expects,
for any random word and in whatever order the processes take their steps; every other test
number fails. Few orders of strides are left of each, and evaluation goes through them all.
-/

set_option autoImplicit false

namespace KernelExam

def Expectation.metBy (e : Expectation) (x : Showing) : Bool :=
  (e.mismatch ⟨x.outcome.verdict, x.checkpoints, x.stdout, []⟩).isNone

theorem Expectation.mismatch_of_metBy {e : Expectation} {x : Showing} (h : e.metBy x = true)
    {report : Report} (hr : x.Reported report) : e.mismatch report = none := by
  obtain ⟨verdict, checkpoints, stdout, halted⟩ := report
  obtain ⟨rfl, rfl, rfl⟩ := hr
  exact Option.isNone_iff_eq_none.mp h

theorem Expectation.verdict_of_mismatch {e : Expectation} {report : Report}
    (h : e.mismatch report = none) : report.verdict = .done := by
  unfold mismatch at h
  split at h
  · cases h
  · rename_i hdone
    exact not_not.mp hdone

theorem Expectation.checkpoints_of_mismatch {expected : List Word} {report : Report}
    (h : (checkpoints expected).mismatch report = none) : report.checkpoints = expected := by
  unfold mismatch at h
  split at h
  · cases h
  · dsimp only at h
    split at h
    · assumption
    · cases h

theorem Expectation.stdout_of_mismatch {expected : Bytes} {report : Report}
    (h : (stdout expected).mismatch report = none) : report.stdout = expected := by
  unfold mismatch at h
  split at h
  · cases h
  · dsimp only at h
    split at h
    · assumption
    · cases h

theorem Text.length_utf8Bytes_join (s : String) (n : Nat) :
    (utf8Bytes (String.join (List.replicate n s))).length = n * (utf8Bytes s).length := by
  rw [utf8Bytes, String.toList_join, List.flatMap_assoc, List.length_flatMap,
    List.map_replicate, List.sum_replicate_nat]
  rfl

namespace Machine

variable {slots : Word → Word} {wanted : Showing → Bool} {k : Nat} {m : Machine} {q : Pid}

section Refusal

theorem argumentBytes_replicate (a : String) (n : Nat) :
    argumentBytes (List.replicate n a) = n * ((Text.utf8Bytes a).length + 1) := by
  induction n with
  | zero => rw [List.replicate_zero, argumentBytes, Nat.zero_mul]
  | succ n ih =>
    rw [List.replicate_succ, argumentBytes, ih, Nat.succ_mul]
    omega

def lonely (q : Pid) (m : Machine) : Bool := m.pids = [q] && m.showing?.isNone && m.alive q

def after (slots : Word → Word) (q : Pid) (m : Machine) : Machine :=
  match m.stride slots q with
  | .moves m' => m'
  | _ => m

/-- What a process is about to start a program with, and the machine when that is refused. -/
def refusal? (slots : Word → Word) (q : Pid) (m : Machine) : Option (List String × Machine) :=
  match m.task? q with
  | some t => match t.body with
    | .call (.exec _ args) next =>
      match m.land q t ((next (-1)).coast slots).1 ((next (-1)).coast slots).2 with
      | .moves m' => some (args, m')
      | _ => none
    | _ => none
  | none => none

def onRefusal? (wanted : Showing → Bool) (k : Nat) (m : Machine) : Option (List String × Bool) :=
  let slots := m.referee.slots
  ((m.after slots 1).refusal? slots 1).map fun r =>
    (r.1, m.prepared && m.lonely 1 && (m.stride slots 1).isMove && (m.after slots 1).lonely 1 &&
      r.2.surely slots wanted k)

theorem surely_of_lonely (halone : m.lonely q = true) (hmove : (m.stride slots q).isMove = true)
    (h : (m.after slots q).surely slots wanted k = true) : m.surely slots wanted (k + 1) = true := by
  simp only [lonely, Bool.and_eq_true, decide_eq_true_eq, Option.isNone_iff_eq_none] at halone
  obtain ⟨⟨hpids, hnone⟩, -⟩ := halone
  rw [after] at h
  cases hstride : m.stride slots q with
  | moves m' =>
    rw [hstride] at h
    simp only [surely, hnone, hpids, List.any_cons, List.all_cons, hstride, Stride.isMove, h,
      List.any_nil, List.all_nil, Bool.or_false, Bool.and_self]
  | _ =>
    rw [hstride] at hmove
    cases hmove

theorem stride_of_refusal {args : List String} {m' : Machine} (ha : m.alive q = true)
    (h : m.refusal? slots q = some (args, m')) (hlong : pageSize < argumentBytes args) :
    m.stride slots q = .moves m' := by
  rw [refusal?] at h
  cases ht : m.task? q with
  | none =>
    rw [ht] at h
    cases h
  | some t =>
    rw [ht] at h
    dsimp only at h
    split at h
    · rename_i path args' next hb
      split at h
      · rename_i m₁ hland
        obtain ⟨rfl, rfl⟩ := Prod.mk.inj (Option.some.inj h)
        have hserve : m.serve q (.exec path args') = (m, .answer (-1)) := by
          rw [serve, exec, if_pos hlong]
        rw [stride_of_call ha ht hb, strideCall_of_civil rfl hserve, hland]
      · cases h
    · cases h

theorem certain_of_refusal {args : List String} (h : m.onRefusal? wanted k = some (args, true))
    (hlong : pageSize < argumentBytes args) : m.certain wanted (k + 2) = true := by
  obtain ⟨⟨args, m'⟩, hrefused, h⟩ := Option.map_eq_some_iff.mp h
  obtain ⟨rfl, hchecks⟩ := Prod.mk.inj h
  simp only [Bool.and_eq_true] at hchecks
  obtain ⟨⟨⟨⟨hprepared, hlonely⟩, hmove⟩, hlonely'⟩, hrest⟩ := hchecks
  have halive : (m.after m.referee.slots 1).alive 1 = true := by
    rw [lonely, Bool.and_eq_true] at hlonely'
    exact hlonely'.2
  have hstride := stride_of_refusal halive hrefused hlong
  have hmoves : ((m.after m.referee.slots 1).stride m.referee.slots 1).isMove = true := by
    rw [hstride]
    rfl
  have hsecond : (m.after m.referee.slots 1).surely m.referee.slots wanted (k + 1) = true := by
    apply surely_of_lonely hlonely' hmoves
    rw [after, hstride]
    exact hrest
  rw [certain, hprepared, surely_of_lonely hlonely hmove hsecond]
  rfl

end Refusal

end Machine

namespace Suite

def run : Suite → List String → Session → Program Unit
  | .processes => Processes.run
  | .files => fun _ => Files.run
  | .directories => fun _ => Directories.run

def idle : Suite → Program Unit
  | .files => do
    let _ ← Session.stringArgument Files.presentFile Files.nameWords
    let _ ← Session.stringArgument Files.absentFile Files.nameWords
  | _ => pure ()

/-- The programs, but one of them first asks whether it is in test `t`. -/
def imageWith (suite : Suite) (t : Word) (body : Session → Program Unit) : Suite → Image :=
  fun other => if other = suite then fun _ args =>
      Session.start fun s => if s.testId = t then body s else suite.run args s
    else other.image

theorem imageWith_eq {suite : Suite} {t : Word} {body : Session → Program Unit}
    (h : ∀ args s, s.testId = t → body s = suite.run args s) : suite.imageWith t body = Suite.image := by
  funext other pid args
  rw [imageWith]
  split
  · rename_i hsuite
    have hbody : (fun s : Session => if s.testId = t then body s else suite.run args s) =
        suite.run args := by
      funext s
      split
      · rename_i ht
        exact h args s ht
      · rfl
    show Session.start (fun s => if s.testId = t then body s else suite.run args s) = _
    rw [hbody, hsuite]
    cases suite <;> rfl
  · rfl

def stock (contents : Bytes) : Suite → List Provision
  | .processes => []
  | .files => [
    .text (.parameter 0) presentFile Files.nameWords,
    .text (.parameter 2) absentFile Files.nameWords,
    .file presentFile contents,
    .stdin contents]
  | .directories => [.file echoedFile echoedBytes]

end Suite

namespace Scenario

def rig (s : Scenario) (image : Suite → Image) (contents : Bytes) (random : Word) :
    Except MachineError Machine :=
  let plan := { Plan.empty with referee :=
    (Plan.empty.referee.store Slot.testId.index s.testId).store Slot.random.index random }
  let plan := Suite.all.foldl (fun plan suite => plan.register suite.name (image suite)) plan
  (plan.provideAll (s.suite.stock contents)).map Plan.build

theorem machine_eq_rig (s : Scenario) (random : Word) :
    s.machine random = s.rig Suite.image (bytesOfWord random) random := by
  obtain ⟨suite, t, description, expectation⟩ := s
  cases suite <;> rfl

def opening (s : Scenario) (image : Suite → Image) (contents : Bytes) (random : Word) :
    Option Machine :=
  match s.rig image contents random with
  | .error _ => none
  | .ok m => match m.boot s.suite.name [] with
    | (start, .ok ()) => some start
    | (_, .error _) => none

def horizon : Nat := 100

def sure (s : Scenario) (image : Suite → Image) (contents : Bytes) (random : Word)
    (wanted : Showing → Bool) : Bool :=
  (s.opening image contents random).any (Machine.certain wanted horizon)

theorem sure_congr {s e : Scenario} (hsuite : e.suite = s.suite) (ht : e.testId = s.testId)
    (image : Suite → Image) (contents : Bytes) (random : Word) (wanted : Showing → Bool) :
    s.sure image contents random wanted = e.sure image contents random wanted := by
  rw [sure, sure, opening, opening, rig, rig, hsuite, ht]

section Evaluation

-- Evaluation of a closed term is fast, but does not get past a comparison with a word that is
-- not known, so the tests are gone through in the two ways that follow.

/-- A word for which a property fails, if there is one. -/
noncomputable def worst (P : Word → Prop) : Word := Classical.epsilon fun w => ¬ P w

theorem forall_of_worst {P : Word → Prop} (h : P (worst P)) (w : Word) : P w := by
  by_contra hw
  exact Classical.epsilon_spec (p := fun w => ¬ P w) ⟨w, hw⟩ h

/-- Tests that never compare anything with the random word. The test of large arguments is
not among them, since it takes too long to work out how large they are. -/
def oblivious : List Scenario := catalogue.filter fun e => match e.suite with
  | .processes => e.testId ≠ 3 ∧ e.testId ≠ 7
  | .files => e.testId ∉ [5, 6, 7, 10]
  | .directories => true

theorem sure_oblivious : ∀ random, (oblivious.all fun e =>
    e.sure Suite.image (bytesOfWord random) random e.expectation.metBy) = true :=
  forall_of_worst (by decide +kernel)

set_option maxRecDepth 100000

theorem sure_exitStatus (description : String) (random : Word) :
    sure ⟨.processes, 3, description, .done⟩ Suite.image (bytesOfWord random) random
      Expectation.done.metBy = true := by
  cbv

theorem sure_readBack (description : String) (a b c d : UInt8) :
    ([5, 6, 10].all fun t => sure ⟨.files, t, description, .done⟩ Suite.image [a, b, c, d]
      (wordOfBytes a b c d) Expectation.done.metBy) = true := by
  cbv

theorem sure_writeBack (description : String) (a b c d : UInt8) :
    sure ⟨.files, 7, description, .done⟩ Suite.image [a, b, c, d]
      (firstWord (bytesOfWord (wordOfBytes a b c d))) Expectation.done.metBy = true := by
  cbv

theorem sure_idle (t : Word) (description : String) (expectation : Expectation) (random : Word) :
    (Suite.all.all fun suite => sure ⟨suite, t, description, expectation⟩
      (suite.imageWith t fun _ => suite.idle) (bytesOfWord random) random
        (·.outcome = .fail)) = true := by
  cbv

def copies (argument : String) : Session → Program Unit := fun s => do
  let pid ← Suite.Processes.exec s.shellProgram (List.replicate 8 argument)
  Session.ensure (pid = -1)
  Session.done

theorem onRefusal_copies (description argument : String) (random : Word) :
    (opening ⟨.processes, 7, description, .done⟩ (Suite.processes.imageWith 7 (copies argument))
      (bytesOfWord random) random).bind (Machine.onRefusal? Expectation.done.metBy 98) =
      some (List.replicate 8 argument, true) := by
  cbv

end Evaluation

theorem pageSize_lt_copies :
    Machine.pageSize < Machine.argumentBytes (List.replicate 8 Suite.Processes.largeArgument) := by
  rw [Machine.argumentBytes_replicate, Suite.Processes.largeArgument, Text.length_utf8Bytes_join]
  decide

theorem sure_largeArguments (description : String) (random : Word) :
    sure ⟨.processes, 7, description, .done⟩ Suite.image (bytesOfWord random) random
      Expectation.done.metBy = true := by
  have hcopies : Suite.processes.imageWith 7 (copies Suite.Processes.largeArgument) = Suite.image := by
    apply Suite.imageWith_eq
    intro args s ht
    simp only [Suite.run, Suite.Processes.run, ht]
    rfl
  have hrefusal := onRefusal_copies description Suite.Processes.largeArgument random
  rw [hcopies] at hrefusal
  obtain ⟨start, hstart, hrefused⟩ := Option.bind_eq_some_iff.mp hrefusal
  rw [sure, hstart, Option.any_some]
  exact Machine.certain_of_refusal hrefused pageSize_lt_copies

theorem catalogue_cases : ∀ e ∈ catalogue, e ∈ oblivious ∨ e.expectation = .done ∧
    (e.suite = .processes ∧ e.testId ∈ [3, 7] ∨ e.suite = .files ∧ e.testId ∈ [5, 6, 7, 10]) := by
  decide

/-- Every test of the catalogue is sure to come to what the catalogue expects. -/
theorem sure_listed {e : Scenario} (he : e ∈ catalogue) (random : Word) :
    e.sure Suite.image (bytesOfWord random) random e.expectation.metBy = true := by
  obtain ⟨suite, t, description, expectation⟩ := e
  have hword : random = firstWord (bytesOfWord random) := (firstWord_bytesOfWord random).symm
  obtain ⟨a, b, c, d, hbytes⟩ : ∃ a b c d, bytesOfWord random = [a, b, c, d] := ⟨_, _, _, _, rfl⟩
  have hrandom : random = wordOfBytes a b c d := by
    rw [hword, hbytes]
    rfl
  rcases catalogue_cases _ he with hoblivious | ⟨hdone, ⟨hsuite, ht⟩ | ⟨hsuite, ht⟩⟩
  · exact List.all_eq_true.mp (sure_oblivious random) _ hoblivious
  · simp only [List.mem_cons, List.not_mem_nil, or_false] at hdone hsuite ht
    subst hdone hsuite
    rcases ht with rfl | rfl
    · exact sure_exitStatus description random
    · exact sure_largeArguments description random
  · simp only [List.mem_cons, List.not_mem_nil, or_false] at hdone hsuite ht
    subst hdone hsuite
    have hread := sure_readBack description a b c d
    have hwrite := sure_writeBack description a b c d
    rw [← hrandom, ← hbytes] at hread
    rw [← hrandom, ← hbytes, ← hword] at hwrite
    rw [List.all_eq_true] at hread
    rcases ht with rfl | rfl | rfl | rfl
    · exact hread 5 (by decide)
    · exact hread 6 (by decide)
    · exact hwrite
    · exact hread 10 (by decide)

theorem idle_eq_run {suite : Suite} {s : Session}
    (h : ∀ e ∈ catalogue, e.suite = suite → e.testId ≠ s.testId) (args : List String) :
    suite.idle = suite.run args s := by
  have hne : ∀ t ∈ (catalogue.filter (·.suite = suite)).map Scenario.testId, s.testId ≠ t := by
    intro t ht
    obtain ⟨e, he, rfl⟩ := List.mem_map.mp ht
    obtain ⟨hmem, hsuite⟩ := List.mem_filter.mp he
    exact (h e hmem (of_decide_eq_true hsuite)).symm
  cases suite with
  | processes =>
    have htests : (catalogue.filter (·.suite = .processes)).map Scenario.testId =
        [0, 1, 2, 3, 4, 5, 6, 7, 8, 11] := by decide
    simp only [htests, List.forall_mem_cons] at hne
    simp only [Suite.idle, Suite.run, Suite.Processes.run, hne, if_false]
  | files =>
    have htests : (catalogue.filter (·.suite = .files)).map Scenario.testId =
        [0, 1, 2, 3, 4, 5, 6, 7, 8, 9, 10, 11] := by decide
    simp only [htests, List.forall_mem_cons] at hne
    simp only [Suite.idle, Suite.run, Suite.Files.run, hne, if_false]
  | directories =>
    have htests : (catalogue.filter (·.suite = .directories)).map Scenario.testId = [0] := by decide
    simp only [htests, List.forall_mem_cons] at hne
    simp only [Suite.idle, Suite.run, Suite.Directories.run, hne, if_false]

/-- Every other test is sure to fail. -/
theorem sure_unlisted {s : Scenario} (h : ∀ e ∈ catalogue, e.suite = s.suite → e.testId ≠ s.testId)
    (random : Word) :
    s.sure Suite.image (bytesOfWord random) random (·.outcome = .fail) = true := by
  obtain ⟨suite, t, description, expectation⟩ := s
  have hidle : suite.imageWith t (fun _ => suite.idle) = Suite.image := by
    apply Suite.imageWith_eq
    rintro args s rfl
    exact idle_eq_run h args
  have hall : suite ∈ Suite.all := by cases suite <;> decide
  have hsure := List.all_eq_true.mp (sure_idle t description expectation random) suite hall
  rwa [hidle] at hsure

end Scenario

end KernelExam

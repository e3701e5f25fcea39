import KernelExam.Proofs.Suite.Certainty

/-!
# The catalogue is what this kernel passes

A scenario's machine always comes to a report, whatever the random word and the order of
the steps. What the report says depends on the catalogue alone: a test in it is done and
meets the expectation, and any other test fails.
-/

set_option autoImplicit false

namespace KernelExam

namespace Scenario

open Machine

structure Answered (s : Scenario) (report : Report) : Prop where
  decided : report.verdict ≠ .exited ∧ report.verdict ≠ .timedOut
  listed : ∀ e ∈ catalogue, e.suite = s.suite → e.testId = s.testId →
    report.verdict = .done ∧ e.expectation.mismatch report = none
  unlisted : (∀ e ∈ catalogue, e.suite = s.suite → e.testId ≠ s.testId) → report.verdict = .fail
  checkpoints : s.suite = .processes → s.testId = 0 → report.checkpoints = [2, 1]
  turns : s.suite = .files → s.testId = 11 → report.stdout = Text.utf8Bytes "inputinput"
  walk : s.suite = .directories → s.testId = 0 →
    report.stdout = Text.utf8Bytes "hello from asdf\nhello world!"

def listing? (s : Scenario) : Option Scenario :=
  catalogue.find? fun e => e.suite = s.suite ∧ e.testId = s.testId

/-- What has to be shown in a scenario, in the catalogue or not. -/
def required (s : Scenario) (x : Showing) : Bool :=
  match s.listing? with
  | some e => e.expectation.metBy x
  | none => x.outcome = .fail

theorem listing?_self : ∀ e ∈ catalogue, e.listing? = some e := by decide +kernel

theorem listing?_eq_some {s e : Scenario} (he : e ∈ catalogue) (hsuite : e.suite = s.suite)
    (ht : e.testId = s.testId) : s.listing? = some e := by
  rw [← listing?_self e he, listing?, listing?, hsuite, ht]

theorem listing?_eq_none_iff (s : Scenario) : s.listing? = none ↔
    ∀ e ∈ catalogue, e.suite = s.suite → e.testId ≠ s.testId := by
  rw [listing?, List.find?_eq_none]
  simp only [decide_eq_true_eq, not_and]

theorem sure_required (s : Scenario) (random : Word) :
    s.sure Suite.image (bytesOfWord random) random s.required = true := by
  cases hlisting : s.listing? with
  | some e =>
    have hrequired : s.required = e.expectation.metBy := by
      funext x
      rw [required, hlisting]
    have he : e ∈ catalogue := List.mem_of_find?_eq_some hlisting
    have hsame := List.find?_some hlisting
    rw [decide_eq_true_eq] at hsame
    rw [hrequired, sure_congr hsame.1 hsame.2]
    exact sure_listed he random
  | none =>
    have hrequired : s.required = fun x => decide (x.outcome = .fail) := by
      funext x
      rw [required, hlisting]
    rw [hrequired]
    exact sure_unlisted ((listing?_eq_none_iff s).mp hlisting) random

theorem mismatch_of_required {s e : Scenario} {x : Showing} {report : Report}
    (h : s.required x = true) (hr : x.Reported report) (he : e ∈ catalogue)
    (hsuite : e.suite = s.suite) (ht : e.testId = s.testId) : e.expectation.mismatch report = none := by
  rw [required, listing?_eq_some he hsuite ht] at h
  exact Expectation.mismatch_of_metBy h hr

theorem answered_of_required {s : Scenario} {x : Showing} {report : Report}
    (h : s.required x = true) (hr : x.Reported report) : s.Answered report := by
  have hmismatch : ∀ e ∈ catalogue, e.suite = s.suite → e.testId = s.testId →
      e.expectation.mismatch report = none := fun e => mismatch_of_required h hr
  constructor
  · rw [hr.1]
    cases x.outcome
    · exact ⟨nofun, nofun⟩
    · exact ⟨nofun, nofun⟩
  · intro e he hsuite ht
    have hnone := hmismatch e he hsuite ht
    exact ⟨Expectation.verdict_of_mismatch hnone, hnone⟩
  · intro hunlisted
    rw [required, (listing?_eq_none_iff s).mpr hunlisted] at h
    rw [hr.1, of_decide_eq_true h]
    rfl
  · intro hsuite ht
    apply Expectation.checkpoints_of_mismatch
    exact hmismatch ⟨.processes, 0, "child reaches its checkpoint first", .checkpoints [2, 1]⟩
      (by decide) hsuite.symm ht.symm
  · intro hsuite ht
    apply Expectation.stdout_of_mismatch
    exact hmismatch ⟨.files, 11, "standard output does not interleave",
      .stdout (Text.utf8Bytes "inputinput")⟩ (by decide) hsuite.symm ht.symm
  · intro hsuite ht
    apply Expectation.stdout_of_mismatch
    exact hmismatch ⟨.directories, 0, "chdir, mkdir and rmdir",
      .stdout (Text.utf8Bytes "hello from asdf\nhello world!")⟩ (by decide) hsuite.symm ht.symm

theorem fresh_machine {s : Scenario} {random : Word} {m : Machine} (h : s.machine random = .ok m) :
    m.Fresh := by
  have hbase : (s.basePlan random).Drawn := by
    obtain ⟨plan, hplan⟩ : ∃ plan, Plan.empty.provideAll
        [.slot .testId s.testId, .slot .random random] = .ok plan := ⟨_, rfl⟩
    have hslots := Plan.Drawn.empty.provideAll hplan
    obtain rfl := Except.ok.inj hplan
    exact .register _ _ (.register _ _ (.register _ _ hslots))
  rw [machine] at h
  cases hplan : (s.basePlan random).provideAll (s.suite.provisions random) with
  | error e =>
    rw [hplan] at h
    cases h
  | ok plan =>
    rw [hplan] at h
    obtain rfl := Except.ok.inj h
    exact (hbase.provideAll hplan).fresh

theorem exists_start (s : Scenario) (random : Word) :
    ∃ m start, s.machine random = .ok m ∧ m.boot s.suite.name [] = (start, .ok ()) ∧
      Examination.Opened start ∧ start.Settles (s.required · = true) 1700 := by
  have hsure := s.sure_required random
  rw [sure, opening, ← machine_eq_rig] at hsure
  cases hm : s.machine random with
  | error e =>
    rw [hm] at hsure
    cases hsure
  | ok m =>
    rw [hm] at hsure
    rcases hboot : m.boot s.suite.name [] with ⟨start, e | _⟩
    · simp only [hboot] at hsure
      cases hsure
    · simp only [hboot, Option.any_some] at hsure
      have hfresh := fresh_machine hm
      have hstart : (m.boot s.suite.name []).1 = start := by rw [hboot]
      have hopened : Examination.Opened start := by
        rw [← hstart]
        exact ⟨hfresh.census_boot _ _, endings_boot hfresh.processes _ _, hfresh.judged_boot _ _⟩
      exact ⟨m, start, rfl, hboot, hopened,
        settles_of_certain hopened.census hopened.judged hsure⟩

/-- Whatever the random word, every run of a scenario comes to a report, after fewer than 1700
steps and with nobody waiting in vain before; every report, in whatever order the processes
take their steps, is the one that the catalogue asks for, and so is the grade. -/
theorem examination_answered (s : Scenario) (random : Word) :
    ∃ m start, s.machine random = .ok m ∧ m.boot s.suite.name [] = (start, .ok ()) ∧
      (∀ log m', start.Steps log m' → m'.referee.outcome = none →
        log.length < 1700 ∧ ∃ q m'', m'.step q = some m'') ∧
      (∀ x : Examination start,
        x.waited.referee.settled = true ∨ (∀ q, x.waited.step q = none) → s.Answered x.report) ∧
      ∃ g, s.grade random = .ok g ∧ s.Answered g.report ∧ (s ∈ catalogue → g.mismatch = none) := by
  obtain ⟨m, start, hm, hboot, hopened, hsettles⟩ := s.exists_start random
  refine ⟨m, start, hm, hboot, ?_, ?_, ?_⟩
  · intro log m' hsteps hnone
    exact hsettles.goes_on hopened.judged hsteps hnone
  · intro x hrest
    obtain ⟨shown, hrequired, hreported⟩ := x.shown hsettles hopened hrest
    exact answered_of_required hrequired hreported
  · obtain ⟨report, hrun, shown, hrequired, hreported⟩ :=
      hsettles.run hboot hopened (by decide)
    have hanswered := answered_of_required hrequired hreported
    refine ⟨⟨s, report, s.expectation.mismatch report⟩, ?_, hanswered, ?_⟩
    · rw [grade, hm]
      dsimp only
      rw [hrun]
    · intro hs
      exact (hanswered.listed s hs rfl rfl).2

end Scenario

end KernelExam

import KernelExam.Proofs.Machine.Examination
import Mathlib.Data.List.TakeWhile

/-!
# Runs that come to a report

A machine settles when, in whatever order its processes take their steps, a report is
made after a bounded number of them, with nobody ever waiting in vain before. What the
machine shows then is what every run of it shows in the end.
-/

set_option autoImplicit false

namespace KernelExam

/-- What a report is about. -/
structure Showing where
  outcome : Outcome
  checkpoints : List Word
  stdout : Bytes

def Outcome.verdict : Outcome → Verdict
  | .done => .done
  | .fail => .fail

def Showing.Reported (s : Showing) (report : Report) : Prop :=
  report.verdict = s.outcome.verdict ∧ report.checkpoints = s.checkpoints ∧ report.stdout = s.stdout

namespace Machine

def showing? (m : Machine) : Option Showing :=
  m.referee.outcome.map fun (o, _) => ⟨o, m.referee.checkpoints, m.stdout⟩

/-- In any order, within that many steps, a report is made on something that is wanted. -/
inductive Settles (Q : Showing → Prop) : Nat → Machine → Prop
  | shown {k : Nat} {m : Machine} {s : Showing} : m.showing? = some s → Q s → Settles Q k m
  | step {k : Nat} {m : Machine} : m.referee.outcome = none → (∃ q m', m.step q = some m') →
      (∀ q m', m.step q = some m' → Settles Q k m') → Settles Q (k + 1) m

variable {Q : Showing → Prop} {m m' : Machine} {k : Nat}

theorem showing?_eq_none_iff (m : Machine) : m.showing? = none ↔ m.referee.outcome = none :=
  Option.map_eq_none_iff

theorem Settles.mono (h : m.Settles Q k) {l : Nat} (hle : k ≤ l) : m.Settles Q l := by
  induction h generalizing l with
  | shown hs hq => exact .shown hs hq
  | @step k m hnone hsome _ ih =>
    obtain ⟨l, rfl⟩ := Nat.exists_eq_add_of_le' hle
    rw [← Nat.add_assoc]
    exact .step hnone hsome fun q m' hm => ih q m' hm (Nat.le_add_left k l)

theorem Takes.showing? {pid : Pid} {what : Happening} (h : m.Takes pid what m')
    (hh : m.referee.halted = true) : m'.showing? = m.showing? := by
  cases h with
  | done _ _ => rfl
  | exit _ _ => rfl
  | crash _ _ => rfl
  | halted _ _ _ => rfl
  | noted _ _ => rw [Machine.showing?, setTask_referee, setTask_stdout, Machine.showing?]
  | answered _ _ hrun _ | faulted _ _ hrun _ =>
    rw [hh] at hrun
    cases hrun

theorem Steps.showing? {log : List Event} (h : m.Steps log m') (hh : m.referee.halted = true) :
    m'.showing? = m.showing? := by
  induction h with
  | start => rfl
  | step hr _ ht ih =>
    obtain ⟨hhalted, -, -⟩ := hr.halted hh
    rw [ht.showing? hhalted, ih]

theorem Judged.halted_of_showing? {log : List Event} (h : Judged log m) {s : Showing}
    (hs : m.showing? = some s) : m.referee.halted = true := by
  obtain ⟨made, ho, -⟩ := Option.map_eq_some_iff.mp hs
  rw [h.halted, ← h.outcome, ho]
  rfl

/-- Along a run of a machine that settles, what is wanted is shown or is still to come. -/
theorem Settles.steps {start : Machine} {log : List Event} (h : start.Settles Q k)
    (hj : Judged [] start) (hr : start.Steps log m) :
    (∃ s, m.showing? = some s ∧ Q s) ∨
      m.referee.outcome = none ∧ log.length < k ∧ m.Settles Q (k - log.length) := by
  induction hr with
  | start =>
    cases h with
    | shown hs hq => exact Or.inl ⟨_, hs, hq⟩
    | step hnone hsome hall => exact Or.inr ⟨hnone, Nat.succ_pos _, .step hnone hsome hall⟩
  | @step log m m' pid what hr ha ht ih =>
    rcases ih with ⟨s, hs, hq⟩ | ⟨hnone, hlt, hsettles⟩
    · have hjudged : Judged log m := hj.steps hr
      exact Or.inl ⟨s, (ht.showing? (hjudged.halted_of_showing? hs)).trans hs, hq⟩
    · generalize hl : k - log.length = l at hsettles
      cases hsettles with
      | shown hs _ => rw [(showing?_eq_none_iff m).mpr hnone] at hs; cases hs
      | @step l _ _ _ hall =>
        have hnext := hall pid m' ((step_eq_some_iff m m' pid).mpr ⟨ha, what, ht⟩)
        have hlength : k - (log ++ [(⟨pid, what⟩ : Event)]).length = l := by
          rw [List.length_append, List.length_singleton]
          omega
        rw [hlength]
        cases hnext with
        | shown hs hq => exact Or.inl ⟨_, hs, hq⟩
        | step hnone' hsome' hall' =>
          refine Or.inr ⟨hnone', ?_, .step hnone' hsome' hall'⟩
          omega

theorem Settles.goes_on {start : Machine} {log : List Event}
    (h : start.Settles Q k) (hj : Judged [] start) (hr : start.Steps log m)
    (hnone : m.referee.outcome = none) : log.length < k ∧ ∃ q m', m.step q = some m' := by
  rcases h.steps hj hr with ⟨s, hs, -⟩ | ⟨-, hlt, hsettles⟩
  · rw [(showing?_eq_none_iff m).mpr hnone] at hs
    cases hs
  · generalize k - log.length = l at hsettles
    refine ⟨hlt, ?_⟩
    cases hsettles with
    | shown hs _ =>
      rw [(showing?_eq_none_iff m).mpr hnone] at hs
      cases hs
    | step _ hsome _ => exact hsome

theorem Settles.shown_of_rest (h : m.Settles Q k) (hc : m.Census)
    (hrest : m.referee.settled = true ∨ ∀ q, m.step q = none) : ∃ s, m.showing? = some s ∧ Q s := by
  cases h with
  | shown hs hq => exact ⟨_, hs, hq⟩
  | step hnone hsome _ =>
    obtain ⟨q, m', hq⟩ := hsome
    rcases hrest with hsettled | hstuck
    · rw [Referee.settled, hnone] at hsettled
      have hdead := hc.idle_iff.mp hsettled
      have ha := ((step_eq_some_iff m m' q).mp hq).1
      rw [hdead q] at ha
      cases ha
    · cases (hstuck q).symm.trans hq

theorem Examination.waited_shown {start : Machine} (x : Examination start) (h : start.Settles Q k)
    (ho : Examination.Opened start)
    (hrest : x.waited.referee.settled = true ∨ ∀ q, x.waited.step q = none) :
    ∃ s, x.waited.showing? = some s ∧ Q s := by
  rcases h.steps ho.judged x.wait with hs | ⟨-, -, hsettles⟩
  · exact hs
  · exact hsettles.shown_of_rest (ho.census.run x.wait.run) hrest

theorem Examination.shown {start : Machine} (x : Examination start) (h : start.Settles Q k)
    (ho : Examination.Opened start)
    (hrest : x.waited.referee.settled = true ∨ ∀ q, x.waited.step q = none) :
    ∃ s : Showing, Q s ∧ s.Reported x.report := by
  obtain ⟨s, hs, hq⟩ := x.waited_shown h ho hrest
  have hjudged : Judged x.waitLog x.waited := ho.judged.steps x.wait
  have hlag := x.lag.showing? (hjudged.halted_of_showing? hs)
  have hlast : x.last.showing? = some s := by
    rw [x.shutDown.showing? rfl, ← hs, ← hlag]
    rfl
  obtain ⟨⟨o, pid⟩, houtcome, rfl⟩ := Option.map_eq_some_iff.mp hlast
  refine ⟨_, hq, ?_, rfl, rfl⟩
  rw [report, verdict]
  dsimp only
  rw [houtcome]
  cases o <;> rfl

/-- The machine's own run of a program that settles is an examination of it, with a report
at the end of the wait. -/
theorem Settles.run_examined {program : String} {args : List String} {start : Machine}
    (h : start.Settles Q k) (hboot : m.boot program args = (start, .ok ()))
    (ho : Examination.Opened start) (hk : k ≤ patience) :
    ∃ x : Examination start, x.waited.referee.settled = true ∧
      m.run program args = (x.last, .ok x.report) := by
  obtain ⟨x, hpatient, hrun⟩ := run_of_boot ho.census hboot
  refine ⟨x, ?_, hrun⟩
  rcases hpatient.waited with hsettled | hover
  · exact hsettled
  · rw [Referee.settled]
    cases houtcome : x.waited.referee.outcome with
    | some made => rfl
    | none =>
      obtain ⟨hlt, q, m', hq⟩ := h.goes_on ho.judged x.wait houtcome
      rcases hover with hstuck | hlong
      · cases (hstuck q).symm.trans hq
      · omega

theorem Settles.run {program : String} {args : List String} {start : Machine} (h : start.Settles Q k)
    (hboot : m.boot program args = (start, .ok ())) (ho : Examination.Opened start)
    (hk : k ≤ patience) :
    ∃ report, (m.run program args).2 = .ok report ∧ ∃ s : Showing, Q s ∧ s.Reported report := by
  obtain ⟨x, hsettled, hrun⟩ := h.run_examined hboot ho hk
  exact ⟨x.report, congrArg Prod.snd hrun, x.shown h ho (Or.inl hsettled)⟩

end Machine

end KernelExam

import KernelExam.Proofs.Machine.Census
import KernelExam.Proofs.Machine.Endings
import KernelExam.Proofs.Machine.Frame
import KernelExam.Session

/-!
# What a report says about its run

A run has three parts: processes take steps until the wait is over, they may take some
more until the machine is halted, and then they come to their ends. The report is
made from the last machine and from what ended the wait.
-/

set_option autoImplicit false

namespace KernelExam

def Event.outcome? (e : Event) : Option Outcome :=
  match e.what with
  | .answered c _ => c.outcome?
  | .noted _ => none
  | .ended _ => none

def firstReport (log : List Event) : Option Outcome := log.findSome? Event.outcome?

theorem firstReport_append (first second : List Event) :
    firstReport (first ++ second) = (firstReport first).or (firstReport second) :=
  List.findSome?_append

theorem firstReport_singleton (e : Event) : firstReport [e] = e.outcome? := by
  rw [firstReport, List.findSome?_singleton]

namespace Machine

variable {m m' : Machine} {pid : Pid} {c : Call}

theorem serve_report (m : Machine) (pid : Pid) (o : Outcome) (a0 a1 : Word) :
    m.serve pid (.ask o.request.code a0 a1) = (m.report o pid, .answer 0) := by
  cases o with
  | done => simp only [Outcome.request, serve, ask, Request.ofCode?_code]
  | fail => simp only [Outcome.request, serve, ask, Request.ofCode?_code]

theorem report_first (h : m.referee.outcome = none) (o : Outcome) (pid : Pid) :
    (m.report o pid).referee.outcome = some (o, pid) ∧
      (m.report o pid).referee.halted = true := by
  rw [report, Referee.report, h]
  exact ⟨rfl, rfl⟩

theorem Served.unreported {r : Reaction c.Answer} (h : m.Served pid c m' r)
    (hc : c.outcome? = none) :
    m'.referee.outcome = m.referee.outcome ∧ m'.referee.halted = m.referee.halted := by
  cases h with
  | asked ha =>
    cases ha with
    | reported o r hr =>
      rcases hr with hr | hr
      · obtain ⟨rfl, rfl⟩ := Prod.mk.inj hr
        cases hc
      · obtain ⟨rfl, rfl⟩ := Prod.mk.inj hr
        cases hc
    | _ => exact ⟨rfl, rfl⟩
  | _ => exact ⟨rfl, rfl⟩

theorem outcome?_of_fault {f : Fault} (hs : m.serve pid c = (m', .fault f)) :
    c.outcome? = none := by
  rw [Option.eq_none_iff_forall_ne_some]
  intro o hc
  obtain ⟨a0, a1, rfl⟩ := (c.outcome?_eq_some_iff o).mp hc
  rw [serve_report] at hs
  cases (Prod.mk.inj hs).2

/-- The first report of the log is the referee's outcome, and it alone halts. -/
structure Judged (log : List Event) (m : Machine) : Prop where
  outcome : m.referee.outcome.map Prod.fst = firstReport log
  halted : m.referee.halted = (firstReport log).isSome

variable {log : List Event}

theorem Judged.frame (h : Judged log m) (ho : m'.referee.outcome = m.referee.outcome)
    (hh : m'.referee.halted = m.referee.halted) : Judged log m' :=
  ⟨by rw [ho, h.outcome], by rw [hh, h.halted]⟩

theorem Judged.concat (h : Judged log m) {e : Event} (he : e.outcome? = none) :
    Judged (log ++ [e]) m := by
  have hsame : firstReport (log ++ [e]) = firstReport log := by
    rw [firstReport_append, firstReport_singleton, he, Option.or_none]
  constructor
  · rw [hsame, h.outcome]
  · rw [hsame, h.halted]

theorem Judged.takes {what : Happening} (h : Judged log m) (ht : m.Takes pid what m') :
    Judged (log ++ [⟨pid, what⟩]) m' := by
  cases ht with
  | done _ _ => exact (h.concat rfl).frame rfl rfl
  | exit _ _ => exact (h.concat rfl).frame rfl rfl
  | crash _ _ => exact (h.concat rfl).frame rfl rfl
  | halted _ _ _ => exact (h.concat rfl).frame rfl rfl
  | noted _ _ =>
    apply (h.concat rfl).frame
    · rw [setTask_referee]
    · rw [setTask_referee]
  | @answered t c next m₁ a _ _ hh hs =>
    have hnone : firstReport log = none := by
      have hsome := h.halted
      rw [hh] at hsome
      exact Option.isNone_iff_eq_none.mp (by rw [← Option.not_isSome, ← hsome]; rfl)
    have hserved : Judged (log ++ [⟨pid, .answered c a⟩]) m₁ := by
      cases hc : c.outcome? with
      | none =>
        have he : Event.outcome? ⟨pid, .answered c a⟩ = none := hc
        obtain ⟨ho, hhalt⟩ := (served_of_serve hs).unreported hc
        exact (h.concat he).frame ho hhalt
      | some o =>
        have hlog : firstReport (log ++ [⟨pid, .answered c a⟩]) = some o := by
          rw [firstReport_append, firstReport_singleton, hnone]
          exact hc
        obtain ⟨a0, a1, rfl⟩ := (c.outcome?_eq_some_iff o).mp hc
        rw [serve_report] at hs
        have hm : m.report o pid = m₁ := (Prod.mk.inj hs).1
        have hopen : m.referee.outcome = none := by
          rw [← Option.map_eq_none_iff, h.outcome, hnone]
        obtain ⟨ho, hhalt⟩ := report_first hopen o pid
        constructor
        · rw [hlog, ← hm, ho]
          rfl
        · rw [hlog, ← hm, hhalt]
          rfl
    apply hserved.frame
    · rw [setTask_referee]
    · rw [setTask_referee]
  | @faulted t c next m₁ f _ _ hh hs =>
    obtain ⟨ho, hhalt⟩ := (served_of_serve hs).unreported (outcome?_of_fault hs)
    exact (h.concat rfl).frame ho hhalt

theorem Judged.steps {start : Machine} {before after : List Event} (h : Judged before start)
    (hr : start.Steps after m) : Judged (before ++ after) m := by
  induction hr with
  | start => rwa [List.append_nil]
  | step _ _ ht ih =>
    rw [← List.append_assoc]
    exact ih.takes ht

theorem Steps.halted {start : Machine} (h : start.Steps log m)
    (hh : start.referee.halted = true) :
    m.referee.halted = true ∧ m.referee.outcome = start.referee.outcome ∧
      firstReport log = none := by
  induction h with
  | start => exact ⟨hh, rfl, rfl⟩
  | @step log m m' pid what _ _ ht ih =>
    obtain ⟨hm, ho, hnone⟩ := ih
    have hlog : ∀ {e : Event}, e.outcome? = none → firstReport (log ++ [e]) = none := by
      intro e he
      rw [firstReport_append, firstReport_singleton, hnone, he]
      rfl
    cases ht with
    | done _ _ => exact ⟨hm, ho, hlog rfl⟩
    | exit _ _ => exact ⟨hm, ho, hlog rfl⟩
    | crash _ _ => exact ⟨hm, ho, hlog rfl⟩
    | halted _ _ _ => exact ⟨hm, ho, hlog rfl⟩
    | noted _ _ =>
      rw [setTask_referee]
      exact ⟨hm, ho, hlog rfl⟩
    | answered _ _ hrun _ =>
      rw [hrun] at hm
      cases hm
    | faulted _ _ hrun _ =>
      rw [hrun] at hm
      cases hm

theorem Steps.eq_of_dead {start : Machine} (h : start.Steps log m)
    (hd : ∀ q, start.alive q = false) : log = [] ∧ m = start := by
  induction h with
  | start => exact ⟨rfl, rfl⟩
  | step _ ha _ ih =>
    rw [ih.2, hd] at ha
    cases ha

theorem Changes.length_le {r : Reaction c.Answer} (h : m.Changes pid c m' r) :
    m.processes.slots.length ≤ m'.processes.slots.length := by
  cases h with
  | nothing hs _ _ => rw [hs.length]
  | started hin _ => rw [hin.length]; exact Nat.le_succ _
  | abandoned hin _ => rw [hin.length]; exact Nat.le_succ _
  | joined _ => exact (ProcessTable.length_put ..).ge

theorem Takes.length_le {what : Happening} (h : m.Takes pid what m') :
    m.processes.slots.length ≤ m'.processes.slots.length := by
  have hfinish : ∀ (m : Machine) how, (m.finish pid how).processes.slots.length =
      m.processes.slots.length :=
    fun m how => ProcessTable.length_terminate m.processes pid how
  cases h with
  | answered _ _ _ hs =>
    rw [setTask_processes]
    exact (changes hs).length_le
  | noted _ _ => rw [setTask_processes]
  | faulted _ _ _ hs =>
    rw [hfinish]
    exact (changes hs).length_le
  | done _ _ => rw [hfinish]
  | exit _ _ => rw [hfinish]
  | crash _ _ => rw [hfinish]
  | halted _ _ _ => rw [hfinish]

theorem Steps.length_le {start : Machine} (h : start.Steps log m) :
    start.processes.slots.length ≤ m.processes.slots.length := by
  induction h with
  | start => exact Nat.le_refl _
  | step _ _ ht ih => exact ih.trans ht.length_le

theorem Takes.task?_of_ne {what : Happening} {q : Pid} {t : Task} (h : m.Takes pid what m')
    (hq : q ≠ pid) (ht : m.task? q = some t) : m'.task? q = some t := by
  rcases h.others hq with hsame | ⟨hnone, -⟩
  · exact hsame.trans ht
  · rw [hnone] at ht
    cases ht

theorem Run.exiting {start : Machine} {q : Pid} {t : Task} {status : Word} (h : start.Run log m)
    (ht : start.task? q = some t) (hb : t.body = .exit status) :
    m.task? q = some t ∧ ∀ how, Ended log q how → how = .exited status := by
  induction h with
  | start => exact ⟨ht, by simp [Ended]⟩
  | halt _ ih => exact ih
  | @step log m m' pid what _ _ htake ih =>
    obtain ⟨htask, hends⟩ := ih
    by_cases hq : q = pid
    · subst hq
      cases htake with
      | @exit t' status' ht' hb' =>
        obtain rfl := Option.some.inj (htask.symm.trans ht')
        obtain rfl := Program.exit.inj (hb.symm.trans hb')
        refine ⟨htask, fun how hd => ?_⟩
        rcases (ended_concat ..).mp hd with hd | hd
        · exact hends how hd
        · cases hd
          rfl
      | done ht' hb' | noted ht' hb' | answered ht' hb' _ _ | crash ht' hb' | halted ht' hb' _
      | faulted ht' hb' _ _ =>
        obtain rfl := Option.some.inj (htask.symm.trans ht')
        cases hb.symm.trans hb'
    · refine ⟨htake.task?_of_ne hq htask, fun how hd => ?_⟩
      rcases (ended_concat ..).mp hd with hd | hd
      · exact hends how hd
      · cases hd
        exact absurd rfl hq

theorem Takes.exiting {q : Pid} {t : Task} {a : c.Answer} (h : m.Takes q (.answered c a) m')
    (ht : m.task? q = some t) (hb : t.body = Session.done ∨ t.body = Session.fail) :
    ∃ status t', m'.task? q = some t' ∧ t'.body = .exit status := by
  have hrest : ∀ {c next}, t.body = .call c next → ∃ status, ∀ a, next a = .exit status := by
    intro c next hcall
    rcases hb with hb | hb
    · cases hcall.symm.trans hb
      exact ⟨0, fun _ => rfl⟩
    · cases hcall.symm.trans hb
      exact ⟨1, fun _ => rfl⟩
  cases h with
  | answered ht' hcall _ hs =>
    obtain rfl := Option.some.inj (ht.symm.trans ht')
    obtain ⟨status, hexit⟩ := hrest hcall
    have hkept := (served_of_serve hs).task?_kept ht
    exact ⟨status, _, task?_setTask_self hkept _, hexit a⟩

def Waits (m : Machine) (q : Pid) : Prop :=
  ∃ (t : Task) (c : Call) (next : c.Answer → Program Unit), m.task? q = some t ∧
    t.body = .call c next ∧ m.referee.halted = false ∧ (m.serve q c).2 = .blocked

/-- As far as a machine has come that was halted with everybody waiting: some have been
ended by the halt, the others still wait. -/
structure Winding (stopped m : Machine) : Prop where
  halted : m.referee.halted = true
  task : ∀ q, m.task? q = stopped.task? q
  kin : ∀ q, m.processes.kin? q = stopped.processes.kin? q ∨
    ∃ parent, stopped.processes.kin? q = some (parent, none) ∧
      m.processes.kin? q = some (parent, some .halted)

variable {stopped : Machine}

theorem Winding.alive (h : Winding stopped m) {q : Pid} (ha : m.alive q = true) :
    stopped.alive q = true := by
  obtain ⟨parent, hk⟩ := (alive_iff_kin? m q).mp ha
  rcases h.kin q with hsame | ⟨grand, -, hend⟩
  · rw [hsame] at hk
    exact (alive_iff_kin? stopped q).mpr ⟨parent, hk⟩
  · rw [hend] at hk
    cases hk

theorem Winding.ends {what : Happening} (h : Winding stopped m)
    (hw : ∀ q, stopped.alive q = true → stopped.Waits q) (ha : m.alive pid = true)
    (ht : m.Takes pid what m') : m' = m.finish pid .halted := by
  obtain ⟨t, c, next, htask, hb, -, -⟩ := hw pid (h.alive ha)
  rw [← h.task] at htask
  cases ht with
  | halted _ _ _ => rfl
  | done ht' hb' | noted ht' hb' | exit ht' hb' | crash ht' hb' =>
    obtain rfl := Option.some.inj (htask.symm.trans ht')
    cases hb.symm.trans hb'
  | answered _ _ hh _ | faulted _ _ hh _ =>
    rw [h.halted] at hh
    cases hh

theorem Winding.takes {what : Happening} (h : Winding stopped m)
    (hw : ∀ q, stopped.alive q = true → stopped.Waits q) (ha : m.alive pid = true)
    (ht : m.Takes pid what m') : Winding stopped m' := by
  obtain rfl := h.ends hw ha ht
  obtain ⟨parent, hk⟩ := (alive_iff_kin? m pid).mp ha
  have hkin : ∀ q, (m.finish pid .halted).processes.kin? q =
      if q = pid then some (parent, some .halted) else m.processes.kin? q :=
    fun q => ProcessTable.kin?_terminate q .halted hk
  refine ⟨h.halted, h.task, fun q => ?_⟩
  rw [hkin]
  by_cases hq : q = pid
  · rw [if_pos hq, hq]
    rcases h.kin pid with hsame | ⟨grand, -, hend⟩
    · rw [hk] at hsame
      exact Or.inr ⟨parent, hsame.symm, rfl⟩
    · rw [hk] at hend
      cases hend
  · rw [if_neg hq]
    exact h.kin q

theorem Winding.steps (hw : ∀ q, stopped.alive q = true → stopped.Waits q)
    (h : stopped.halt.Steps log m) : Winding stopped m := by
  induction h with
  | start => exact ⟨rfl, fun _ => rfl, fun _ => Or.inl rfl⟩
  | step _ ha ht ih => exact ih.takes hw ha ht

theorem Winding.length_add (hw : ∀ q, stopped.alive q = true → stopped.Waits q)
    (h : stopped.halt.Steps log m) : log.length + m.living.card = stopped.living.card := by
  induction h with
  | start => exact Nat.zero_add _
  | @step log m m' pid what hr ha ht ih =>
    have hwinding : Winding stopped m := .steps hw hr
    obtain rfl := hwinding.ends hw ha ht
    have hmem : pid ∈ m.living := mem_living.mpr ha
    have hpos : 0 < m.living.card := Finset.card_pos.mpr ⟨pid, hmem⟩
    rw [living_finish .halted ha, Finset.card_erase_of_mem hmem, List.length_append,
      List.length_singleton, ← ih]
    omega

/-- When a halted machine has come to rest, nobody that waited is left. -/
theorem Winding.dead (h : Winding stopped m)
    (hw : ∀ q, stopped.alive q = true → stopped.Waits q) {q : Pid} (hrest : m.step q = none) :
    m.alive q = false := by
  rw [← Bool.not_eq_true]
  intro ha
  obtain ⟨t, c, next, htask, hb, -, -⟩ := hw q (h.alive ha)
  rw [← h.task] at htask
  have hstep := (step_eq_some_iff m _ q).mpr ⟨ha, _, .halted htask hb h.halted⟩
  rw [hrest] at hstep
  cases hstep

structure Fresh (m : Machine) : Prop where
  processes : m.processes = .empty
  tasks : m.tasks = []
  outcome : m.referee.outcome = none
  live : m.referee.live = 0
  halted : m.referee.halted = false

theorem Fresh.census (h : m.Fresh) : m.Census := by
  have hliving : m.living = ∅ := by
    rw [living_eq_empty_iff]
    intro q
    rw [← Bool.not_eq_true, alive_iff_kin?, kin?_empty h.processes]
    nofun
  constructor
  · rw [h.live, hliving, Finset.card_empty]
  · rw [h.tasks, h.processes]
    rfl

theorem Census.boot (h : m.Census) (program : String) (args : List String) :
    (m.boot program args).1.Census := by
  rcases m.boot_cases program args with ⟨hsame, -⟩ | ⟨child, slots, hin, hr⟩
  · exact h.sameKin hsame
  · have hcensus : ({ m with referee := { m.referee with slots } } : Machine).Census :=
      ⟨h.live, h.tasks⟩
    obtain ⟨hnumber, hbound, hkin, hlength, htasks⟩ := hin
    exact hcensus.enters ⟨hnumber, hbound, hkin, hlength, htasks⟩ hr

theorem Fresh.census_boot (h : m.Fresh) (program : String) (args : List String) :
    (m.boot program args).1.Census := h.census.boot program args

theorem Fresh.judged_boot (h : m.Fresh) (program : String) (args : List String) :
    Judged [] (m.boot program args).1 := by
  have hm : Judged [] m := ⟨by rw [h.outcome]; rfl, h.halted⟩
  rcases m.boot_cases program args with ⟨-, slots, hr⟩ | ⟨child, slots, -, hr⟩
  · apply hm.frame
    · rw [hr]
    · rw [hr]
  · apply hm.frame
    · rw [hr]
      rfl
    · rw [hr]
      rfl

end Machine

theorem Plan.Drawn.exists_slots {plan : Plan} (h : plan.Drawn) :
    ∃ slots, plan.referee = { Referee.fresh with slots } := by
  induction h with
  | empty => exact ⟨_, rfl⟩
  | register _ _ _ ih => exact ih
  | @provide plan plan' provision _ hp ih =>
    have hseed : ∀ {path change}, plan.seed path change = .ok plan' →
        plan'.referee = plan.referee := by
      intro path change hs
      rw [Plan.seed] at hs
      split at hs
      · cases hs
      · split at hs
        · cases hs
          rfl
        · cases hs
    obtain ⟨before, hbefore⟩ := ih
    cases provision with
    | slot slot value =>
      obtain rfl := Except.ok.inj hp
      exact ⟨_, by rw [hbefore]; rfl⟩
    | text slot s words =>
      obtain ⟨slots, hslots⟩ := plan.referee.setText_eq slot s words
      rw [Plan.provide] at hp
      split at hp
      · rename_i referee he
        rw [he] at hslots
        obtain rfl := Except.ok.inj hp
        exact ⟨slots, hslots.trans (by rw [hbefore])⟩
      · cases hp
      · cases hp
    | file path contents => exact ⟨before, (hseed hp).trans hbefore⟩
    | folder path => exact ⟨before, (hseed hp).trans hbefore⟩
    | stdin bytes =>
      obtain rfl := Except.ok.inj hp
      exact ⟨before, hbefore⟩
    | lockInit init =>
      obtain rfl := Except.ok.inj hp
      exact ⟨before, hbefore⟩

theorem Plan.Drawn.fresh {plan : Plan} (h : plan.Drawn) : plan.build.Fresh := by
  obtain ⟨slots, hreferee⟩ := h.exists_slots
  have hbuild : plan.build.referee.outcome = none ∧ plan.build.referee.live = 0 ∧
      plan.build.referee.halted = false := by
    rw [build, hreferee]
    cases plan.lockInit <;> exact ⟨rfl, rfl, rfl⟩
  obtain ⟨houtcome, hlive, hhalted⟩ := hbuild
  exact ⟨rfl, rfl, houtcome, hlive, hhalted⟩

namespace Machine

theorem Reachable.census {m : Machine} (h : m.Reachable) : m.Census := by
  induction h with
  | build hp => exact hp.fresh.census
  | boot program args _ ih => exact ih.boot program args
  | run _ hr ih => exact ih.run hr

/-- The parts of a run: up to the end of the wait, from there to the halt, and the rest. -/
structure Examination (start : Machine) where
  waitLog : List Event
  waited : Machine
  wait : start.Steps waitLog waited
  lagLog : List Event
  stopped : Machine
  lag : waited.Steps lagLog stopped
  endLog : List Event
  last : Machine
  shutDown : stopped.halt.Steps endLog last

namespace Examination

variable {start : Machine} (x : Examination start)

def log : List Event := x.waitLog ++ x.lagLog ++ x.endLog

def report : Report :=
  ⟨x.last.verdict x.waited.referee.settled, x.last.referee.checkpoints, x.last.stdout,
    x.last.haltedPids⟩

/-- The run cut nothing off. The wait went on until the test had settled or nobody could go on,
or for a great many steps; the halt came at once; and then the processes went on until none
could, or for a great many steps, but those that the halt found waiting came to their ends. -/
structure Patient : Prop where
  waited : x.waited.referee.settled = true ∨ (∀ q, x.waited.step q = none) ∨
    patience ≤ x.waitLog.length
  prompt : x.lagLog = []
  ended : (∀ q, x.last.step q = none) ∨ x.stopped.tasks.length + patience ≤ x.endLog.length
  woken : (∀ q, x.stopped.alive q = true → x.stopped.Waits q) → ∀ q, x.last.step q = none

/-- Every process ever started had come to its end on its own when the wait was over. -/
def AllEnded : Prop := ∀ q ∈ x.last.pids, ∃ how, how ≠ .halted ∧ Ended x.waitLog q how

/-- The report tells the truth. -/
structure Honest : Prop where
  done : x.report.verdict = .done ↔ firstReport x.log = some .done
  fail : x.report.verdict = .fail ↔ firstReport x.log = some .fail
  exited : x.report.verdict = .exited ↔ firstReport x.log = none ∧ x.AllEnded
  timedOut : x.report.verdict = .timedOut ↔ firstReport x.log = none ∧ ¬ x.AllEnded
  nobody : x.report.verdict = .exited → x.report.halted = []
  blocked : x.report.verdict = .timedOut →
    (∀ q, x.stopped.alive q = true → x.stopped.Waits q) → (∀ q, x.last.step q = none) →
      x.report.halted = x.stopped.pids.filter x.stopped.alive
  ascending : x.report.halted.Pairwise (· < ·)
  mem_halted : ∀ q, q ∈ x.report.halted ↔ Ended x.log q .halted
  /-- Who ended before the machine was halted is not in the list. -/
  earlier : ∀ before, before <+: x.waitLog ++ x.lagLog → firstReport before = none →
    ∀ q how, Ended before q how → q ∉ x.report.halted
  /-- Nor is who made the first report, if the exit that belongs to it was next. -/
  reporter : ∀ before q c a after b t, x.log = before ++ ⟨q, .answered c a⟩ :: after →
    firstReport before = none → c.outcome? ≠ none → start.Steps before b → b.task? q = some t →
      t.body = Session.done ∨ t.body = Session.fail → q ∉ x.report.halted

structure Opened (start : Machine) : Prop where
  census : start.Census
  endings : Endings [] start
  judged : Judged [] start

theorem steps_stopped : start.Steps (x.waitLog ++ x.lagLog) x.stopped := x.wait.trans x.lag

theorem run_last : start.Run x.log x.last := by
  have hstopped : start.Run (x.waitLog ++ x.lagLog) x.stopped.halt := .halt x.steps_stopped.run
  exact hstopped.trans x.shutDown.run

theorem firstReport_log : firstReport x.log = firstReport (x.waitLog ++ x.lagLog) := by
  obtain ⟨-, -, hnone⟩ := x.shutDown.halted rfl
  rw [log, firstReport_append, hnone, Option.or_none]

theorem outcome_last (h : Judged [] start) :
    x.last.referee.outcome.map Prod.fst = firstReport x.log := by
  obtain ⟨-, hsame, -⟩ := x.shutDown.halted rfl
  have hstopped : Judged (x.waitLog ++ x.lagLog) x.stopped := h.steps x.steps_stopped
  rw [hsame, firstReport_log, ← hstopped.outcome]
  rfl

theorem verdict_eq (h : Judged [] start) : x.report.verdict = match firstReport x.log with
    | some .done => .done
    | some .fail => .fail
    | none => if x.waited.referee.settled then .exited else .timedOut := by
  rw [← x.outcome_last h, report, verdict]
  dsimp only
  cases x.last.referee.outcome with
  | none => rfl
  | some made =>
    obtain ⟨o, pid⟩ := made
    cases o <;> rfl

theorem firstReport_waitLog (hnone : firstReport x.log = none) :
    firstReport x.waitLog = none := by
  rw [log, firstReport_append, firstReport_append] at hnone
  simp only [Option.or_eq_none_iff] at hnone
  exact hnone.1.1

theorem ended_before (h : Opened start) {before : List Event} {b : Machine}
    (hb : start.Steps before b) (hnone : firstReport before = none) {q : Pid} :
    ¬ Ended before q .halted := by
  intro hd
  have hendings : Endings before b := h.endings.run hb.run
  have hjudged : Judged before b := h.judged.steps hb
  have hhalted := (hendings.stopped q hd).1
  rw [hjudged.halted, hnone] at hhalted
  cases hhalted

theorem settled_iff (h : Opened start) (hnone : firstReport x.log = none) :
    x.waited.referee.settled = true ↔ ∀ q, x.waited.alive q = false := by
  have houtcome : x.waited.referee.outcome = none := by
    have hjudged : Judged x.waitLog x.waited := h.judged.steps x.wait
    rw [← Option.map_eq_none_iff, hjudged.outcome, x.firstReport_waitLog hnone]
  rw [Referee.settled, houtcome, ← (h.census.run x.wait.run).idle_iff]
  rfl

theorem last_of_dead (hd : ∀ q, x.waited.alive q = false) :
    x.log = x.waitLog ∧ x.last.processes = x.waited.processes ∧ x.last.tasks = x.waited.tasks := by
  obtain ⟨hlag, hstopped⟩ := x.lag.eq_of_dead hd
  have hd' : ∀ q, x.stopped.halt.alive q = false := by
    rw [hstopped]
    exact hd
  obtain ⟨hend, hlast⟩ := x.shutDown.eq_of_dead hd'
  refine ⟨?_, ?_, ?_⟩
  · rw [log, hlag, hend, List.append_nil, List.append_nil]
  · rw [hlast, hstopped]
    rfl
  · rw [hlast, hstopped]
    rfl

theorem allEnded_iff (h : Opened start) (hnone : firstReport x.log = none) :
    x.AllEnded ↔ ∀ q, x.waited.alive q = false := by
  have hendings : Endings x.waitLog x.waited := h.endings.run x.wait.run
  have hlast : x.last.Census := h.census.run x.run_last
  constructor
  · intro hall q
    rw [← Bool.not_eq_true]
    intro ha
    obtain ⟨parent, hk⟩ := (alive_iff_kin? _ q).mp ha
    obtain ⟨hlow, hhigh⟩ := ProcessTable.le_length_of_kin? hk
    have hle : x.waited.processes.slots.length ≤ x.last.processes.slots.length :=
      x.lag.length_le.trans x.shutDown.length_le
    obtain ⟨how, -, hd⟩ := hall q (hlast.mem_pids.mpr ⟨hlow, by omega⟩)
    cases (hendings.ended q parent none hk how).mpr hd
  · intro hd q hq
    obtain ⟨-, hprocesses, -⟩ := x.last_of_dead hd
    rw [hlast.mem_pids, hprocesses] at hq
    have hended : ∃ how, Ended x.waitLog q how := by
      cases hk : x.waited.processes.kin? q with
      | none => exact hendings.gone q hq.1 hq.2 hk
      | some k =>
        obtain ⟨parent, e⟩ := k
        cases e with
        | none =>
          have ha := (alive_iff_kin? _ q).mpr ⟨parent, hk⟩
          rw [hd] at ha
          cases ha
        | some how => exact ⟨how, (hendings.ended q parent _ hk how).mp rfl⟩
    obtain ⟨how, hhow⟩ := hended
    refine ⟨how, ?_, hhow⟩
    rintro rfl
    exact ended_before h x.wait (x.firstReport_waitLog hnone) hhow

theorem mem_halted (h : Opened start) (q : Pid) : q ∈ x.report.halted ↔ Ended x.log q .halted := by
  have hendings : Endings x.log x.last := h.endings.run x.run_last
  show q ∈ x.last.haltedPids ↔ _
  rw [mem_haltedPids]
  constructor
  · rintro ⟨parent, hk⟩
    exact (hendings.ended q parent _ hk .halted).mp rfl
  · intro hd
    exact (hendings.stopped q hd).2

theorem earlier (h : Opened start) {before : List Event}
    (hstart : before <+: x.waitLog ++ x.lagLog) (hnone : firstReport before = none) {q : Pid}
    {how : Termination} (hd : Ended before q how) : q ∉ x.report.halted := by
  obtain ⟨rest, hrest⟩ := hstart
  obtain ⟨b, hb, -⟩ := x.steps_stopped.split hrest.symm
  rw [x.mem_halted h]
  intro hhalted
  have hlog : Ended x.log q how := by
    rw [log, ended_append, ← hrest, ended_append]
    exact Or.inl (Or.inl hd)
  have hendings : Endings x.log x.last := h.endings.run x.run_last
  obtain rfl := hendings.once q how .halted hlog hhalted
  exact ended_before h hb hnone hd

theorem split_of_report {before after : List Event} {e : Event}
    (hlog : x.log = before ++ e :: after) (he : e.outcome? ≠ none) :
    ∃ rest, x.waitLog ++ x.lagLog = before ++ e :: rest ∧ after = rest ++ x.endLog := by
  have hnot : e ∉ x.endLog := by
    intro hmem
    obtain ⟨-, -, hnone⟩ := x.shutDown.halted rfl
    exact he (List.findSome?_eq_none_iff.mp hnone e hmem)
  rw [log] at hlog
  obtain ⟨mid, -, hend⟩ | ⟨mid, hfirst, hrest⟩ := List.append_eq_append_iff.mp hlog
  · rw [hend] at hnot
    simp at hnot
  · cases mid with
    | nil =>
      rw [List.nil_append] at hrest
      rw [← hrest] at hnot
      simp at hnot
    | cons e' rest =>
      obtain ⟨rfl, rfl⟩ := List.cons.inj hrest
      exact ⟨rest, hfirst, rfl⟩

theorem reporter (h : Opened start) {before after : List Event} {q : Pid} {c : Call}
    {a : c.Answer} {b : Machine} {t : Task} (hlog : x.log = before ++ ⟨q, .answered c a⟩ :: after)
    (hnone : firstReport before = none) (hc : c.outcome? ≠ none) (hb : start.Steps before b)
    (ht : b.task? q = some t) (hbody : t.body = Session.done ∨ t.body = Session.fail) :
    q ∉ x.report.halted := by
  obtain ⟨rest, hstopped, rfl⟩ := x.split_of_report hlog hc
  obtain ⟨b', hb', hrest⟩ := x.steps_stopped.split hstopped
  obtain rfl := hb.eq hb'
  obtain ⟨b₁, -, htake, hafter⟩ := hrest.of_cons
  obtain ⟨status, t₁, ht₁, hb₁⟩ := htake.exiting ht hbody
  have hrun : b₁.Run (rest ++ x.endLog) x.last := by
    have hhalt : b₁.Run rest x.stopped.halt := .halt hafter.run
    exact hhalt.trans x.shutDown.run
  obtain ⟨-, hends⟩ := hrun.exiting ht₁ hb₁
  rw [x.mem_halted h]
  intro hd
  rw [hlog, ended_append] at hd
  rcases hd with hd | hd
  · exact ended_before h hb hnone hd
  · obtain ⟨e, he, hend⟩ := hd
    rcases List.mem_cons.mp he with rfl | he
    · exact not_ends_answered hend
    · cases hends .halted ⟨e, he, hend⟩

theorem blocked (h : Opened start) (hverdict : x.report.verdict = .timedOut)
    (hw : ∀ q, x.stopped.alive q = true → x.stopped.Waits q) (hrest : ∀ q, x.last.step q = none) :
    x.report.halted = x.stopped.pids.filter x.stopped.alive := by
  have hwinding : Winding x.stopped x.last := .steps hw x.shutDown
  have hcensus : x.stopped.Census := h.census.run x.steps_stopped.run
  have hnone : firstReport (x.waitLog ++ x.lagLog) = none := by
    rw [x.verdict_eq h.judged, x.firstReport_log] at hverdict
    rw [Option.eq_none_iff_forall_ne_some]
    intro o ho
    rw [ho] at hverdict
    cases o <;> cases hverdict
  have hmem : ∀ q, q ∈ x.report.halted ↔ q ∈ x.stopped.pids.filter x.stopped.alive := by
    intro q
    show q ∈ x.last.haltedPids ↔ _
    rw [mem_haltedPids, List.mem_filter, hcensus.mem_pids]
    constructor
    · rintro ⟨parent, hk⟩
      rcases hwinding.kin q with hsame | ⟨grand, hlive, -⟩
      · rw [hsame] at hk
        have hendings : Endings (x.waitLog ++ x.lagLog) x.stopped := h.endings.run x.steps_stopped.run
        have hd := (hendings.ended q parent _ hk .halted).mp rfl
        exact absurd hd (ended_before h x.steps_stopped hnone)
      · exact ⟨ProcessTable.le_length_of_kin? hlive, (alive_iff_kin? _ q).mpr ⟨grand, hlive⟩⟩
    · rintro ⟨-, ha⟩
      obtain ⟨parent, hk⟩ := (alive_iff_kin? _ q).mp ha
      rcases hwinding.kin q with hsame | ⟨grand, -, hend⟩
      · rw [hk] at hsame
        have halive := (alive_iff_kin? _ q).mpr ⟨parent, hsame⟩
        rw [hwinding.dead hw (hrest q)] at halive
        cases halive
      · exact ⟨grand, hend⟩
  have hleft : x.report.halted.Pairwise (· < ·) := pairwise_haltedPids x.last
  have hright : (x.stopped.pids.filter x.stopped.alive).Pairwise (· < ·) :=
    (pairwise_pids x.stopped).filter _
  exact List.Pairwise.eq_of_mem_iff hleft hright hmem

theorem verdict_cases (h : Opened start) :
    (firstReport x.log = some .done ∧ x.report.verdict = .done) ∨
      (firstReport x.log = some .fail ∧ x.report.verdict = .fail) ∨
      (firstReport x.log = none ∧ x.AllEnded ∧ x.report.verdict = .exited) ∨
      firstReport x.log = none ∧ ¬ x.AllEnded ∧ x.report.verdict = .timedOut := by
  have hverdict := x.verdict_eq h.judged
  rcases hreport : firstReport x.log with _ | o
  · rw [hreport] at hverdict
    dsimp only at hverdict
    by_cases hall : x.AllEnded
    · rw [if_pos ((x.settled_iff h hreport).mpr ((x.allEnded_iff h hreport).mp hall))] at hverdict
      exact Or.inr (Or.inr (Or.inl ⟨rfl, hall, hverdict⟩))
    · rw [if_neg] at hverdict
      · exact Or.inr (Or.inr (Or.inr ⟨rfl, hall, hverdict⟩))
      · intro hsettled
        exact hall ((x.allEnded_iff h hreport).mpr ((x.settled_iff h hreport).mp hsettled))
  · rw [hreport] at hverdict
    cases o with
    | done => exact Or.inl ⟨rfl, hverdict⟩
    | fail => exact Or.inr (Or.inl ⟨rfl, hverdict⟩)

theorem nobody (h : Opened start) (hnone : firstReport x.log = none) (hall : x.AllEnded) :
    x.report.halted = [] := by
  rw [List.eq_nil_iff_forall_not_mem]
  intro q hq
  obtain ⟨hlog, -, -⟩ := x.last_of_dead ((x.allEnded_iff h hnone).mp hall)
  rw [hlog] at hnone
  rw [x.mem_halted h, hlog] at hq
  exact ended_before h x.wait hnone hq

theorem honest (h : Opened start) : x.Honest := by
  have hcases := x.verdict_cases h
  constructor
  · rcases hcases with ⟨hr, hv⟩ | ⟨hr, hv⟩ | ⟨hr, -, hv⟩ | ⟨hr, -, hv⟩ <;> simp [hr, hv]
  · rcases hcases with ⟨hr, hv⟩ | ⟨hr, hv⟩ | ⟨hr, -, hv⟩ | ⟨hr, -, hv⟩ <;> simp [hr, hv]
  · rcases hcases with ⟨hr, hv⟩ | ⟨hr, hv⟩ | ⟨hr, hall, hv⟩ | ⟨hr, hall, hv⟩ <;> simp [hr, hv]
    · exact hall
    · exact hall
  · rcases hcases with ⟨hr, hv⟩ | ⟨hr, hv⟩ | ⟨hr, hall, hv⟩ | ⟨hr, hall, hv⟩ <;> simp [hr, hv]
    · exact hall
    · exact hall
  · intro hexited
    rcases hcases with ⟨-, hv⟩ | ⟨-, hv⟩ | ⟨hr, hall, -⟩ | ⟨-, -, hv⟩
    · cases hv.symm.trans hexited
    · cases hv.symm.trans hexited
    · exact x.nobody h hr hall
    · cases hv.symm.trans hexited
  · exact x.blocked h
  · exact pairwise_haltedPids x.last
  · exact x.mem_halted h
  · intro before hstart hnone q how hd
    exact x.earlier h hstart hnone hd
  · intro before q c a after b t hlog hnone hc hb ht hbody
    exact x.reporter h hlog hnone hc hb ht hbody

end Examination

/-- A machine's own run is one of them, and cuts nothing off. -/
theorem run_of_boot {m start : Machine} {program : String} {args : List String}
    (hc : start.Census) (hboot : m.boot program args = (start, .ok ())) :
    ∃ x : Examination start, x.Patient ∧ m.run program args = (x.last, .ok x.report) := by
  obtain ⟨waitLog, waited, hwaited, hwait, hover⟩ :=
    hc.runUntil (fun m => m.referee.settled) (fun _ => id) patience
  have hhalt : waited.halt.Census := hc.run (.halt hwait.run)
  obtain ⟨endLog, last, hlast, hend, hrest⟩ :=
    hhalt.runUntil (fun _ => false) (fun _ => id) (waited.tasks.length + patience)
  let x : Examination start := ⟨waitLog, waited, hwait, [], waited, .start, endLog, last, hend⟩
  have hrest : (∀ q, x.last.step q = none) ∨
      x.stopped.tasks.length + patience ≤ x.endLog.length := hrest.resolve_left Bool.false_ne_true
  refine ⟨x, ⟨hover, rfl, hrest, ?_⟩, ?_⟩
  · intro hw
    apply hrest.resolve_right
    have hcount : endLog.length + last.living.card = waited.living.card :=
      Winding.length_add hw hend
    have hle := waited.card_living_le
    have htasks := (hc.run hwait.run).tasks
    show ¬ waited.tasks.length + patience ≤ endLog.length
    rw [patience]
    omega
  · have hlast : waited.shutDown = last := hlast
    rw [run, hboot]
    dsimp only
    rw [hwaited, hlast]
    rfl

/-- Every report tells the truth about its run, in whatever order the processes take their
steps and wherever the wait is cut off. The machine's own run is one of these. -/
theorem examination_honest {m : Machine} (hm : m.Fresh) (program : String) (args : List String) :
    (∀ start e, m.boot program args = (start, .error e) →
      m.run program args = (start, .error e)) ∧
    (∀ start, m.boot program args = (start, .ok ()) →
      ∃ x : Examination start, x.Patient ∧ m.run program args = (x.last, .ok x.report)) ∧
    ∀ x : Examination (m.boot program args).1, x.Honest := by
  have h : Examination.Opened (m.boot program args).1 :=
    ⟨hm.census_boot program args, endings_boot hm.processes program args,
      hm.judged_boot program args⟩
  refine ⟨?_, ?_, fun x => x.honest h⟩
  · intro start e hboot
    rw [run, hboot]
  · intro start hboot
    rw [hboot] at h
    exact run_of_boot h.census hboot

def hasty : Plan := Plan.empty.register "p" fun _ args =>
  if args = [] then .call (.exec "p" ["child"]) fun _ => Session.done
  else .call (.ask Request.p.code 0 0) fun _ => .exit 0

theorem examination_honest_hasty : hasty.build.Fresh ∧
    ∃ x : Examination (hasty.build.boot "p" []).1, x.Patient ∧ x.Honest ∧
      hasty.build.run "p" [] = (x.last, .ok x.report) ∧ x.report.verdict = .done ∧
      firstReport x.log = some .done ∧ x.report.halted = [2] ∧ Ended x.log 2 .halted := by
  have hfresh : hasty.build.Fresh := Plan.Drawn.fresh (.register "p" _ .empty)
  obtain ⟨-, hrun, hall⟩ := examination_honest hfresh "p" []
  obtain ⟨x, hpatient, hx⟩ := hrun _ (by rfl)
  have hreport : (hasty.build.run "p" []).2 = .ok ⟨.done, [], [], [2]⟩ := by rfl
  rw [hx] at hreport
  have hreport : x.report = ⟨.done, [], [], [2]⟩ := Except.ok.inj hreport
  have hdone : x.report.verdict = .done := by rw [hreport]
  have hhalted : x.report.halted = [2] := by rw [hreport]
  have hmem : (2 : Pid) ∈ x.report.halted := by
    rw [hhalted]
    exact List.mem_singleton.mpr rfl
  exact ⟨hfresh, x, hpatient, hall x, hx, hdone, (hall x).done.mp hdone, hhalted,
    ((hall x).mem_halted 2).mp hmem⟩

def brief : Plan := Plan.empty.register "p" fun _ _ => .done ()

def mumble : Plan :=
  (Plan.empty.register "p" fun _ _ => .call (.exec "x\x00" []) fun _ => .done ()).register "x\x00"
    fun _ _ => .done ()

/-- Nobody reports and the only process ends on its own, but after the wait has been cut off.
And a process that nothing runs is in no list, although it has not come to its end. -/
theorem examination_cut_short :
    (brief.build.Fresh ∧ ∃ x : Examination (brief.build.boot "p" []).1, firstReport x.log = none ∧
      (∀ q ∈ x.last.pids, Ended x.log q (.exited 0)) ∧ x.report.verdict = .timedOut) ∧
    mumble.build.Fresh ∧ ∃ m, mumble.build.run "p" [] = (m, .ok ⟨.timedOut, [], [], []⟩) ∧
      m.alive 2 = true ∧ ∀ q ∈ m.pids, m.step q = none := by
  refine ⟨⟨Plan.Drawn.fresh (.register "p" _ .empty), ?_⟩,
    Plan.Drawn.fresh (.register "x\x00" _ (.register "p" _ .empty)), ?_⟩
  · have hend : (brief.build.boot "p" []).1.halt.Steps [⟨1, .ended (.exited 0)⟩]
        ((brief.build.boot "p" []).1.halt.finish 1 (.exited 0)) := .step .start rfl (.done rfl rfl)
    refine ⟨⟨[], _, .start, [], _, .start, _, _, hend⟩, rfl, ?_, rfl⟩
    intro q hq
    obtain rfl := List.mem_singleton.mp hq
    exact ⟨_, List.mem_singleton.mpr rfl, rfl⟩
  · refine ⟨(mumble.build.run "p" []).1, Prod.ext rfl (by rfl), by rfl, ?_⟩
    have hpids : (mumble.build.run "p" []).1.pids = [1, 2] := by rfl
    intro q hq
    rw [hpids, List.mem_pair] at hq
    rcases hq with rfl | rfl
    · rfl
    · rfl

end Machine

end KernelExam

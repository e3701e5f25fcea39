import KernelExam.Proofs.Machine.Examination
import KernelExam.Proofs.Machine.Isolation

/-!
# The first outcome freezes the machine

The report that decides a run halts the machine too. From then on processes only leave
notes and come to their ends, whatever order they take their steps in, and what the
machine has to show stays as it is.
-/

set_option autoImplicit false

namespace KernelExam

def Program.end? : Program Unit → Option Termination
  | .done _ => some (.exited 0)
  | .exit status => some (.exited status)
  | .crash => some .exception
  | .call _ _ => some .halted
  | .note _ _ => none

namespace Machine

/-- A machine where at most the ends of processes, and with them their descriptors, are other
than they were. -/
structure Frozen (m m' : Machine) : Prop where
  outcome : m'.referee.outcome = m.referee.outcome
  halted : m'.referee.halted = m.referee.halted
  checkpoints : m'.referee.checkpoints = m.referee.checkpoints
  slots : m'.referee.slots = m.referee.slots
  permits : m'.referee.permits = m.referee.permits
  registry : m'.registry = m.registry
  files : m'.files = m.files
  stdin : m'.stdin = m.stdin
  stdout : m'.stdout = m.stdout
  numbers : m'.processes.slots.length = m.processes.slots.length
  processes : ∀ q, m'.processes.get? q = m.processes.get? q ∨
    ∃ p how, m.processes.get? q = some p ∧ p.termination = none ∧
      m'.processes.get? q = some { p with termination := some how, descriptors := .closed }

structure Departs (m : Machine) (pid : Pid) (how : Termination) (m' : Machine) : Prop where
  frozen : m.Frozen m'
  others : m.processes.Within pid m'.processes
  own : ∃ p, m.processes.get? pid = some p ∧
    m'.processes.get? pid = some { p with termination := some how, descriptors := .closed }
  tasks : m'.tasks = m.tasks

variable {m m' m'' : Machine} {pid : Pid} {log : List Event}

theorem Frozen.refl (m : Machine) : m.Frozen m :=
  ⟨rfl, rfl, rfl, rfl, rfl, rfl, rfl, rfl, rfl, rfl, fun _ => Or.inl rfl⟩

theorem Frozen.trans (h : m.Frozen m') (h' : m'.Frozen m'') : m.Frozen m'' where
  outcome := h'.outcome.trans h.outcome
  halted := h'.halted.trans h.halted
  checkpoints := h'.checkpoints.trans h.checkpoints
  slots := h'.slots.trans h.slots
  permits := h'.permits.trans h.permits
  registry := h'.registry.trans h.registry
  files := h'.files.trans h.files
  stdin := h'.stdin.trans h.stdin
  stdout := h'.stdout.trans h.stdout
  numbers := h'.numbers.trans h.numbers
  processes q := by
    rcases h'.processes q with hsame | ⟨p', how', hp', hlive', hend'⟩
    · rw [hsame]
      exact h.processes q
    · rcases h.processes q with hsame | ⟨p, how, -, -, hend⟩
      · exact Or.inr ⟨p', how', hsame ▸ hp', hlive', hend'⟩
      · obtain rfl := Option.some.inj (hend.symm.trans hp')
        cases hlive'

theorem frozen_setTask (m : Machine) (pid : Pid) (t : Task) : m.Frozen (m.setTask pid t) := by
  rw [setTask]
  split
  · exact ⟨rfl, rfl, rfl, rfl, rfl, rfl, rfl, rfl, rfl, rfl, fun _ => Or.inl rfl⟩
  · exact .refl m

theorem frozen_halt (hh : m.referee.halted = true) : m.Frozen m.halt :=
  ⟨rfl, hh.symm, rfl, rfl, rfl, rfl, rfl, rfl, rfl, rfl, fun _ => Or.inl rfl⟩

theorem departs_finish (ha : m.alive pid = true) (how : Termination) :
    m.Departs pid how (m.finish pid how) := by
  obtain ⟨p, hp, hlive⟩ := (alive_iff m pid).mp ha
  have hown := get?_finish hp hlive how
  have hothers : m.processes.Within pid (m.finish pid how).processes :=
    ProcessTable.within_terminate _ _ _
  refine ⟨⟨rfl, rfl, rfl, rfl, rfl, rfl, rfl, rfl, rfl, hothers.length, fun q => ?_⟩, hothers,
    ⟨p, hp, hown⟩, rfl⟩
  by_cases hq : q = pid
  · exact Or.inr ⟨p, how, hq ▸ hp, hlive, hq ▸ hown⟩
  · exact Or.inl (hothers.others q hq)

/-- A step in a halted machine. -/
theorem Takes.frozen {what : Happening} (hh : m.referee.halted = true) (ha : m.alive pid = true)
    (h : m.Takes pid what m') : m.Frozen m' := by
  cases h with
  | answered _ _ hrun _ | faulted _ _ hrun _ =>
    rw [hrun] at hh
    cases hh
  | noted _ _ => exact frozen_setTask ..
  | done | exit | crash | halted => exact (departs_finish ha _).frozen

theorem Run.frozen (hh : m.referee.halted = true) (h : m.Run log m') : m.Frozen m' := by
  induction h with
  | start => exact .refl m
  | step _ ha ht ih => exact ih.trans (ht.frozen (ih.halted.trans hh) ha)
  | halt _ ih => exact ih.trans (frozen_halt (ih.halted.trans hh))

theorem step_of_end? {t : Task} {how : Termination} (hh : m.referee.halted = true)
    (ha : m.alive pid = true) (ht : m.task? pid = some t) (hend : t.body.end? = some how) :
    m.step pid = some (m.finish pid how) := by
  rw [step_of_task ha ht]
  cases hb : t.body with
  | call c next =>
    rw [hb] at hend
    obtain rfl := Option.some.inj hend
    simp only [advance, hb, hh, if_true]
  | note n next =>
    rw [hb] at hend
    cases hend
  | done _ | exit _ | crash =>
    rw [hb] at hend
    obtain rfl := Option.some.inj hend
    simp only [advance, hb]

/-- A machine that has an outcome is halted. -/
def Sealed (m : Machine) : Prop := m.referee.outcome ≠ none → m.referee.halted = true

theorem Sealed.frame (h : m.Sealed) (ho : m'.referee.outcome = m.referee.outcome)
    (hh : m'.referee.halted = m.referee.halted) : m'.Sealed := by
  rw [Sealed, ho, hh]
  exact h

theorem Sealed.reported {c : Call} {a : c.Answer} {o : Outcome} (h : m.Sealed)
    (ht : m.Takes pid (.answered c a) m') (hc : c.outcome? = some o) :
    m.referee.outcome = none ∧ m'.referee.outcome = some (o, pid) ∧
      m'.referee.halted = true := by
  cases ht with
  | answered _ _ hh hs =>
    have hopen : m.referee.outcome = none := by
      by_contra hsome
      rw [h hsome] at hh
      cases hh
    obtain ⟨a0, a1, rfl⟩ := (c.outcome?_eq_some_iff o).mp hc
    rw [serve_report] at hs
    obtain ⟨rfl, -⟩ := Prod.mk.inj hs
    rw [setTask_referee]
    exact ⟨hopen, report_first hopen o pid⟩

theorem Sealed.takes {what : Happening} (h : m.Sealed) (ht : m.Takes pid what m') :
    m'.Sealed := by
  cases ht with
  | @answered t c next m₁ a htask hb hh hs =>
    cases hc : c.outcome? with
    | none =>
      obtain ⟨ho, hhalt⟩ := (served_of_serve hs).unreported hc
      exact h.frame (by rw [setTask_referee, ho]) (by rw [setTask_referee, hhalt])
    | some o => exact fun _ => (h.reported (.answered htask hb hh hs) hc).2.2
  | noted _ _ => exact h.frame (by rw [setTask_referee]) (by rw [setTask_referee])
  | done | exit | crash | halted => exact h.frame rfl rfl
  | faulted _ _ _ hs =>
    obtain ⟨ho, hhalt⟩ := (served_of_serve hs).unreported (outcome?_of_fault hs)
    exact h.frame ho hhalt

theorem Sealed.run (h : m.Sealed) (hr : m.Run log m') : m'.Sealed := by
  induction hr with
  | start => exact h
  | step _ _ ht ih => exact ih.takes ht
  | halt _ _ => exact fun _ => rfl

theorem Sealed.boot (h : m.Sealed) (program : String) (args : List String) :
    (m.boot program args).1.Sealed := by
  rcases m.boot_cases program args with ⟨-, slots, hr⟩ | ⟨child, slots, -, hr⟩
  · exact h.frame (by rw [hr]) (by rw [hr])
  · exact h.frame (by rw [hr]; rfl) (by rw [hr]; rfl)

theorem Reachable.sealed (h : m.Reachable) : m.Sealed := by
  induction h with
  | build hp => exact fun hsome => absurd hp.fresh.outcome hsome
  | boot program args _ ih => exact ih.boot program args
  | run _ hr ih => exact ih.run hr

theorem Run.unanswered (hh : m.referee.halted = true) (h : m.Run log m') {e : Event}
    (he : e ∈ log) (c : Call) (a : c.Answer) : e.what ≠ .answered c a := by
  intro hwhat
  obtain ⟨before, after, hlog⟩ := List.append_of_mem he
  obtain ⟨b, b', hb, -, ht, -⟩ := h.split hlog
  rw [hwhat] at ht
  cases ht with
  | answered _ _ hrun _ =>
    rw [(hb.frozen hh).halted, hh] at hrun
    cases hrun

theorem Run.unreported {start : Machine} (hstart : start.Sealed) (h : start.Run log m)
    (hh : m.referee.halted = false) {e : Event} (he : e ∈ log) : e.outcome? = none := by
  rw [Option.eq_none_iff_forall_ne_some]
  intro o ho
  obtain ⟨before, after, hlog⟩ := List.append_of_mem he
  obtain ⟨b, b', hb, -, ht, hrest⟩ := h.split hlog
  obtain ⟨q, what⟩ := e
  cases what with
  | answered c a =>
    have hhalted := ((hstart.run hb).reported ht ho).2.2
    rw [(hrest.frozen hhalted).halted, hhalted] at hh
    cases hh
  | noted _ | ended _ => cases ho

/-- A machine in which everybody is on the way to an end, its outcome being `o` by `pid`. -/
structure Concluded (m : Machine) (o : Outcome) (pid : Pid) : Prop where
  outcome : m.referee.outcome = some (o, pid)
  halted : m.referee.halted = true
  /-- The next step of a process ends it and does nothing else, also where it waited. -/
  ends : ∀ q t how, m.alive q = true → m.task? q = some t → t.body.end? = some how →
    m.step q = some (m.finish q how) ∧ m.Departs q how (m.finish q how)
  /-- Unless it is a note, which reaches nobody. -/
  notes : ∀ q t n next, m.alive q = true → m.task? q = some t → t.body = .note n next →
    m.step q = some (m.setTask q { t with body := next, notes := t.notes ++ [n] })

theorem concluded {o : Outcome} (ho : m.referee.outcome = some (o, pid))
    (hh : m.referee.halted = true) : m.Concluded o pid where
  outcome := ho
  halted := hh
  ends _ _ how ha ht hend := ⟨step_of_end? hh ha ht hend, departs_finish ha how⟩
  notes q t n next ha ht hb := by
    rw [step_of_task ha ht]
    simp only [advance, hb]

/-- The first report of an outcome freezes the machine: whatever steps come after it, no call
is answered, what there is to show stays the same, and processes only come to their ends. -/
theorem outcome_freezes {start m : Machine} {before after : List Event} {p : Pid} {c : Call}
    {a : c.Answer} {o : Outcome} (hstart : start.Reachable)
    (hr : start.Run (before ++ ⟨p, .answered c a⟩ :: after) m) (hc : c.outcome? = some o) :
    (∀ e ∈ before, e.outcome? = none) ∧ (∀ e ∈ after, ∀ c a, e.what ≠ .answered c a) ∧
    ∃ b b', start.Run before b ∧ b.Takes p (.answered c a) b' ∧ b'.Run after m ∧
      b.referee.outcome = none ∧ b'.Concluded o p ∧ b'.Frozen m ∧ m.Concluded o p := by
  obtain ⟨b, b', hb, -, ht, hrest⟩ := hr.split rfl
  have hrun : b.referee.halted = false := by
    cases ht with
    | answered _ _ hh _ => exact hh
  obtain ⟨hopen, ho, hh⟩ := (hstart.sealed.run hb).reported ht hc
  have hfrozen := hrest.frozen hh
  exact ⟨fun _ he => hb.unreported hstart.sealed hrun he,
    fun _ he c a => hrest.unanswered hh he c a, b, b', hb, ht, hrest, hopen, concluded ho hh,
    hfrozen, concluded (hfrozen.outcome.trans ho) (hfrozen.halted.trans hh)⟩

def bystander : Machine := ((Plan.empty.register "p" fun _ args =>
  if args = [] then
    .call (.exec "p" ["child"]) fun _ => .call (.ask Request.done.code 0 0) fun _ => .exit 0
  else .call (.ask Request.p.code 3 0) fun _ => .exit 5).build.boot "p" []).1

def bystanderLog : List Event :=
  [⟨1, .answered (.exec "p" ["child"]) (2 : Word)⟩,
    ⟨1, .answered (.ask Request.done.code 0 0) (0 : Word)⟩]

theorem bystander_run : ∃ m t, bystander.Run bystanderLog m ∧ m.alive 2 = true ∧
    m.task? 2 = some t ∧ t.body.end? = some .halted :=
  ⟨_, _, .step (.step .start rfl (.answered rfl rfl rfl rfl)) rfl (.answered rfl rfl rfl rfl),
    rfl, rfl, rfl⟩

theorem outcome_freezes_bystander : ∃ m, bystander.Run bystanderLog m ∧
    m.referee.outcome = some (.done, 1) ∧ m.step 2 = some (m.finish 2 .halted) := by
  have hstart : bystander.Reachable := .boot "p" [] (.build (.register "p" _ .empty))
  obtain ⟨m, t, hr, ha, ht, hend⟩ := bystander_run
  have hlog : bystanderLog = bystanderLog.take 1 ++
      ⟨1, .answered (.ask Request.done.code 0 0) (0 : Word)⟩ :: [] := rfl
  obtain ⟨-, -, b, b', -, -, -, -, -, -, hm⟩ := outcome_freezes (o := .done) hstart (hlog ▸ hr) rfl
  exact ⟨m, hr, hm.outcome, (hm.ends 2 t .halted ha ht hend).1⟩

end Machine

end KernelExam

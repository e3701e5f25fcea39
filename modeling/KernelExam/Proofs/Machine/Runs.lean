import KernelExam.Machine.Plan
import KernelExam.Proofs.Machine.Served

/-!
# Runs

A step of a process is one of few things: a call answered, a note left, or an
end. A run is any number of steps of any processes in any order, the halt of the
machine at any point included; its log says who did what.
-/

set_option autoImplicit false

namespace KernelExam

inductive Happening where
  | answered (c : Call) (a : c.Answer)
  | noted (n : Note)
  | ended (how : Termination)

structure Event where
  pid : Pid
  what : Happening

structure Reply where
  call : Call
  answer : call.Answer

def Event.replyTo? (pid : Pid) (e : Event) : Option Reply :=
  match e.what with
  | .answered c a => if e.pid = pid then some ⟨c, a⟩ else none
  | .noted _ => none
  | .ended _ => none

theorem Event.replyTo?_eq_some_iff (pid : Pid) (e : Event) (r : Reply) :
    e.replyTo? pid = some r ↔ e = ⟨pid, .answered r.call r.answer⟩ := by
  obtain ⟨p, what⟩ := e
  cases what with
  | noted n => simp [replyTo?]
  | ended how => simp [replyTo?]
  | answered c a =>
    constructor
    · intro h
      simp only [replyTo?] at h
      split at h
      · rename_i hp
        obtain rfl := Option.some.inj h
        rw [hp]
      · cases h
    · rintro ⟨⟩
      simp [replyTo?]

def repliesTo (pid : Pid) (log : List Event) : List Reply := log.filterMap (Event.replyTo? pid)

theorem repliesTo_append (pid : Pid) (log log' : List Event) :
    repliesTo pid (log ++ log') = repliesTo pid log ++ repliesTo pid log' := List.filterMap_append

theorem repliesTo_ended (q : Pid) (log : List Event) (pid : Pid) (how : Termination) :
    repliesTo q (log ++ [⟨pid, .ended how⟩]) = repliesTo q log := by
  rw [repliesTo_append]
  exact List.append_nil _

theorem exists_of_repliesTo {pid : Pid} {log : List Event} {earlier later : List Reply} {r : Reply}
    (h : repliesTo pid log = earlier ++ r :: later) :
    ∃ before after, log = before ++ ⟨pid, .answered r.call r.answer⟩ :: after ∧
      repliesTo pid before = earlier ∧ repliesTo pid after = later := by
  obtain ⟨first, second, rfl, hfirst, hsecond⟩ := List.filterMap_eq_append_iff.mp h
  obtain ⟨mid, e, after, rfl, hmid, he, hafter⟩ := List.filterMap_eq_cons_iff.mp hsecond
  obtain rfl := (Event.replyTo?_eq_some_iff pid e r).mp he
  refine ⟨first ++ mid, after, (List.append_assoc ..).symm, ?_, hafter⟩
  have hnone : repliesTo pid mid = [] := List.filterMap_eq_nil_iff.mpr hmid
  rw [repliesTo_append, hnone, List.append_nil]
  exact hfirst

namespace Machine

/-- What a process does next, and the machine after it. -/
inductive Takes (m : Machine) (pid : Pid) : Happening → Machine → Prop
  | answered {t : Task} {c : Call} {next : c.Answer → Program Unit} {m' : Machine} {a : c.Answer} :
      m.task? pid = some t → t.body = .call c next → m.referee.halted = false →
      m.serve pid c = (m', .answer a) →
      Takes m pid (.answered c a) (m'.setTask pid { t with body := next a })
  | noted {t : Task} {n : Note} {next : Program Unit} :
      m.task? pid = some t → t.body = .note n next →
      Takes m pid (.noted n) (m.setTask pid { t with body := next, notes := t.notes ++ [n] })
  | done {t : Task} : m.task? pid = some t → t.body = .done () →
      Takes m pid (.ended (.exited 0)) (m.finish pid (.exited 0))
  | exit {t : Task} {status : Word} : m.task? pid = some t → t.body = .exit status →
      Takes m pid (.ended (.exited status)) (m.finish pid (.exited status))
  | crash {t : Task} : m.task? pid = some t → t.body = .crash →
      Takes m pid (.ended .exception) (m.finish pid .exception)
  | halted {t : Task} {c : Call} {next : c.Answer → Program Unit} :
      m.task? pid = some t → t.body = .call c next → m.referee.halted = true →
      Takes m pid (.ended .halted) (m.finish pid .halted)
  | faulted {t : Task} {c : Call} {next : c.Answer → Program Unit} {m' : Machine} {f : Fault} :
      m.task? pid = some t → t.body = .call c next → m.referee.halted = false →
      m.serve pid c = (m', .fault f) →
      Takes m pid (.ended .exception) (m'.finish pid .exception)

theorem Takes.advance {m m' : Machine} {pid : Pid} {what : Happening} (h : m.Takes pid what m') :
    ∃ t, m.task? pid = some t ∧ m.advance pid t = some m' := by
  cases h with
  | answered ht hb hh hs => exact ⟨_, ht, by simp [Machine.advance, hb, hh, hs]⟩
  | noted ht hb => exact ⟨_, ht, by simp [Machine.advance, hb]⟩
  | done ht hb => exact ⟨_, ht, by simp [Machine.advance, hb]⟩
  | exit ht hb => exact ⟨_, ht, by simp [Machine.advance, hb]⟩
  | crash ht hb => exact ⟨_, ht, by simp [Machine.advance, hb]⟩
  | halted ht hb hh => exact ⟨_, ht, by simp [Machine.advance, hb, hh]⟩
  | faulted ht hb hh hs => exact ⟨_, ht, by simp [Machine.advance, hb, hh, hs]⟩

theorem takes_of_advance {m m' : Machine} {pid : Pid} {t : Task} (ht : m.task? pid = some t)
    (h : m.advance pid t = some m') : ∃ what, m.Takes pid what m' := by
  rw [advance] at h
  cases hb : t.body with
  | done u =>
    rw [hb] at h
    obtain rfl := Option.some.inj h
    exact ⟨_, .done ht hb⟩
  | exit status =>
    rw [hb] at h
    obtain rfl := Option.some.inj h
    exact ⟨_, .exit ht hb⟩
  | crash =>
    rw [hb] at h
    obtain rfl := Option.some.inj h
    exact ⟨_, .crash ht hb⟩
  | note n next =>
    rw [hb] at h
    obtain rfl := Option.some.inj h
    exact ⟨_, .noted ht hb⟩
  | call c next =>
    simp only [hb] at h
    by_cases hh : m.referee.halted
    · rw [if_pos hh] at h
      obtain rfl := Option.some.inj h
      exact ⟨_, .halted ht hb hh⟩
    · rw [if_neg hh] at h
      have hrun : m.referee.halted = false := by simpa using hh
      rcases hs : m.serve pid c with ⟨m₁, a | _ | f⟩
      · simp only [hs] at h
        obtain rfl := Option.some.inj h
        exact ⟨_, .answered ht hb hrun hs⟩
      · simp only [hs] at h
        cases h
      · simp only [hs] at h
        obtain rfl := Option.some.inj h
        exact ⟨_, .faulted ht hb hrun hs⟩

/-- Who is alive takes exactly the steps that its program has next. -/
theorem step_eq_some_iff (m m' : Machine) (pid : Pid) :
    m.step pid = some m' ↔ m.alive pid = true ∧ ∃ what, m.Takes pid what m' := by
  rw [step]
  by_cases ha : m.alive pid
  · rw [if_pos ha, Option.bind_eq_some_iff]
    constructor
    · rintro ⟨t, ht, h⟩
      exact ⟨ha, takes_of_advance ht h⟩
    · rintro ⟨-, what, h⟩
      exact h.advance
  · rw [if_neg ha]
    simp [ha]

section Step

variable {m : Machine} {pid : Pid} {t : Task} (ha : m.alive pid = true) (ht : m.task? pid = some t)
include ha ht

theorem step_of_task : m.step pid = m.advance pid t := by
  rw [step, if_pos ha, ht, Option.bind_some]

theorem step_of_call {c : Call} {next : c.Answer → Program Unit} (hb : t.body = .call c next)
    (hh : m.referee.halted = false) :
    m.step pid = match m.serve pid c with
      | (m', .answer a) => some (m'.setTask pid { t with body := next a })
      | (_, .blocked) => none
      | (m', .fault _) => some (m'.finish pid .exception) := by
  rw [step_of_task ha ht]
  rcases hs : m.serve pid c with ⟨m', a | _ | f⟩
  · simp only [Machine.advance, hb, hh, Bool.false_eq_true, if_false, hs]
  · simp only [Machine.advance, hb, hh, Bool.false_eq_true, if_false, hs]
  · simp only [Machine.advance, hb, hh, Bool.false_eq_true, if_false, hs]

theorem step_of_call_halted {c : Call} {next : c.Answer → Program Unit}
    (hb : t.body = .call c next) (hh : m.referee.halted = true) :
    m.step pid = some (m.finish pid .halted) := by
  rw [step_of_task ha ht]
  simp only [Machine.advance, hb, hh, if_true]

end Step

section Call

variable {m m' m₁ : Machine} {pid : Pid} {t : Task} {c : Call} {next : c.Answer → Program Unit}
  {what : Happening} (ht : m.task? pid = some t) (hb : t.body = .call c next)
  (hh : m.referee.halted = false)
include ht hb hh

theorem Takes.of_call (h : m.Takes pid what m') :
    (∃ m₁ a, m.serve pid c = (m₁, .answer a) ∧ what = .answered c a ∧
      m' = m₁.setTask pid { t with body := next a }) ∨
    ∃ m₁ f, m.serve pid c = (m₁, .fault f) ∧ what = .ended .exception ∧
      m' = m₁.finish pid .exception := by
  cases h with
  | answered ht' hb' _ hs =>
    obtain rfl := Option.some.inj (ht.symm.trans ht')
    cases hb.symm.trans hb'
    exact Or.inl ⟨_, _, hs, rfl, rfl⟩
  | faulted ht' hb' _ hs =>
    obtain rfl := Option.some.inj (ht.symm.trans ht')
    cases hb.symm.trans hb'
    exact Or.inr ⟨_, _, hs, rfl, rfl⟩
  | halted _ _ hh' => cases hh.symm.trans hh'
  | noted ht' hb' | done ht' hb' | exit ht' hb' | crash ht' hb' =>
    obtain rfl := Option.some.inj (ht.symm.trans ht')
    cases hb.symm.trans hb'

theorem takes_iff_of_answer {a : c.Answer} (hs : m.serve pid c = (m₁, .answer a)) :
    m.Takes pid what m' ↔
      what = .answered c a ∧ m' = m₁.setTask pid { t with body := next a } := by
  constructor
  · intro h
    obtain ⟨_, _, hs', rfl, rfl⟩ | ⟨_, _, hs', -⟩ := h.of_call ht hb hh
    · cases hs.symm.trans hs'
      exact ⟨rfl, rfl⟩
    · cases hs.symm.trans hs'
  · rintro ⟨rfl, rfl⟩
    exact .answered ht hb hh hs

theorem takes_iff_of_fault {f : Fault} (hs : m.serve pid c = (m₁, .fault f)) :
    m.Takes pid what m' ↔ what = .ended .exception ∧ m' = m₁.finish pid .exception := by
  constructor
  · intro h
    obtain ⟨_, _, hs', -⟩ | ⟨_, _, hs', rfl, rfl⟩ := h.of_call ht hb hh
    · cases hs.symm.trans hs'
    · cases hs.symm.trans hs'
      exact ⟨rfl, rfl⟩
  · rintro ⟨rfl, rfl⟩
    exact .faulted ht hb hh hs

end Call

/-- A run and its log, the latest event last. -/
inductive Run (start : Machine) : List Event → Machine → Prop
  | start : Run start [] start
  | step {log : List Event} {m m' : Machine} {pid : Pid} {what : Happening} :
      Run start log m → m.alive pid = true → m.Takes pid what m' →
      Run start (log ++ [⟨pid, what⟩]) m'
  | halt {log : List Event} {m : Machine} : Run start log m → Run start log m.halt

theorem Run.trans {a b c : Machine} {first second : List Event} (hab : a.Run first b)
    (hbc : b.Run second c) : a.Run (first ++ second) c := by
  induction hbc with
  | start => simpa using hab
  | step _ ha ht ih =>
    rw [← List.append_assoc]
    exact .step ih ha ht
  | halt _ ih => exact .halt ih

theorem exists_run_cons_and {m m₁ : Machine} {pid : Pid} {what : Happening} {log : List Event}
    {P : Machine → Prop} (ha : m.alive pid = true) (ht : m.Takes pid what m₁)
    (h : ∃ m', m₁.Run log m' ∧ P m') : ∃ m', m.Run (⟨pid, what⟩ :: log) m' ∧ P m' := by
  obtain ⟨m', hrest, hp⟩ := h
  have hfirst : m.Run [⟨pid, what⟩] m₁ := .step .start ha ht
  exact ⟨m', hfirst.trans hrest, hp⟩

theorem exists_run_cons {m m₁ : Machine} {pid : Pid} {what : Happening} {log : List Event}
    (ha : m.alive pid = true) (ht : m.Takes pid what m₁) (h : ∃ m', m₁.Run log m') :
    ∃ m', m.Run (⟨pid, what⟩ :: log) m' := by
  obtain ⟨m', hrest⟩ := h
  obtain ⟨m', hrun, -⟩ := exists_run_cons_and (P := fun _ => True) ha ht ⟨m', hrest, trivial⟩
  exact ⟨m', hrun⟩

theorem Run.split {a c : Machine} {log first second : List Event} {e : Event} (h : a.Run log c)
    (hlog : log = first ++ e :: second) :
    ∃ b b', a.Run first b ∧ b.alive e.pid = true ∧ b.Takes e.pid e.what b' ∧ b'.Run second c := by
  induction h generalizing second with
  | start => simp at hlog
  | @step log m m' pid what hr ha ht ih =>
    rcases List.eq_nil_or_concat second with rfl | ⟨second, last, rfl⟩
    · obtain ⟨rfl, he⟩ := List.append_inj' hlog rfl
      obtain rfl := List.singleton_inj.mp he
      exact ⟨m, m', hr, ha, ht, .start⟩
    · rw [List.concat_eq_append, ← List.cons_append, ← List.append_assoc] at hlog
      rw [List.concat_eq_append]
      obtain ⟨rfl, he⟩ := List.append_inj' hlog rfl
      obtain rfl := List.singleton_inj.mp he
      obtain ⟨b, b', hfirst, halive, hmid, hrest⟩ := ih rfl
      exact ⟨b, b', hfirst, halive, hmid, .step hrest ha ht⟩
  | halt _ ih =>
    obtain ⟨b, b', hfirst, halive, hmid, hrest⟩ := ih hlog
    exact ⟨b, b', hfirst, halive, hmid, .halt hrest⟩

/-- Up to the next answer that a process gets, it gets none. -/
theorem Run.next_reply {a c : Machine} {log : List Event} {pid : Pid} {r : Reply}
    {rest : List Reply} (h : a.Run log c) (hr : repliesTo pid log = r :: rest) :
    ∃ mid b b', a.Run mid b ∧ repliesTo pid mid = [] ∧
      b.Takes pid (.answered r.call r.answer) b' := by
  have hfirst : repliesTo pid log = [] ++ r :: rest := hr
  obtain ⟨mid, tail, hlog, hmid, -⟩ := exists_of_repliesTo hfirst
  obtain ⟨b, b', hwait, -, htake, -⟩ := h.split hlog
  exact ⟨mid, b, b', hwait, hmid, htake⟩

/-- A run with an account of it, put together from what `f` makes of each event and the machine
before it. -/
inductive Chronicle {α : Type} (f : Machine → Event → List α) (start : Machine) :
    List Event → List α → Machine → Prop
  | start : Chronicle f start [] [] start
  | step {log : List Event} {account : List α} {m m' : Machine} {pid : Pid} {what : Happening} :
      Chronicle f start log account m → m.alive pid = true → m.Takes pid what m' →
      Chronicle f start (log ++ [⟨pid, what⟩]) (account ++ f m ⟨pid, what⟩) m'
  | halt {log : List Event} {account : List α} {m : Machine} :
      Chronicle f start log account m → Chronicle f start log account m.halt

section Chronicle

variable {α : Type} {f : Machine → Event → List α} {start m : Machine} {log : List Event}

theorem Chronicle.run {account : List α} (h : Chronicle f start log account m) :
    start.Run log m := by
  induction h with
  | start => exact .start
  | step _ ha ht ih => exact .step ih ha ht
  | halt _ ih => exact .halt ih

theorem Run.exists_chronicle (f : Machine → Event → List α) (h : start.Run log m) :
    ∃ account, Chronicle f start log account m := by
  induction h with
  | start => exact ⟨[], .start⟩
  | step _ ha ht ih =>
    obtain ⟨account, hc⟩ := ih
    exact ⟨_, .step hc ha ht⟩
  | halt _ ih =>
    obtain ⟨account, hc⟩ := ih
    exact ⟨account, .halt hc⟩

end Chronicle

/-- A run in which nobody halts the machine from outside. -/
inductive Steps (start : Machine) : List Event → Machine → Prop
  | start : Steps start [] start
  | step {log : List Event} {m m' : Machine} {pid : Pid} {what : Happening} :
      Steps start log m → m.alive pid = true → m.Takes pid what m' →
      Steps start (log ++ [⟨pid, what⟩]) m'

theorem Steps.run {a b : Machine} {log : List Event} (h : a.Steps log b) : a.Run log b := by
  induction h with
  | start => exact .start
  | step _ ha ht ih => exact .step ih ha ht

theorem Steps.trans {a b c : Machine} {first second : List Event} (hab : a.Steps first b)
    (hbc : b.Steps second c) : a.Steps (first ++ second) c := by
  induction hbc with
  | start => simpa using hab
  | step _ ha ht ih =>
    rw [← List.append_assoc]
    exact .step ih ha ht

theorem Steps.split {a c : Machine} {log first second : List Event} (h : a.Steps log c)
    (hlog : log = first ++ second) : ∃ b, a.Steps first b ∧ b.Steps second c := by
  induction h generalizing second with
  | start =>
    obtain ⟨rfl, rfl⟩ := List.append_eq_nil_iff.mp hlog.symm
    exact ⟨a, .start, .start⟩
  | @step log m m' pid what hr ha ht ih =>
    rcases List.eq_nil_or_concat second with rfl | ⟨second, last, rfl⟩
    · rw [List.append_nil] at hlog
      exact ⟨m', hlog ▸ .step hr ha ht, .start⟩
    · rw [List.concat_eq_append, ← List.append_assoc] at hlog
      rw [List.concat_eq_append]
      obtain ⟨rfl, he⟩ := List.append_inj' hlog rfl
      obtain rfl := List.singleton_inj.mp he
      obtain ⟨b, hfirst, hrest⟩ := ih rfl
      exact ⟨b, hfirst, .step hrest ha ht⟩

theorem Steps.of_nil {a b : Machine} (h : a.Steps [] b) : b = a := by
  generalize hlog : ([] : List Event) = log at h
  cases h with
  | start => rfl
  | step _ _ _ => simp at hlog

theorem Steps.of_concat {a c : Machine} {log : List Event} {e : Event}
    (h : a.Steps (log ++ [e]) c) :
    ∃ b, a.Steps log b ∧ b.alive e.pid = true ∧ b.Takes e.pid e.what c := by
  generalize hlog : log ++ [e] = whole at h
  cases h with
  | start => simp at hlog
  | step hr ha ht =>
    obtain ⟨rfl, he⟩ := List.append_inj' hlog rfl
    obtain rfl := List.singleton_inj.mp he
    exact ⟨_, hr, ha, ht⟩

theorem Steps.of_cons {a c : Machine} {log : List Event} {e : Event} (h : a.Steps (e :: log) c) :
    ∃ b, a.alive e.pid = true ∧ a.Takes e.pid e.what b ∧ b.Steps log c := by
  have hcons : e :: log = ([] ++ [e]) ++ log := rfl
  obtain ⟨b, hfirst, hrest⟩ := h.split hcons
  obtain ⟨a', hnone, ha, ht⟩ := hfirst.of_concat
  obtain rfl := hnone.of_nil
  exact ⟨b, ha, ht, hrest⟩

theorem Steps.eq {a b c : Machine} {log : List Event} (hb : a.Steps log b) (hc : a.Steps log c) :
    b = c := by
  induction log generalizing a with
  | nil => rw [hb.of_nil, hc.of_nil]
  | cons e log ih =>
    obtain ⟨a₁, ha, ht, hb⟩ := hb.of_cons
    obtain ⟨a₂, -, ht', hc⟩ := hc.of_cons
    have hstep := (step_eq_some_iff _ _ _).mpr ⟨ha, _, ht⟩
    have hstep' := (step_eq_some_iff _ _ _).mpr ⟨ha, _, ht'⟩
    obtain rfl := Option.some.inj (hstep.symm.trans hstep')
    exact ih hb hc

theorem steps_turn (stop : Machine → Bool) (pid : Pid) (n : Nat) (m : Machine) :
    ∃ log, m.Steps log (turn stop pid n m) := by
  induction n generalizing m with
  | zero => exact ⟨[], .start⟩
  | succ n ih =>
    rw [turn]
    split
    · exact ⟨[], .start⟩
    · split
      · rename_i m' hs
        obtain ⟨ha, what, ht⟩ := (step_eq_some_iff m m' pid).mp hs
        obtain ⟨log, hrest⟩ := ih m'
        exact ⟨_, Steps.trans (.step .start ha ht) hrest⟩
      · exact ⟨[], .start⟩

theorem run_turn (stop : Machine → Bool) (pid : Pid) (n : Nat) (m : Machine) :
    ∃ log, m.Run log (turn stop pid n m) := by
  obtain ⟨log, h⟩ := steps_turn stop pid n m
  exact ⟨log, h.run⟩

theorem steps_turn_succ {stop : Machine → Bool} {pid : Pid} {m m' : Machine}
    (hgoing : ¬ stop m = true) (hs : m.step pid = some m') (n : Nat) :
    ∃ log, m.Steps log (turn stop pid (n + 1) m) ∧ 0 < log.length := by
  obtain ⟨ha, what, ht⟩ := (step_eq_some_iff m m' pid).mp hs
  obtain ⟨log, hrest⟩ := steps_turn stop pid n m'
  have hone : m.Steps [⟨pid, what⟩] m' := .step .start ha ht
  rw [turn, if_neg hgoing, hs]
  exact ⟨_, hone.trans hrest, Nat.succ_pos log.length⟩

end Machine

inductive Plan.Drawn : Plan → Prop
  | empty : Drawn .empty
  | register {plan : Plan} (name : String) (image : Image) : plan.Drawn →
      Drawn (plan.register name image)
  | provide {plan plan' : Plan} {provision : Provision} : plan.Drawn →
      plan.provide provision = .ok plan' → Drawn plan'

theorem Plan.Drawn.provideAll {plan plan' : Plan} {provisions : List Provision} (h : plan.Drawn)
    (hp : plan.provideAll provisions = .ok plan') : plan'.Drawn := by
  induction provisions generalizing plan with
  | nil =>
    obtain rfl := Except.ok.inj hp
    exact h
  | cons provision rest ih =>
    rw [Plan.provideAll] at hp
    split at hp
    · rename_i plan₁ hone
      exact ih (h.provide hone) hp
    · cases hp

/-- Machines that a plan, a boot and any run lead to. -/
inductive Machine.Reachable : Machine → Prop
  | build {plan : Plan} : plan.Drawn → Reachable plan.build
  | boot {m : Machine} (program : String) (args : List String) : m.Reachable →
      Reachable (m.boot program args).1
  | run {m m' : Machine} {log : List Event} : m.Reachable → m.Run log m' → Reachable m'

namespace Machine

theorem boot_launched (m : Machine) (program : String) (args : List String) :
    ∃ booted referee, (referee = m.referee ∨
        referee = (m.referee.setText .shellProgram program Slot.shellProgramWords).1) ∧
      ((m.boot program args).1 = { m with booted, referee } ∨
        ∃ r, Launched { m with booted, referee } none program args (m.boot program args).1 r) := by
  rw [boot]
  split
  · exact ⟨m.booted, m.referee, Or.inl rfl, Or.inl rfl⟩
  · dsimp only
    split
    · exact ⟨true, m.referee, Or.inl rfl, Or.inl rfl⟩
    · exact ⟨true, m.referee, Or.inl rfl, Or.inl rfl⟩
    · rename_i referee hset
      have hl := launched { m with booted := true, referee } none program args
      refine ⟨true, referee, Or.inr (congrArg Prod.fst hset).symm, Or.inr ?_⟩
      split
      all_goals
        rename_i hlaunch
        rw [hlaunch] at hl
        exact ⟨_, hl⟩

/-- What to show of a property that says nothing about the referee: it holds at the
start, and a start, a served call and the end of a process keep it. -/
structure Invariant (P : Machine → Prop) : Prop where
  build : ∀ plan : Plan, plan.Drawn → P plan.build
  frame : ∀ (m : Machine) (referee : Referee) (booted : Bool), P m → P { m with referee, booted }
  launch : ∀ (m m' : Machine) (program : String) (args : List String)
    (r : Except Fault (Option Pid)), P m → m.Launched none program args m' r → P m'
  serve : ∀ (m m' : Machine) (pid : Pid) (c : Call) (r : Reaction c.Answer), P m →
    m.alive pid = true → m.Served pid c m' r → P m'
  finish : ∀ (m : Machine) (pid : Pid) (how : Termination), P m → P (m.finish pid how)
  task : ∀ (m : Machine) (pid : Pid) (t : Task), P m → P (m.setTask pid t)

variable {P : Machine → Prop}

theorem Invariant.takes (hP : Invariant P) {m m' : Machine} {pid : Pid} {what : Happening}
    (h : P m) (ha : m.alive pid = true) (ht : m.Takes pid what m') : P m' := by
  cases ht with
  | answered _ _ _ hs => exact hP.task _ _ _ (hP.serve m _ pid _ _ h ha (served_of_serve hs))
  | noted _ _ => exact hP.task _ _ _ h
  | done | exit | crash | halted => exact hP.finish m pid _ h
  | faulted _ _ _ hs => exact hP.finish _ _ _ (hP.serve m _ pid _ _ h ha (served_of_serve hs))

theorem Invariant.run (hP : Invariant P) {m m' : Machine} {log : List Event} (h : P m)
    (hr : m.Run log m') : P m' := by
  induction hr with
  | start => exact h
  | step _ ha ht ih => exact hP.takes ih ha ht
  | @halt log m _ ih => exact hP.frame m m.referee.halt m.booted ih

theorem Invariant.boot (hP : Invariant P) {m : Machine} (h : P m) (program : String)
    (args : List String) : P (m.boot program args).1 := by
  obtain ⟨booted, referee, -, hb | ⟨r, hl⟩⟩ := boot_launched m program args
  · rw [hb]
    exact hP.frame m referee booted h
  · exact hP.launch _ _ program args r (hP.frame m referee booted h) hl

theorem Invariant.reachable (hP : Invariant P) {m : Machine} (h : m.Reachable) : P m := by
  induction h with
  | build hp => exact hP.build _ hp
  | boot program args _ ih => exact hP.boot ih program args
  | run _ hr ih => exact hP.run ih hr

end Machine

end KernelExam

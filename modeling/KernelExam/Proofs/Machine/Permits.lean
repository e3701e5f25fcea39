import KernelExam.Proofs.Machine.Frame
import KernelExam.Proofs.WaitingRoom

/-!
# Permits are neither lost nor made up

While a machine runs, the permits of a semaphore are what they were at the start, one
more for each V and one less for each P since then, and a process waits for a permit
only while there is none.
-/

set_option autoImplicit false

namespace KernelExam

def Call.asks (r : Request) (id : Word) : Call → Bool
  | .ask request a0 _ => request = r.code && a0 = id
  | _ => false

def Event.asks (r : Request) (id : Word) (e : Event) : Bool :=
  match e.what with
  | .answered c _ => c.asks r id
  | .noted _ => false
  | .ended _ => false

namespace Machine

variable {m m' : Machine} {pid : Pid} {c : Call} {id : Word}

theorem Asked.balance {request a0 a1 a : Word} (h : m.Asked pid request a0 a1 m' (.answer a)) :
    m'.referee.permits id + (if (Call.ask request a0 a1).asks .p id then 1 else 0) =
      m.referee.permits id + (if (Call.ask request a0 a1).asks .v id then 1 else 0) := by
  generalize hr : Reaction.answer a = r at h
  cases h with
  | unknown hnone =>
    have hcode : ∀ r : Request, request ≠ r.code := by
      rintro r rfl
      rw [Request.ofCode?_code] at hnone
      cases hnone
    simp [Call.asks, hcode]
  | taken _ hp =>
    by_cases ha : a0 = id
    · subst ha
      simp [Call.asks, Request.code, Referee.permits_setPermits]
      omega
    · simp [Call.asks, Request.code, Referee.permits_setPermits, ha, Ne.symm ha]
  | released hv =>
    by_cases ha : a0 = id
    · subst ha
      simp [Call.asks, Request.code, Referee.permits_setPermits]
    · simp [Call.asks, Request.code, Referee.permits_setPermits, ha, Ne.symm ha]
  | waits | overfull => cases hr
  | reported o r ho =>
    rw [(m.report_referee o pid).2]
    rcases ho with ho | ho
    all_goals
      obtain ⟨rfl, rfl⟩ := Prod.mk.inj ho
      simp [Call.asks, Request.code]
  | loaded | stored | marked | sought => simp [Call.asks, Request.code, Referee.store, Referee.checkpoint]

theorem Served.balance {a : c.Answer} (h : m.Served pid c m' (.answer a)) (id : Word) :
    m'.referee.permits id + (if c.asks .p id then 1 else 0) =
      m.referee.permits id + (if c.asks .v id then 1 else 0) := by
  generalize hr : Reaction.answer a = r at h
  cases h with
  | refused hrefuses =>
    cases c with
    | ask _ _ _ => exact hrefuses.elim
    | _ => rfl
  | asked ha =>
    subst hr
    exact ha.balance
  | _ => rfl

theorem Served.permits_of_fault {f : Fault} (h : m.Served pid c m' (.fault f)) :
    m'.referee.permits = m.referee.permits := by
  generalize hr : Reaction.fault f = r at h
  cases h with
  | asked ha =>
    cases ha with
    | unknown | taken | released | loaded | stored | reported | marked => cases hr
    | _ => rfl
  | _ => rfl

theorem Takes.balance {what : Happening} (h : m.Takes pid what m') (id : Word) :
    m'.referee.permits id + [⟨pid, what⟩].countP (Event.asks .p id) =
      m.referee.permits id + [⟨pid, what⟩].countP (Event.asks .v id) := by
  cases h with
  | answered _ _ _ hs =>
    rw [setTask_referee, List.countP_singleton, List.countP_singleton]
    exact (served_of_serve hs).balance id
  | noted _ _ =>
    rw [setTask_referee]
    rfl
  | done | exit | crash | halted => rfl
  | faulted _ _ _ hs =>
    have hsame := congrFun (served_of_serve hs).permits_of_fault id
    exact congrArg (· + 0) hsame

theorem Run.balance {start : Machine} {log : List Event} (h : start.Run log m) (id : Word) :
    m.referee.permits id + log.countP (Event.asks .p id) =
      start.referee.permits id + log.countP (Event.asks .v id) := by
  induction h with
  | start => rfl
  | step _ _ ht ih =>
    have hstep := ht.balance id
    rw [List.countP_append, List.countP_append]
    omega
  | halt _ ih => exact ih

/-- What holds of the semaphores of a machine after a run from `start`. -/
structure Accounted (start : Machine) (log : List Event) (m : Machine) : Prop where
  conserved : ∀ id, m.referee.permits id + log.countP (Event.asks .p id) =
    start.referee.permits id + log.countP (Event.asks .v id)
  passing : ∀ pid id a1 a m', m.Takes pid (.answered (.ask Request.p.code id a1) a) m' →
    0 < m.referee.permits id ∧ m.referee.halted = false
  others : ∀ pid what m' id, m.Takes pid what m' → Event.asks .p id ⟨pid, what⟩ = false →
    Event.asks .v id ⟨pid, what⟩ = false → m'.referee.permits id = m.referee.permits id
  /-- A process that cannot take the step of its P finds no permit. -/
  waiting : ∀ pid t id a1 next, m.alive pid = true → m.task? pid = some t →
    t.body = .call (.ask Request.p.code id a1) next → m.step pid = none →
    m.referee.permits id = 0
  halted : m.referee.halted = true → ∀ pid t id a1 next, m.alive pid = true →
    m.task? pid = some t → t.body = .call (.ask Request.p.code id a1) next →
    m.step pid = some (m.finish pid .halted) ∧
      (m.finish pid .halted).referee = m.referee.ended
  /-- A V that breaks down ends who makes it, and the referee only counts one less alive. -/
  overfull : m.referee.halted = false → ∀ pid t id a1 next, m.alive pid = true →
    m.task? pid = some t → t.body = .call (.ask Request.v.code id a1) next →
    m.referee.permits id = Referee.maxPermits →
    m.serve pid (.ask Request.v.code id a1) = (m, .fault .addOverflow) ∧
      m.step pid = some (m.finish pid .exception) ∧
      (m.finish pid .exception).referee = m.referee.ended

theorem serve_v_overfull (m : Machine) (pid : Pid) {id : Word} (a1 : Word)
    (h : m.referee.permits id = Referee.maxPermits) :
    m.serve pid (.ask Request.v.code id a1) = (m, .fault .addOverflow) := by
  have hv : ¬ m.referee.permits id < Referee.maxPermits := by omega
  simp only [serve, ask, Request.ofCode?_code, Referee.v, if_neg hv]

theorem Run.accounted {start : Machine} {log : List Event} (h : start.Run log m) :
    start.Accounted log m where
  conserved := h.balance
  passing pid id a1 a m' ht := by
    cases ht with
    | answered _ _ hh hs => exact ⟨(serve_p hs).1, hh⟩
  others pid what m' id ht hp hv := by
    have hstep := ht.balance id
    rw [List.countP_singleton, List.countP_singleton, hp, hv] at hstep
    exact hstep
  waiting pid t id a1 next ha ht hb hnone := by
    cases hh : m.referee.halted with
    | true =>
      rw [step_of_call_halted ha ht hb hh] at hnone
      cases hnone
    | false =>
      by_contra hp
      rw [step_of_call ha ht hb hh, serve_p_running _ _ _ _ hh,
        if_pos (Nat.pos_of_ne_zero hp)] at hnone
      cases hnone
  halted hh pid t id a1 next ha ht hb := ⟨step_of_call_halted ha ht hb hh, rfl⟩
  overfull hh pid t id a1 next ha ht hb hfull := by
    have hs := m.serve_v_overfull pid a1 hfull
    refine ⟨hs, ?_, rfl⟩
    rw [step_of_call ha ht hb hh, hs]

/-- Semaphores neither lose nor make up permits, in any waiting room and in any run of a
machine. -/
theorem permits_conserved (moves : List WaitingRoom.Move) {start m : Machine} {log : List Event}
    (h : start.Run log m) : WaitingRoom.Accounted moves ∧ start.Accounted log m :=
  ⟨WaitingRoom.accounted moves, h.accounted⟩

def turnstile : Machine := ((Plan.empty.register "p" fun _ _ =>
  .call (.ask Request.v.code 3 0) fun _ => .call (.ask Request.p.code 3 0) fun _ =>
    .call (.ask Request.p.code 3 0) fun _ => .done ()).build.boot "p" []).1

def turnstileLog : List Event :=
  [⟨1, .answered (.ask Request.v.code 3 0) (0 : Word)⟩,
    ⟨1, .answered (.ask Request.p.code 3 0) (0 : Word)⟩]

/-- A P falls asleep, and then its semaphore is set. -/
def overslept : List WaitingRoom.Move := [.enter 3, .look 0, .setPermits 3 1]

theorem permits_conserved_turnstile : ∃ m, turnstile.Run turnstileLog m ∧
    ((WaitingRoom.fresh.moveAll overslept).awake = [] ∧
      3 ∈ (WaitingRoom.fresh.moveAll overslept).asleep ∧
      (WaitingRoom.fresh.moveAll overslept).referee.permits 3 = 1 ∧
      WaitingRoom.Missed 3 overslept) ∧ m.referee.permits 3 = 0 := by
  obtain ⟨m, hr⟩ : ∃ m, turnstile.Run turnstileLog m := by
    refine exists_run_cons rfl (.answered rfl rfl rfl rfl) ?_
    refine exists_run_cons rfl (.answered rfl rfl rfl rfl) ?_
    exact ⟨_, .start⟩
  obtain ⟨hroom, hmachine⟩ := permits_conserved overslept hr
  have hasleep : 3 ∈ (WaitingRoom.fresh.moveAll overslept).asleep := by decide
  have hone : (WaitingRoom.fresh.moveAll overslept).referee.permits 3 = 1 := by decide
  refine ⟨m, hr, ⟨by decide, hasleep, hone, ?_⟩, ?_⟩
  · rcases hroom.asleep 3 hasleep with hzero | hmissed
    · rw [hzero] at hone
      cases hone
    · exact hmissed
  · have hstart : turnstile.referee.permits 3 = 0 := rfl
    have hp : turnstileLog.countP (Event.asks .p 3) = 1 := by decide
    have hv : turnstileLog.countP (Event.asks .v 3) = 1 := by decide
    have h := hmachine.conserved 3
    omega

end Machine

end KernelExam

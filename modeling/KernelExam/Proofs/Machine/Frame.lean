import KernelExam.Proofs.Machine.Runs

/-!
# What a step leaves alone

The registry never changes, tasks are only added by a start, and the referee's
words and permits change only for a request that names them.
-/

set_option autoImplicit false

namespace KernelExam

def Machine.Begun (m : Machine) (t : Task) : Prop :=
  ∃ name image pid args, m.registry.lookup name = some image ∧ t.body = image pid args

def Call.outcome? : Call → Option Outcome
  | .ask request _ _ =>
    if request = Request.done.code then some .done
    else if request = Request.fail.code then some .fail
    else none
  | _ => none

def Outcome.request : Outcome → Request
  | .done => .done
  | .fail => .fail

def Outcome.status : Outcome → Word
  | .done => 0
  | .fail => 1

theorem Outcome.outcome?_request (o : Outcome) (a0 a1 : Word) :
    (Call.ask o.request.code a0 a1).outcome? = some o := by
  cases o <;> rfl

theorem Call.outcome?_eq_some_iff (c : Call) (o : Outcome) :
    c.outcome? = some o ↔ ∃ a0 a1, c = .ask o.request.code a0 a1 := by
  constructor
  · intro h
    cases c with
    | ask request a0 a1 =>
      rw [outcome?] at h
      split at h
      · rename_i hr
        obtain rfl := Option.some.inj h
        exact ⟨a0, a1, hr ▸ rfl⟩
      · split at h
        · rename_i hr
          obtain rfl := Option.some.inj h
          exact ⟨a0, a1, hr ▸ rfl⟩
        · cases h
    | _ => cases h
  · rintro ⟨a0, a1, rfl⟩
    exact o.outcome?_request a0 a1

/-- No word of that slot is stored and the semaphore is left alone. -/
def Call.Spares (slot semaphore : Word) (c : Call) : Prop :=
  ∀ request a0 a1, c = .ask request a0 a1 →
    (request = Request.storeWord.code → a0 ≠ slot) ∧
    (request = Request.p.code → a0 ≠ semaphore) ∧ (request = Request.v.code → a0 ≠ semaphore)

namespace Machine

variable {m m' : Machine} {pid : Pid} {c : Call}

theorem report_referee (m : Machine) (o : Outcome) (pid : Pid) :
    (m.report o pid).referee.slots = m.referee.slots ∧
      (m.report o pid).referee.permits = m.referee.permits := by
  rw [report, Referee.report]
  cases m.referee.outcome with
  | none => exact ⟨rfl, rfl⟩
  | some _ => exact ⟨rfl, rfl⟩

theorem report_eq (m : Machine) (o : Outcome) (pid : Pid) :
    ∃ referee, m.report o pid = { m with referee } := by
  rw [report, Referee.report]
  cases m.referee.outcome with
  | none => exact ⟨_, rfl⟩
  | some _ => exact ⟨_, rfl⟩

theorem Asked.referee_only {request a0 a1 : Word} {r : Reaction Word}
    (h : m.Asked pid request a0 a1 m' r) : ∃ referee, m' = { m with referee } := by
  cases h with
  | unknown _ | waits | overfull | loaded | sought => exact ⟨m.referee, rfl⟩
  | taken _ _ | released _ | stored | marked => exact ⟨_, rfl⟩
  | reported o r _ => exact m.report_eq o pid

theorem Served.registry {r : Reaction c.Answer} (h : m.Served pid c m' r) :
    m'.registry = m.registry := by
  cases h with
  | asked ha =>
    obtain ⟨referee, rfl⟩ := ha.referee_only
    rfl
  | _ => rfl

theorem Takes.registry {what : Happening} (h : m.Takes pid what m') :
    m'.registry = m.registry := by
  cases h with
  | answered _ _ _ hs =>
    rw [setTask_registry]
    exact (served_of_serve hs).registry
  | noted _ _ => exact setTask_registry ..
  | done | exit | crash | halted => rfl
  | faulted _ _ _ hs => exact (served_of_serve hs).registry

theorem Run.registry {log : List Event} (h : m.Run log m') : m'.registry = m.registry := by
  induction h with
  | start => rfl
  | step _ _ ht ih => exact ht.registry.trans ih
  | halt _ ih => exact ih

theorem Run.begun {log : List Event} (h : m.Run log m') {t : Task} (hb : m'.Begun t) :
    m.Begun t := by
  rw [Begun, h.registry] at hb
  exact hb

theorem mem_of_lookup {registry : List (String × Image)} {name : String} {image : Image}
    (h : registry.lookup name = some image) : (name, image) ∈ registry := by
  obtain ⟨newer, older, hr, -⟩ := List.lookup_eq_some_iff.mp h
  rw [hr]
  exact List.mem_append_right _ (List.mem_cons_self ..)

theorem Served.tasks {r : Reaction c.Answer} (h : m.Served pid c m' r) :
    m'.tasks = m.tasks ∨
      ∃ last, m'.tasks = m.tasks ++ [last] ∧ ∀ t, last = some t → m.Begun t := by
  cases h with
  | launched hi _ hlast =>
    rcases hlast with ⟨rfl, -⟩ | ⟨rfl, -⟩
    · refine Or.inr ⟨_, rfl, ?_⟩
      rintro t ⟨⟩
      exact ⟨_, _, _, _, hi, rfl⟩
    · exact Or.inr ⟨none, rfl, by simp⟩
  | asked ha =>
    obtain ⟨referee, rfl⟩ := ha.referee_only
    exact Or.inl rfl
  | _ => exact Or.inl rfl

theorem Served.tasks_eq {r : Reaction c.Answer} (h : m.Served pid c m' r)
    (hc : ∀ path args, c ≠ .exec path args) : m'.tasks = m.tasks := by
  cases h with
  | launched _ _ _ => exact absurd rfl (hc _ _)
  | asked ha =>
    obtain ⟨referee, rfl⟩ := ha.referee_only
    rfl
  | _ => rfl

theorem Served.task?_kept {r : Reaction c.Answer} (h : m.Served pid c m' r) {q : Pid} {t : Task}
    (ht : m.task? q = some t) : m'.task? q = some t := by
  obtain ⟨n, rfl, hn⟩ := (task?_eq_some_iff m q t).mp ht
  rw [task?_succ]
  rcases h.tasks with hs | ⟨last, hs, -⟩
  · rw [hs, hn]
    rfl
  · rw [hs, List.getElem?_append_left (List.getElem?_eq_some_iff.mp hn).1, hn]
    rfl

theorem Served.task?_cases {r : Reaction c.Answer} (h : m.Served pid c m' r) {q : Pid} {t : Task}
    (ht : m'.task? q = some t) : m.task? q = some t ∨ m.Begun t := by
  rcases h.tasks with hs | ⟨last, hs, hb⟩
  · left
    rw [task?, ← hs]
    exact ht
  · rcases task?_concat hs ht with ht | hl
    · exact Or.inl ht
    · exact Or.inr (hb t hl)

inductive Advances : Program Unit → Happening → Program Unit → Prop
  | answered {c : Call} {next : c.Answer → Program Unit} (a : c.Answer) :
      Advances (.call c next) (.answered c a) (next a)
  | noted {n : Note} {next : Program Unit} : Advances (.note n next) (.noted n) next
  | ended {x : Program Unit} {how : Termination} : Advances x (.ended how) x

theorem Takes.advances {what : Happening} (h : m.Takes pid what m') :
    ∃ t t', m.task? pid = some t ∧ m'.task? pid = some t' ∧ Advances t.body what t'.body := by
  cases h with
  | answered ht hb _ hs =>
    refine ⟨_, _, ht, task?_setTask_self ((served_of_serve hs).task?_kept ht) _, ?_⟩
    rw [hb]
    exact .answered _
  | noted ht hb =>
    refine ⟨_, _, ht, task?_setTask_self ht _, ?_⟩
    rw [hb]
    exact .noted
  | done ht | exit ht | crash ht | halted ht => exact ⟨_, _, ht, ht, .ended⟩
  | faulted ht _ _ hs => exact ⟨_, _, ht, (served_of_serve hs).task?_kept ht, .ended⟩

/-- Every other process stays as it is or begins with the step. -/
theorem Takes.others {what : Happening} (h : m.Takes pid what m') {q : Pid} (hq : q ≠ pid) :
    m'.task? q = m.task? q ∨ m.task? q = none ∧ ∀ t, m'.task? q = some t → m.Begun t := by
  have hserved : ∀ {c m₁} {r : Reaction (Call.Answer c)}, m.Served pid c m₁ r →
      m₁.task? q = m.task? q ∨ m.task? q = none ∧ ∀ t, m₁.task? q = some t → m.Begun t := by
    intro c m₁ r hs
    cases hold : m.task? q with
    | some t => exact Or.inl (hs.task?_kept hold)
    | none =>
      refine Or.inr ⟨rfl, fun t ht => ?_⟩
      rcases hs.task?_cases ht with hsame | hb
      · rw [hold] at hsame
        cases hsame
      · exact hb
  cases h with
  | answered _ _ _ hs =>
    rw [task?_setTask_of_ne _ _ _ _ hq]
    exact hserved (served_of_serve hs)
  | noted => exact Or.inl (task?_setTask_of_ne _ _ _ _ hq)
  | done | exit | crash | halted => exact Or.inl rfl
  | faulted _ _ _ hs =>
    have hother := hserved (served_of_serve hs)
    exact hother

theorem Asked.spares {request a0 a1 slot semaphore : Word} {r : Reaction Word}
    (h : m.Asked pid request a0 a1 m' r) (hc : Call.Spares slot semaphore (.ask request a0 a1)) :
    m'.referee.load slot = m.referee.load slot ∧
      m'.referee.permits semaphore = m.referee.permits semaphore := by
  obtain ⟨hstore, hp, hv⟩ := hc request a0 a1 rfl
  cases h with
  | unknown _ | waits | overfull | loaded | sought | marked => exact ⟨rfl, rfl⟩
  | taken _ _ => exact ⟨rfl, if_neg (Ne.symm (hp rfl))⟩
  | released _ => exact ⟨rfl, if_neg (Ne.symm (hv rfl))⟩
  | stored => exact ⟨if_neg (Ne.symm (hstore rfl)), rfl⟩
  | reported o r _ =>
    obtain ⟨hs, hp⟩ := m.report_referee o pid
    exact ⟨congrFun hs slot, congrFun hp semaphore⟩

theorem Served.spares {slot semaphore : Word} {r : Reaction c.Answer} (h : m.Served pid c m' r)
    (hc : c.Spares slot semaphore) :
    m'.referee.load slot = m.referee.load slot ∧
      m'.referee.permits semaphore = m.referee.permits semaphore := by
  cases h with
  | asked ha => exact ha.spares hc
  | _ => exact ⟨rfl, rfl⟩

theorem Takes.spares {slot semaphore : Word} {a : c.Answer} (h : m.Takes pid (.answered c a) m')
    (hc : c.Spares slot semaphore) :
    m'.referee.load slot = m.referee.load slot ∧
      m'.referee.permits semaphore = m.referee.permits semaphore := by
  cases h with
  | answered _ _ _ hs =>
    rw [setTask_referee]
    exact (served_of_serve hs).spares hc

end Machine

end KernelExam

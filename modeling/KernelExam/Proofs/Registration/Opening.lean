import KernelExam.Proofs.Registration.Once

/-!
# The lock that the first process opens

If every program registers first, nobody but process 1 finds the count at zero: no other
process is started before that one has its number. So it opens the lock once, before
anybody takes it, and from then on the lock is as if the referee had opened it.
-/

set_option autoImplicit false

namespace KernelExam

def Reply.unset : Reply := ⟨.ask Request.loadWord.code countSlot 0, (0 : Word)⟩

namespace Program

/-- Registers before it does anything else, and leaves the process count and the lock alone
from then on. -/
def Registers (x : Program Unit) : Prop :=
  ∃ next : Session → Program Unit, (∀ s, (next s).Sparing) ∧
    x = (Session.register .firstProcess).bind next

def Entering (x : Program Unit) : Prop :=
  ∃ next : Session → Program Unit, (∀ s, (next s).Sparing) ∧
    x = (Session.register .referee).bind next

def Opening (x : Program Unit) : Prop :=
  ∃ next : Word → Program Unit, (∀ a, (next a).Entering) ∧
    x = .call (.ask Request.v.code lockId 0) next

theorem Entering.orderly {x : Program Unit} (h : x.Entering) : x.Orderly := by
  obtain ⟨next, hnext, rfl⟩ := h
  exact .register fun s => (hnext s).orderly

theorem Entering.call_cases {c : Call} {next : c.Answer → Program Unit}
    (h : (call c next).Entering) :
    c = .ask Request.p.code lockId 0 ∧ ∀ a, Inside .entered (next a) := by
  obtain ⟨next', hnext, h⟩ := h
  obtain ⟨rest, he, hi⟩ := inside_register fun s => (hnext s).orderly
  rw [he] at h
  cases h
  exact ⟨rfl, fun _ => hi⟩

theorem Opening.call_cases {c : Call} {next : c.Answer → Program Unit}
    (h : (call c next).Opening) :
    c = .ask Request.v.code lockId 0 ∧ ∀ a, (next a).Entering := by
  obtain ⟨next', hnext, h⟩ := h
  cases h
  exact ⟨rfl, hnext⟩

theorem register_firstProcess_bind (next : Session → Program Unit) :
    (Session.register .firstProcess).bind next =
      .call (.ask Request.loadWord.code countSlot 0) fun n =>
        if n = 0 then .call (.ask Request.v.code lockId 0) fun _ =>
          (Session.register .referee).bind next
        else (Session.register .referee).bind next := by
  rw [Session.register_firstProcess, Program.bind]
  congr 1
  funext n
  split
  · rfl
  · rfl

theorem Registers.call_cases {c : Call} {next : c.Answer → Program Unit}
    (h : (call c next).Registers) :
    c = .ask Request.loadWord.code countSlot 0 ∧
      (∀ a, ⟨c, a⟩ = Reply.unset → (next a).Opening) ∧
      ∀ a, ⟨c, a⟩ ≠ Reply.unset → (next a).Entering := by
  obtain ⟨next', hnext, h⟩ := h
  rw [register_firstProcess_bind] at h
  cases h
  refine ⟨rfl, ?_, ?_⟩
  · rintro a ⟨⟩
    exact ⟨_, fun _ => ⟨next', hnext, rfl⟩, rfl⟩
  · intro a ha
    have hne : a ≠ 0 := by
      rintro rfl
      exact ha rfl
    exact ⟨next', hnext, if_neg hne⟩

def Newcomer (x : Program Unit) : Prop := x.Orderly ∨ x.Registers

theorem outside_newcomer : Outside Newcomer (· ≠ Reply.unset) where
  orderly := Or.inl
  note h := by
    rcases h with h | ⟨next, -, h⟩
    · exact Or.inl h.of_note
    · cases h
  call h := by
    rcases h with h | h
    · exact h.call_cases.imp_left fun ⟨hspare, hnext⟩ => ⟨hspare, fun a _ => Or.inl (hnext a)⟩
    · obtain ⟨rfl, -, hnext⟩ := h.call_cases
      exact Or.inl ⟨Session.spares_load countSlot, fun a ha => Or.inl (hnext a ha).orderly⟩

theorem Registers.enters {x : Program Unit} (h : x.Registers) : x.Enters 1 := by
  obtain ⟨next, hnext, rfl⟩ := h
  rw [register_firstProcess_bind]
  refine .call (by nofun) fun n => ?_
  split
  · exact .call (by nofun) fun _ => enters_register hnext
  · exact enters_register hnext

inductive Asks : Program Unit → Prop
  | crash : Asks .crash
  | call {request a0 a1 : Word} {next : Word → Program Unit} :
      Asks (.call (.ask request a0 a1) next)

theorem Registers.asks {x : Program Unit} (h : x.Registers) : x.Asks := by
  obtain ⟨next, -, rfl⟩ := h
  exact .call

theorem Opening.asks {x : Program Unit} (h : x.Opening) : x.Asks := by
  obtain ⟨next, -, rfl⟩ := h
  exact .call

theorem Entering.asks {x : Program Unit} (h : x.Entering) : x.Asks := by
  obtain ⟨next, -, rfl⟩ := h
  exact .call

theorem Inside.asks {stage : Stage} {x : Program Unit} (h : Inside stage x) : x.Asks := by
  cases h with
  | entered | loaded | stored => exact .call
  | stuck => exact .crash

end Program

namespace Machine

variable {m m' : Machine} {l : Ledger} {log : List Event} {pid : Pid} {what : Happening}
  {P : Program Unit → Prop}

/-- There is no process but process 1, and its program is as `P` says. -/
def Lone (P : Program Unit → Prop) (m : Machine) : Prop :=
  ∀ q t, m.task? q = some t → q = 1 ∧ P t.body

theorem Lone.imp (h : Lone P m) {Q : Program Unit → Prop} (hQ : ∀ x, P x → Q x) : Lone Q m :=
  fun q t ht => ⟨(h q t ht).1, hQ _ (h q t ht).2⟩

theorem Lone.takes (h : Lone P m) (hP : ∀ x, P x → x.Asks) (ht : m.Takes pid what m') :
    pid = 1 ∧ ((∃ how, what = .ended how) ∧ Lone P m' ∨
      ∃ c a next, what = .answered c a ∧ P (.call c next) ∧ Lone (· = next a) m') := by
  have hserved : ∀ {t c next m₁ r}, m.task? pid = some t → t.body = .call c next →
      m.serve pid c = (m₁, r) →
      pid = 1 ∧ P (.call c next) ∧ ∃ referee, m₁ = { m with referee } := by
    intro t c next m₁ r ht hb hs
    obtain ⟨rfl, hp⟩ := h pid t ht
    rw [hb] at hp
    refine ⟨rfl, hp, ?_⟩
    cases hP _ hp with
    | call =>
      cases served_of_serve hs with
      | asked ha => exact ha.referee_only
      | refused _ => exact ⟨m.referee, rfl⟩
  cases ht with
  | @answered t c next m₁ a ht hb _ hs =>
    obtain ⟨rfl, hp, referee, rfl⟩ := hserved ht hb hs
    refine ⟨rfl, Or.inr ⟨c, a, next, rfl, hp, ?_⟩⟩
    intro q u hu
    rcases task?_setTask_cases (m := { m with referee }) ht hu with ⟨rfl, rfl⟩ | ⟨hne, hu⟩
    · exact ⟨rfl, rfl⟩
    · exact absurd (h q u hu).1 hne
  | noted ht hb =>
    obtain ⟨-, hp⟩ := h _ _ ht
    rw [hb] at hp
    cases hP _ hp
  | done ht | exit ht | crash ht | halted ht => exact ⟨(h _ _ ht).1, Or.inl ⟨⟨_, rfl⟩, h⟩⟩
  | faulted ht hb _ hs =>
    obtain ⟨rfl, -, referee, rfl⟩ := hserved ht hb hs
    exact ⟨rfl, Or.inl ⟨⟨_, rfl⟩, h⟩⟩

/-- The lock from the moment on at which process 1 has opened it. -/
structure Opened (m : Machine) (l : Ledger) : Prop where
  lock : Exclusive Program.Newcomer 0 m l
  /-- Until process 1 has given the lock back, nobody else is there. -/
  young : l.released = [] → l.inside = [] ∧ Lone Program.Entering m ∨
    l.inside = [1] ∧ Lone (fun x => ∃ stage, Program.Inside stage x) m

theorem Opened.heard (h : Opened m l) (ht : m.Takes pid what m') (c : Call) (a : c.Answer)
    (hwhat : what = .answered c a) (hpid : l.inside ≠ [pid]) : ⟨c, a⟩ ≠ Reply.unset := by
  subst hwhat
  by_cases hl : l.released = []
  · rcases h.young hl with ⟨-, hlone⟩ | ⟨hinside, hlone⟩
    · obtain ⟨-, ⟨⟨how, he⟩, -⟩ | ⟨c', a', next, he, hentering, -⟩⟩ :=
        hlone.takes (fun _ => Program.Entering.asks) ht
      · cases he
      · cases he
        obtain ⟨rfl, -⟩ := hentering.call_cases
        nofun
    · obtain ⟨rfl, -⟩ := hlone.takes (fun _ ⟨_, hi⟩ => hi.asks) ht
      exact absurd hinside hpid
  · rintro ⟨⟩
    exact h.lock.count_ne_zero hl ht.loaded.symm

theorem Opened.step (h : Opened m l) (ht : m.Takes pid what m') :
    Opened m' (l.enter ⟨pid, what⟩) where
  lock := h.lock.step Program.outside_newcomer ht (h.heard ht)
  young := by
    intro hl
    have hbefore : l.released = [] := List.prefix_nil.mp (hl ▸ (l.enter_grows _).2)
    rcases h.young hbefore with ⟨hinside, hlone⟩ | ⟨hinside, hlone⟩
    · obtain ⟨rfl, ⟨⟨how, rfl⟩, hlone'⟩ | ⟨c, a, next, rfl, hentering, hlone'⟩⟩ :=
        hlone.takes (fun _ => Program.Entering.asks) ht
      · exact Or.inl ⟨hinside, hlone'⟩
      · obtain ⟨rfl, hnext⟩ := hentering.call_cases
        refine Or.inr ⟨?_, hlone'.imp fun x hx => ⟨.entered, hx ▸ hnext a⟩⟩
        rw [Ledger.enter_answered, Ledger.reply_enter, hinside]
        rfl
    · obtain ⟨rfl, ⟨⟨how, rfl⟩, hlone'⟩ | ⟨c, a, next, rfl, ⟨stage, hi⟩, hlone'⟩⟩ :=
        hlone.takes (fun _ ⟨_, hi⟩ => hi.asks) ht
      · exact Or.inr ⟨hinside, hlone'⟩
      · cases hi with
        | entered hstuck hloaded =>
          rw [Ledger.enter_answered, Ledger.reply_load]
          refine Or.inr ⟨hinside, hlone'.imp fun x hx => ?_⟩
          by_cases hmax : a = Int32.maxValue
          · exact ⟨.stuck, hx ▸ hstuck a hmax⟩
          · exact ⟨.loaded a, hx ▸ hloaded a hmax⟩
        | loaded _ hnext =>
          rw [Ledger.enter_answered, Ledger.reply_store]
          exact Or.inr ⟨hinside, hlone'.imp fun x hx => ⟨.stored, hx ▸ hnext a⟩⟩
        | stored _ =>
          rw [Ledger.enter_answered, Ledger.reply_release] at hl
          exact absurd hl (List.append_ne_nil_of_right_ne_nil _ (List.cons_ne_nil _ _))

theorem Opened.halt (h : Opened m l) : Opened m.halt l := ⟨h.lock.halt, h.young⟩

theorem Takes.released {a1 a : Word}
    (ht : m.Takes pid (.answered (.ask Request.v.code lockId a1) a) m')
    (hroom : m.referee.permits lockId < Referee.maxPermits) :
    m'.referee.permits lockId = m.referee.permits lockId + 1 ∧
      m'.referee.load countSlot = m.referee.load countSlot := by
  cases ht with
  | answered _ _ _ hs =>
    rw [serve_v m pid lockId a1 hroom] at hs
    obtain ⟨rfl, -⟩ := Prod.mk.inj hs
    rw [setTask_referee]
    exact ⟨by simp [Referee.permits_setPermits], rfl⟩

structure Dark (P : Program Unit → Prop) (m : Machine) : Prop where
  images : ∀ name image, m.registry.lookup name = some image → ∀ pid args,
    (image pid args).Registers
  permits : m.referee.permits lockId = 0
  count : m.referee.load countSlot = 0
  lone : Lone P m

theorem Dark.ended (h : Dark P m) {how : Termination} (ht : m.Takes pid (.ended how) m')
    (hlone : Lone P m') : Dark P m' := by
  have hq := ht.quiet_of_ended
  refine ⟨?_, ?_, ?_, hlone⟩
  · rw [hq.registry]
    exact h.images
  · rw [hq.permits, h.permits]
  · rw [hq.count, h.count]

theorem Dark.halt (h : Dark P m) : Dark P m.halt := ⟨h.images, h.permits, h.count, h.lone⟩

theorem Dark.load (h : Dark Program.Registers m) (ht : m.Takes pid what m') :
    pid = 1 ∧ ((∃ how, what = .ended how) ∧ Dark Program.Registers m' ∨
      what = .answered Reply.unset.call Reply.unset.answer ∧ Dark Program.Opening m') := by
  obtain ⟨rfl, ⟨⟨how, rfl⟩, hlone⟩ | ⟨c, a, next, rfl, hregisters, hlone⟩⟩ :=
    h.lone.takes (fun _ => Program.Registers.asks) ht
  · exact ⟨rfl, Or.inl ⟨⟨how, rfl⟩, h.ended ht hlone⟩⟩
  · obtain ⟨rfl, hopening, -⟩ := hregisters.call_cases
    obtain ⟨hcount, hpermits⟩ := ht.spares (Session.spares_load countSlot)
    obtain rfl : a = (0 : Word) := ht.loaded.trans h.count
    refine ⟨rfl, Or.inr ⟨rfl, ?_, ?_, ?_, hlone.imp fun x hx => hx ▸ hopening _ rfl⟩⟩
    · rw [ht.registry]
      exact h.images
    · rw [hpermits, h.permits]
    · rw [hcount, h.count]

theorem Dark.opens (h : Dark Program.Opening m) (ht : m.Takes pid what m') :
    pid = 1 ∧ ((∃ how, what = .ended how) ∧ Dark Program.Opening m' ∨
      (∃ a : Word, what = .answered (.ask Request.v.code lockId 0) a) ∧ Opened m' .empty) := by
  obtain ⟨rfl, ⟨⟨how, rfl⟩, hlone⟩ | ⟨c, a, next, rfl, hopening, hlone⟩⟩ :=
    h.lone.takes (fun _ => Program.Opening.asks) ht
  · exact ⟨rfl, Or.inl ⟨⟨how, rfl⟩, h.ended ht hlone⟩⟩
  · obtain ⟨rfl, hentering⟩ := hopening.call_cases
    have hlone' : Lone Program.Entering m' := hlone.imp fun x hx => hx ▸ hentering a
    have hroom : m.referee.permits lockId < Referee.maxPermits := by
      rw [h.permits]
      decide
    obtain ⟨hpermits, hcount⟩ := ht.released hroom
    have hfree : Free Program.Newcomer 0 m' .empty := by
      refine ⟨rfl, ?_, rfl, ?_, fun q t hq => Or.inl (hlone' q t hq).2.orderly⟩
      · rw [hpermits, h.permits]
      · rw [hcount, h.count]
        rfl
    have himages : ∀ name image, m'.registry.lookup name = some image → ∀ pid args,
        (image pid args).Newcomer := by
      intro name image hi child args
      rw [ht.registry] at hi
      exact Or.inr (h.images name image hi child args)
    exact ⟨rfl, Or.inr ⟨⟨a, rfl⟩, ⟨himages, Or.inl hfree⟩, fun _ => Or.inl ⟨rfl, hlone'⟩⟩⟩

theorem Dark.rationed (h : Dark Program.Registers m) : Rationed 1 m .empty where
  images name image hi pid args := (h.images name image hi pid args).enters
  strangers _ _ := rfl
  tasks pid t ht := ⟨1, (h.lone pid t ht).2.enters, Nat.le_refl 1⟩

/-- How far process 1 has come with the lock. -/
inductive Dawn (m : Machine) (log : List Event) : Prop
  | arriving : Dark Program.Registers m → Ledger.ofLog log = .empty → repliesTo 1 log = [] →
      Dawn m log
  | opening : Dark Program.Opening m → Ledger.ofLog log = .empty →
      repliesTo 1 log = [Reply.unset] → Dawn m log
  | opened {l : Ledger} : Opened m l → Ledger.ofLog log = l.opened → 2 ≤ (repliesTo 1 log).length →
      (∃ before e after, log = before ++ e :: after ∧ (Ledger.ofLog before).Opens e) → Dawn m log

theorem Dawn.step (h : Dawn m log) (ht : m.Takes pid what m') : Dawn m' (log ++ [⟨pid, what⟩]) := by
  cases h with
  | arriving hdark hledger hreplies =>
    obtain ⟨rfl, ⟨⟨how, rfl⟩, hdark'⟩ | ⟨rfl, hdark'⟩⟩ := hdark.load ht
    · exact .arriving hdark' ((Ledger.ofLog_ended ..).trans hledger)
        ((repliesTo_ended ..).trans hreplies)
    · refine .opening hdark' ?_ ?_
      · rw [Ledger.ofLog_concat, hledger]
        rfl
      · rw [repliesTo_append, hreplies]
        rfl
  | opening hdark hledger hreplies =>
    obtain ⟨rfl, ⟨⟨how, rfl⟩, hdark'⟩ | ⟨⟨a, rfl⟩, hopened⟩⟩ := hdark.opens ht
    · exact .opening hdark' ((Ledger.ofLog_ended ..).trans hledger)
        ((repliesTo_ended ..).trans hreplies)
    · refine .opened hopened ?_ ?_ ⟨log, _, [], rfl, ?_⟩
      · rw [Ledger.ofLog_concat, hledger]
        rfl
      · rw [repliesTo_append, hreplies]
        exact Nat.le_refl 2
      · rw [hledger]
        exact ⟨List.not_mem_nil, 0, a, rfl⟩
  | @opened l hopened hledger hreplies hopens =>
    refine .opened (hopened.step ht) ?_ ?_ ?_
    · rw [Ledger.ofLog_concat, hledger, Ledger.opened_enter]
    · rw [repliesTo_append, List.length_append]
      omega
    · obtain ⟨before, e, after, rfl, ho⟩ := hopens
      exact ⟨before, e, after ++ [⟨pid, what⟩], by simp, ho⟩

theorem Dawn.run (h : Dawn m []) (hr : m.Run log m') : Dawn m' log := by
  induction hr with
  | start => exact h
  | step _ _ ht ih => exact ih.step ht
  | halt _ ih =>
    cases ih with
    | arriving hdark hledger hreplies => exact .arriving hdark.halt hledger hreplies
    | opening hdark hledger hreplies => exact .opening hdark.halt hledger hreplies
    | opened hopened hledger hreplies hopens =>
      exact .opened hopened.halt hledger hreplies hopens

end Machine

end KernelExam

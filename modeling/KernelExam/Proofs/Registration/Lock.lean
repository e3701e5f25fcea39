import KernelExam.Proofs.Registration.Ledger
import KernelExam.Proofs.Slots.Reading

/-!
# The process lock hands out the numbers

The log of a run says who took the lock and who gave it back. The invariant has two
cases: the lock is free and everybody is outside, or one process holds it and its
next call is known. Only that process can then touch the count, whatever the others
do between its calls.
-/

set_option autoImplicit false

namespace KernelExam

namespace Machine

/-- Every program is orderly, nobody is inside of a registration, the lock has its
one permit, and the count is `c`. -/
structure Registering (m : Machine) (c : Word) : Prop where
  permits : m.referee.permits lockId = 1
  count : m.referee.load countSlot = c
  images : ∀ name image, (name, image) ∈ m.registry → ∀ pid args, (image pid args).Orderly
  tasks : ∀ pid t, m.task? pid = some t → t.body.Orderly

structure Free (Out : Program Unit → Prop) (c : Int) (m : Machine) (l : Ledger) : Prop where
  inside : l.inside = []
  permits : m.referee.permits lockId = 1
  released : l.released = l.entered
  count : (m.referee.load countSlot).toInt = c + l.entered.length
  outside : ∀ pid t, m.task? pid = some t → Out t.body

def Counted (c : Int) (count : Word) (l : Ledger) : Program.Stage → Prop
  | .entered => count.toInt = c + l.released.length
  | .loaded n => n = count ∧ count.toInt = c + l.released.length
  | .stored => count.toInt = c + l.entered.length
  | .stuck => count = Int32.maxValue

/-- Process `q` holds the lock, be it alive or not. -/
structure Held (Out : Program Unit → Prop) (c : Int) (m : Machine) (l : Ledger) (q : Pid)
    (stage : Program.Stage) : Prop where
  inside : l.inside = [q]
  permits : m.referee.permits lockId = 0
  entered : l.entered = l.released ++ [q]
  count : Counted c (m.referee.load countSlot) l stage
  holder : ∃ t, m.task? q = some t ∧ Program.Inside stage t.body
  outside : ∀ pid t, pid ≠ q → m.task? pid = some t → Out t.body

/-- At most one process is inside, and all others are outside, as is every program that may
be started. -/
structure Exclusive (Out : Program Unit → Prop) (c : Int) (m : Machine) (l : Ledger) : Prop where
  images : ∀ name image, m.registry.lookup name = some image → ∀ pid args, Out (image pid args)
  lock : Free Out c m l ∨ ∃ q stage, Held Out c m l q stage

def Locking (c : Int) (m : Machine) (l : Ledger) : Prop := Exclusive Program.Orderly c m l

theorem Registering.locking {m : Machine} {c : Word} (h : m.Registering c) :
    Locking c.toInt m .empty where
  images name image hi := h.images name image (mem_of_lookup hi)
  lock := by
    refine Or.inl ⟨rfl, h.permits, rfl, ?_, h.tasks⟩
    rw [h.count]
    simp [Ledger.empty]

structure Quiet (m m' : Machine) : Prop where
  registry : m'.registry = m.registry
  permits : m'.referee.permits lockId = m.referee.permits lockId
  count : m'.referee.load countSlot = m.referee.load countSlot
  kept : ∀ q t, m.task? q = some t → m'.task? q = some t
  tasks : ∀ q t, m'.task? q = some t → m.task? q = some t ∨ m.Begun t

theorem Served.quiet {m m' : Machine} {pid : Pid} {c : Call} {r : Reaction c.Answer}
    (h : m.Served pid c m' r) (hc : c.Spares countSlot lockId) : Quiet m m' where
  registry := h.registry
  permits := (h.spares hc).2
  count := (h.spares hc).1
  kept _ _ ht := h.task?_kept ht
  tasks _ _ ht := h.task?_cases ht

theorem Served.quiet_of_fault {m m' : Machine} {pid : Pid} {c : Call} {f : Fault}
    (h : m.Served pid c m' (.fault f)) : Quiet m m' where
  registry := h.registry
  permits := by
    cases h with
    | asked ha => cases ha <;> rfl
    | _ => rfl
  count := by
    cases h with
    | asked ha => cases ha <;> rfl
    | _ => rfl
  kept _ _ ht := h.task?_kept ht
  tasks _ _ ht := h.task?_cases ht

theorem Quiet.finish {m m' : Machine} (h : Quiet m m') (pid : Pid) (how : Termination) :
    Quiet m (m'.finish pid how) := 
  ⟨h.registry, h.permits, h.count, h.kept, h.tasks⟩

theorem Quiet.refl (m : Machine) : Quiet m m := 
  ⟨rfl, rfl, rfl, fun _ _ => id, fun _ _ => Or.inl⟩

theorem Takes.quiet_of_ended {m m' : Machine} {pid : Pid} {how : Termination}
    (ht : m.Takes pid (.ended how) m') : Quiet m m' := by
  cases ht with
  | done | exit | crash | halted => exact (Quiet.refl m).finish pid _
  | faulted _ _ _ hs => exact (served_of_serve hs).quiet_of_fault.finish pid _

variable {Out : Program Unit → Prop} {Heard : Reply → Prop} {c : Int} {m m' : Machine}
  {l : Ledger} {pid q : Pid} {stage : Program.Stage}

theorem Free.quiet (h : Free Out c m l) (hq : Quiet m m')
    (hb : ∀ t, m.Begun t → Out t.body) : Free Out c m' l where
  inside := h.inside
  permits := hq.permits.trans h.permits
  released := h.released
  count := by rw [hq.count]; exact h.count
  outside pid t ht := (hq.tasks pid t ht).elim (h.outside pid t) (hb t)

theorem Held.quiet (h : Held Out c m l q stage) (hq : Quiet m m')
    (hb : ∀ t, m.Begun t → Out t.body) : Held Out c m' l q stage where
  inside := h.inside
  permits := hq.permits.trans h.permits
  entered := h.entered
  count := by rw [hq.count]; exact h.count
  holder := by
    obtain ⟨t, ht, hi⟩ := h.holder
    exact ⟨t, hq.kept q t ht, hi⟩
  outside pid t hne ht := (hq.tasks pid t ht).elim (h.outside pid t hne) (hb t)

theorem Free.setTask (h : Free Out c m l) {t t' : Task} (ht : m.task? pid = some t)
    (ho : Out t'.body) : Free Out c (m.setTask pid t') l where
  inside := h.inside
  permits := by rw [setTask_referee]; exact h.permits
  released := h.released
  count := by rw [setTask_referee]; exact h.count
  outside r u hu := by
    rcases task?_setTask_cases ht hu with ⟨-, rfl⟩ | ⟨-, hu⟩
    · exact ho
    · exact h.outside r u hu

theorem Held.setTask_of_ne (h : Held Out c m l q stage) (hne : pid ≠ q) {t t' : Task}
    (ht : m.task? pid = some t) (ho : Out t'.body) :
    Held Out c (m.setTask pid t') l q stage where
  inside := h.inside
  permits := by rw [setTask_referee]; exact h.permits
  entered := h.entered
  count := by rw [setTask_referee]; exact h.count
  holder := by
    obtain ⟨u, hu, hi⟩ := h.holder
    exact ⟨u, by rw [task?_setTask_of_ne m pid q t' (Ne.symm hne)]; exact hu, hi⟩
  outside r u hr hu := by
    rcases task?_setTask_cases ht hu with ⟨-, rfl⟩ | ⟨-, hu⟩
    · exact ho
    · exact h.outside r u hr hu

variable {t t' : Task}

theorem Held.advance (h : Held Out c m l q stage) (referee : Referee) {stage' : Program.Stage}
    (ht : m.task? q = some t) (hp : referee.permits = m.referee.permits)
    (hi : Program.Inside stage' t'.body) (hcount : Counted c (referee.load countSlot) l stage') :
    Held Out c ({ m with referee }.setTask q t') l q stage' := by
  have ht' : { m with referee }.task? q = some t := ht
  refine ⟨h.inside, ?_, h.entered, ?_, ⟨t', task?_setTask_self ht' t', hi⟩, ?_⟩
  · rw [setTask_referee]
    exact (congrFun hp lockId).trans h.permits
  · rw [setTask_referee]
    exact hcount
  · intro r u hr hu
    rcases task?_setTask_cases ht' hu with ⟨rfl, -⟩ | ⟨-, hu⟩
    · exact absurd rfl hr
    · exact h.outside r u hr hu

theorem Free.take (h : Free Out c m l) {referee : Referee} (a : Word) (ht : m.task? pid = some t)
    (hp : referee.permits lockId = 0)
    (hcount : referee.load countSlot = m.referee.load countSlot)
    (hi : Program.Inside .entered t'.body) :
    Held Out c ({ m with referee }.setTask pid t') (l.reply pid (.ask Request.p.code lockId 0) a)
      pid .entered := by
  have ht' : { m with referee }.task? pid = some t := ht
  rw [Ledger.reply_enter]
  refine ⟨?_, ?_, ?_, ?_, ⟨t', task?_setTask_self ht' t', hi⟩, ?_⟩
  · simp [h.inside]
  · rw [setTask_referee]
    exact hp
  · simp [h.released]
  · rw [setTask_referee]
    show Int32.toInt (referee.load countSlot) = c + l.released.length
    rw [hcount, h.released]
    exact h.count
  · intro r u hr hu
    rcases task?_setTask_cases ht' hu with ⟨rfl, -⟩ | ⟨-, hu⟩
    · exact absurd rfl hr
    · exact h.outside r u hu

theorem Held.release (h : Held Out c m l q .stored) {referee : Referee} (a : Word)
    (ht : m.task? q = some t) (hp : referee.permits lockId = 1)
    (hcount : referee.load countSlot = m.referee.load countSlot) (ho : Out t'.body) :
    Free Out c ({ m with referee }.setTask q t') (l.reply q (.ask Request.v.code lockId 0) a) := by
  have ht' : { m with referee }.task? q = some t := ht
  rw [Ledger.reply_release]
  refine ⟨?_, ?_, h.entered.symm, ?_, ?_⟩
  · simp [h.inside]
  · rw [setTask_referee]
    exact hp
  · rw [setTask_referee]
    show Int32.toInt (referee.load countSlot) = c + l.entered.length
    rw [hcount]
    exact h.count
  · intro r u hu
    rcases task?_setTask_cases ht' hu with ⟨-, rfl⟩ | ⟨hr, hu⟩
    · exact ho
    · exact h.outside r u hr hu

theorem Free.answered (h : Free Out c m l) (hout : Program.Outside Out Heard)
    (hb : ∀ t, m.Begun t → Out t.body) {k : Call} {next : k.Answer → Program Unit}
    {a : k.Answer} (ht : m.task? pid = some t) (hk : t.body = .call k next)
    (hs : m.serve pid k = (m', .answer a)) (hheard : Heard ⟨k, a⟩) :
    k.Spares countSlot lockId ∧
        Free Out c (m'.setTask pid { t with body := next a }) (l.reply pid k a) ∨
      k = .ask Request.p.code lockId 0 ∧
        Held Out c (m'.setTask pid { t with body := next a }) (l.reply pid k a) pid .entered := by
  have ho := h.outside pid t ht
  rw [hk] at ho
  rcases hout.call ho with ⟨hspare, hnext⟩ | ⟨rfl, hnext⟩
  · have hserved := served_of_serve hs
    have hkept := hserved.task?_kept ht
    have hfree := h.quiet (hserved.quiet hspare) hb
    rw [l.reply_of_spares pid hspare]
    exact Or.inl ⟨hspare, hfree.setTask hkept (hnext a hheard)⟩
  · obtain ⟨-, rfl⟩ := serve_p hs
    have hpermits :
        (m.referee.setPermits lockId (m.referee.permits lockId - 1)).permits lockId = 0 := by
      simp [Referee.permits_setPermits, h.permits]
    exact Or.inr ⟨rfl, h.take a ht hpermits rfl (hnext a)⟩

theorem Held.answered_of_ne (h : Held Out c m l q stage) (hout : Program.Outside Out Heard)
    (hb : ∀ t, m.Begun t → Out t.body) {k : Call} {next : k.Answer → Program Unit}
    {a : k.Answer} (hpid : pid ≠ q) (ht : m.task? pid = some t) (hk : t.body = .call k next)
    (hs : m.serve pid k = (m', .answer a)) (hheard : Heard ⟨k, a⟩) :
    l.reply pid k a = l ∧ Held Out c (m'.setTask pid { t with body := next a }) l q stage := by
  have ho := h.outside pid t hpid ht
  rw [hk] at ho
  rcases hout.call ho with ⟨hspare, hnext⟩ | ⟨rfl, -⟩
  · have hserved := served_of_serve hs
    have hkept := hserved.task?_kept ht
    have hheld := h.quiet (hserved.quiet hspare) hb
    exact ⟨l.reply_of_spares pid hspare a, hheld.setTask_of_ne hpid hkept (hnext a hheard)⟩
  · obtain ⟨hp, -⟩ := serve_p hs
    rw [h.permits] at hp
    omega

theorem Held.answered_self (h : Held Out c m l q stage) (hout : Program.Outside Out Heard)
    {k : Call} {next : k.Answer → Program Unit} {a : k.Answer} (ht : m.task? q = some t)
    (hk : t.body = .call k next) (hs : m.serve q k = (m', .answer a)) :
    Free Out c (m'.setTask q { t with body := next a }) (l.reply q k a) ∨
      ∃ stage', Held Out c (m'.setTask q { t with body := next a }) (l.reply q k a) q stage' := by
  obtain ⟨t₁, ht₁, hi⟩ := h.holder
  obtain rfl := Option.some.inj (ht.symm.trans ht₁)
  rw [hk] at hi
  have hcount := h.count
  cases hi with
  | entered hstuck hloaded =>
    right
    rw [serve_loadWord] at hs
    obtain ⟨rfl, rfl⟩ : m = m' ∧ m.referee.load countSlot = a := by simpa using hs
    rw [Ledger.reply_load]
    by_cases hmax : m.referee.load countSlot = Int32.maxValue
    · exact ⟨.stuck, h.advance m.referee ht rfl (hstuck _ hmax) hmax⟩
    · exact ⟨.loaded _, h.advance m.referee ht rfl (hloaded _ hmax) ⟨rfl, hcount⟩⟩
  | loaded hn hnext =>
    right
    rename_i n _
    rw [serve_storeWord] at hs
    obtain ⟨rfl, -⟩ := Prod.mk.inj hs
    obtain ⟨rfl, hcount⟩ := hcount
    rw [Ledger.reply_store]
    refine ⟨.stored, h.advance _ ht rfl (hnext a) ?_⟩
    show Int32.toInt ((m.referee.store countSlot _).load countSlot) = _
    rw [Referee.load_store, if_pos rfl, toInt_succ _ hn, hcount, h.entered, List.length_append,
      List.length_singleton]
    omega
  | stored hnext =>
    left
    have hroom : m.referee.permits lockId < Referee.maxPermits := by
      rw [h.permits]
      decide
    rw [serve_v m q lockId 0 hroom] at hs
    obtain ⟨rfl, -⟩ := Prod.mk.inj hs
    refine h.release a ht ?_ rfl (hout.orderly (hnext a))
    simp [Referee.permits_setPermits, h.permits]

theorem Exclusive.begun (h : Exclusive Out c m l) : ∀ t, m.Begun t → Out t.body := by
  rintro t ⟨name, image, child, args, hi, he⟩
  rw [he]
  exact h.images name image hi child args

theorem Free.enter (h : Free Out c m l) (hout : Program.Outside Out Heard)
    (hb : ∀ t, m.Begun t → Out t.body) {what : Happening} (ht : m.Takes pid what m')
    (hheard : ∀ k a, what = .answered k a → Heard ⟨k, a⟩) :
    Free Out c m' (l.enter ⟨pid, what⟩) ∨ Held Out c m' (l.enter ⟨pid, what⟩) pid .entered := by
  cases what with
  | answered k a =>
    cases ht with
    | answered ht hk _ hs =>
      rcases h.answered hout hb ht hk hs (hheard _ _ rfl) with ⟨-, hf⟩ | ⟨-, hh⟩
      · exact Or.inl hf
      · exact Or.inr hh
  | noted n =>
    cases ht with
    | noted ht hk =>
      have ho := h.outside _ _ ht
      rw [hk] at ho
      exact Or.inl (h.setTask ht (hout.note ho))
  | ended how => exact Or.inl (h.quiet ht.quiet_of_ended hb)

theorem Held.enter_of_ne (h : Held Out c m l q stage) (hout : Program.Outside Out Heard)
    (hb : ∀ t, m.Begun t → Out t.body) {what : Happening} (ht : m.Takes pid what m')
    (hpid : Event.replyTo? q ⟨pid, what⟩ = none)
    (hheard : ∀ k a, what = .answered k a → Heard ⟨k, a⟩) :
    l.enter ⟨pid, what⟩ = l ∧ Held Out c m' l q stage := by
  cases what with
  | answered k a =>
    have hne : pid ≠ q := by
      rintro rfl
      simp [Event.replyTo?] at hpid
    cases ht with
    | answered ht hk _ hs => exact h.answered_of_ne hout hb hne ht hk hs (hheard _ _ rfl)
  | noted n =>
    refine ⟨rfl, ?_⟩
    cases ht with
    | noted ht hk =>
      by_cases hne : pid = q
      · subst hne
        obtain ⟨t₁, ht₁, hi⟩ := h.holder
        obtain rfl := Option.some.inj (ht.symm.trans ht₁)
        rw [hk] at hi
        cases hi
      · have ho := h.outside _ _ hne ht
        rw [hk] at ho
        exact h.setTask_of_ne hne ht (hout.note ho)
  | ended how => exact ⟨rfl, h.quiet ht.quiet_of_ended hb⟩

/-- One step of a process, with its event put into the ledger. What it is answered matters
only if it is outside. -/
theorem Exclusive.step (h : Exclusive Out c m l) (hout : Program.Outside Out Heard)
    {what : Happening} (ht : m.Takes pid what m')
    (hheard : ∀ k a, what = .answered k a → l.inside ≠ [pid] → Heard ⟨k, a⟩) :
    Exclusive Out c m' (l.enter ⟨pid, what⟩) := by
  refine ⟨by rw [ht.registry]; exact h.images, ?_⟩
  rcases h.lock with hf | ⟨q, stage, hh⟩
  · have hnobody : l.inside ≠ [pid] := by
      rw [hf.inside]
      nofun
    rcases hf.enter hout h.begun ht fun k a hwhat => hheard k a hwhat hnobody with hf | hh
    · exact Or.inl hf
    · exact Or.inr ⟨pid, .entered, hh⟩
  · by_cases hreply : Event.replyTo? q ⟨pid, what⟩ = none
    · have hother : ∀ k a, what = .answered k a → Heard ⟨k, a⟩ := by
        rintro k a rfl
        refine hheard k a rfl ?_
        rw [hh.inside]
        rintro ⟨⟩
        simp [Event.replyTo?] at hreply
      obtain ⟨hl, hh⟩ := hh.enter_of_ne hout h.begun ht hreply hother
      rw [hl]
      exact Or.inr ⟨q, stage, hh⟩
    · cases ht with
      | answered ht hk _ hs =>
        obtain rfl : pid = q := by
          by_contra hne
          exact hreply (by simp [Event.replyTo?, hne])
        rcases hh.answered_self hout ht hk hs with hf | ⟨stage', hh⟩
        · exact Or.inl hf
        · exact Or.inr ⟨pid, stage', hh⟩
      | noted | done | exit | crash | halted | faulted => exact absurd rfl hreply

theorem Free.halt (h : Free Out c m l) : Free Out c m.halt l :=
  ⟨h.inside, h.permits, h.released, h.count, h.outside⟩

theorem Held.halt (h : Held Out c m l q stage) : Held Out c m.halt l q stage :=
  ⟨h.inside, h.permits, h.entered, h.count, h.holder, h.outside⟩

theorem Exclusive.halt (h : Exclusive Out c m l) : Exclusive Out c m.halt l := by
  refine ⟨h.images, ?_⟩
  rcases h.lock with hf | ⟨q, stage, hh⟩
  · exact Or.inl hf.halt
  · exact Or.inr ⟨q, stage, hh.halt⟩

theorem Exclusive.balance (h : Exclusive Out c m l) :
    m.referee.permits lockId + l.inside.length = 1 ∧ l.entered = l.released ++ l.inside ∧
      (l.inside = [] → (m.referee.load countSlot).toInt = c + l.entered.length) := by
  rcases h.lock with hf | ⟨q, stage, hh⟩
  · refine ⟨?_, ?_, fun _ => hf.count⟩
    · rw [hf.permits, hf.inside]
      rfl
    · rw [hf.inside, hf.released, List.append_nil]
  · refine ⟨?_, ?_, fun hempty => ?_⟩
    · rw [hh.permits, hh.inside]
      rfl
    · rw [hh.inside, hh.entered]
    · rw [hh.inside] at hempty
      cases hempty

theorem Exclusive.count_ne_zero (h : Exclusive Out 0 m l)
    (hl : l.released ≠ []) : m.referee.load countSlot ≠ 0 := by
  have hlength : 0 < l.released.length := List.length_pos_iff.mpr hl
  intro hzero
  rcases h.lock with hf | ⟨q, stage, hh⟩
  · have hcount := hf.count
    rw [hzero, ← hf.released] at hcount
    have hstart : (0 : Word).toInt = 0 := rfl
    omega
  · have hcount := hh.count
    have hentered := congrArg List.length hh.entered
    rw [List.length_append, List.length_singleton] at hentered
    have hstart : (0 : Word).toInt = 0 := rfl
    rw [hzero] at hcount
    cases stage with
    | entered | stored =>
      rw [Counted] at hcount
      omega
    | loaded n =>
      obtain ⟨-, hcount⟩ := hcount
      omega
    | stuck => cases hcount

theorem Exclusive.inside_of_release (h : Exclusive Out c m l)
    (hout : Program.Outside Out Heard) {a1 a : Word}
    (ht : m.Takes pid (.answered (.ask Request.v.code lockId a1) a) m') : l.inside = [pid] := by
  cases ht with
  | @answered t _ _ _ _ ht hb _ _ =>
    have hinside : ¬ Out t.body := by
      intro ho
      rw [hb] at ho
      rcases hout.call ho with ⟨hspare, -⟩ | ⟨hcall, -⟩
      · exact (hspare _ _ _ rfl).2.2 rfl rfl
      · injection hcall with hcode
        exact absurd hcode (by decide)
    rcases h.lock with hf | ⟨q, stage, hh⟩
    · exact absurd (hf.outside _ _ ht) hinside
    · by_cases hq : pid = q
      · rw [hh.inside, hq]
      · exact absurd (hh.outside _ _ hq ht) hinside

theorem Exclusive.number (h : Exclusive Out c m l) {a : Word}
    (ht : m.Takes pid (.answered (.ask Request.loadWord.code countSlot 0) a) m')
    (hpid : pid ∈ l.inside) :
    a.toInt = c + l.released.length ∧ l.entered = l.released ++ [pid] := by
  have hloaded := ht.loaded
  rcases h.lock with hf | ⟨q, stage, hh⟩
  · rw [hf.inside] at hpid
    cases hpid
  · rw [hh.inside] at hpid
    obtain rfl := List.mem_singleton.mp hpid
    obtain ⟨t, htask, hi⟩ := hh.holder
    have hcount := hh.count
    cases ht with
    | answered ht hb _ _ =>
      obtain rfl := Option.some.inj (ht.symm.trans htask)
      rw [hb] at hi
      cases hi with
      | entered _ _ =>
        rw [hloaded]
        exact ⟨hcount, hh.entered⟩

theorem Locking.run (h : Locking c m .empty) {log : List Event} (hr : m.Run log m') :
    Locking c m' (.ofLog log) := by
  induction hr with
  | start => exact h
  | step _ _ ht ih =>
    rw [Ledger.ofLog_concat]
    exact ih.step Program.outside_orderly ht fun _ _ _ _ => trivial
  | halt _ ih => exact ih.halt

theorem Held.run (h : Held Program.Orderly c m l q stage)
    (hb : ∀ t, m.Begun t → t.body.Orderly) {log : List Event} (hr : m.Run log m')
    (hlog : repliesTo q log = []) : Held Program.Orderly c m' l q stage := by
  induction hr with
  | start => exact h
  | @step log m₁ m₂ p what hr _ ht ih =>
    rw [repliesTo_append, List.append_eq_nil_iff] at hlog
    have hone : Event.replyTo? q ⟨p, what⟩ = none := by simpa [repliesTo] using hlog.2
    have hbegun : ∀ t, m₁.Begun t → t.body.Orderly := fun t ht => hb t (hr.begun ht)
    exact ((ih hlog.1).enter_of_ne Program.outside_orderly hbegun ht hone fun _ _ _ => trivial).2
  | halt _ ih => exact (ih hlog).halt

theorem Locking.take (h : Locking c m l) {a : Word}
    (ht : m.Takes pid (.answered (.ask Request.p.code lockId 0) a) m') :
    Free Program.Orderly c m l ∧
      Held Program.Orderly c m' (l.reply pid (.ask Request.p.code lockId 0) a) pid .entered := by
  cases ht with
  | answered ht hk _ hs =>
    obtain ⟨hpermit, -⟩ := serve_p hs
    rcases h.lock with hf | ⟨q, stage, hh⟩
    · rcases hf.answered Program.outside_orderly h.begun ht hk hs trivial with ⟨hspare, -⟩ | ⟨-, hh⟩
      · exact absurd rfl ((hspare _ _ _ rfl).2.1 rfl)
      · exact ⟨hf, hh⟩
    · rw [hh.permits] at hpermit
      omega

theorem Locking.number (h : Locking c m .empty) {before after : List Event} {a : Word}
    {replies rest : List Reply} {s : Session}
    (hr : m.Run (before ++ ⟨pid, .answered (.ask Request.p.code lockId 0) a⟩ :: after) m')
    (hafter : repliesTo pid after = replies ++ rest)
    (hs : (Session.register .referee).replay (⟨.ask Request.p.code lockId 0, a⟩ :: replies) =
      some s) :
    s.processId.toInt = c + (Ledger.ofLog before).entered.length := by
  obtain ⟨_, stored, released, others, hreplies, -⟩ := Session.replay_register hs
  obtain ⟨-, rfl⟩ := List.cons.inj hreplies
  obtain ⟨m₀, m₁, hbefore, -, htake, hrest⟩ := hr.split rfl
  obtain ⟨hfree, hheld⟩ := (h.run hbefore).take htake
  obtain ⟨mid, m₂, m₃, hwait, hmid, hload⟩ := hrest.next_reply hafter
  have hb : ∀ t, m₁.Begun t → t.body.Orderly := by
    intro t hb
    rw [Begun, htake.registry] at hb
    exact (h.run hbefore).begun t hb
  have hstill := hheld.run hb hwait hmid
  have hcount : Int32.toInt (m₂.referee.load countSlot) =
      c + (Ledger.ofLog before).released.length := by
    have hc := hstill.count
    rw [Ledger.reply_enter] at hc
    exact hc
  have hnumber : s.processId = m₂.referee.load countSlot := hload.loaded
  rw [hnumber, hcount, hfree.released]

/-- Registrations exclude each other and hand out consecutive numbers in the order in
which they take the lock, whatever all other processes do in between. -/
theorem registration_consecutive {m m' : Machine} {log : List Event} {c : Word}
    (hm : m.Registering c) (hr : m.Run log m') :
    let l := Ledger.ofLog log
    l.inside.length ≤ 1 ∧ m'.referee.permits lockId + l.inside.length = 1 ∧
      l.entered = l.released ++ l.inside ∧
      (l.inside = [] → (m'.referee.load countSlot).toInt = c.toInt + l.released.length) ∧
      ∀ before after pid a replies rest s,
        log = before ++ ⟨pid, .answered (.ask Request.p.code lockId 0) a⟩ :: after →
        repliesTo pid after = replies ++ rest →
        (Session.register .referee).replay (⟨.ask Request.p.code lockId 0, a⟩ :: replies) = some s →
        s.processId.toInt = c.toInt + (Ledger.ofLog before).entered.length := by
  intro l
  have h : Locking c.toInt m' l := hm.locking.run hr
  have hnumber : ∀ before after pid a replies rest s,
      log = before ++ ⟨pid, .answered (.ask Request.p.code lockId 0) a⟩ :: after →
      repliesTo pid after = replies ++ rest →
      (Session.register .referee).replay (⟨.ask Request.p.code lockId 0, a⟩ :: replies) = some s →
      s.processId.toInt = c.toInt + (Ledger.ofLog before).entered.length := by
    rintro before after pid a replies rest s rfl hafter hs
    exact hm.locking.number hr hafter hs
  rcases h.lock with hf | ⟨q, stage, hh⟩
  · refine ⟨?_, ?_, ?_, ?_, hnumber⟩
    · simp [hf.inside]
    · simp [hf.inside, hf.permits]
    · simp [hf.inside, hf.released]
    · intro _
      rw [hf.count, hf.released]
  · refine ⟨?_, ?_, ?_, ?_, hnumber⟩
    · simp [hh.inside]
    · simp [hh.inside, hh.permits]
    · rw [hh.inside, hh.entered]
    · intro hempty
      rw [hh.inside] at hempty
      cases hempty

/-- The process that is booted starts another, and both register. -/
def twins : Image := fun _ args =>
  .call (if args = [] then .exec "p" ["child"] else .ask Request.checkpoint.code 1 0) fun _ =>
    (Session.register .referee).bind fun _ => .done ()

theorem orderly_twins (pid : Pid) (args : List String) : (twins pid args).Orderly := by
  refine .call ?_ fun _ => .register fun _ => .done
  split
  · nofun
  · rintro _ _ _ ⟨⟩
    decide

def pair : Machine :=
  ({ Plan.empty.register "p" twins with
      referee := Referee.fresh.store countSlot 5 }.build.boot "p" []).1

theorem pair_registering : pair.Registering 5 where
  permits := by rfl
  count := by rfl
  images := by
    intro name image hmem pid args
    obtain ⟨-, rfl⟩ := Prod.mk.inj (List.mem_singleton.mp hmem)
    exact orderly_twins pid args
  tasks := by
    intro pid t ht
    obtain ⟨n, -, hn⟩ := (task?_eq_some_iff pair pid t).mp ht
    have hs : pair.tasks = [some ⟨"p", [], twins 1 [], []⟩] := by rfl
    rw [hs, List.getElem?_singleton] at hn
    split at hn
    · cases hn
      exact orderly_twins 1 []
    · cases hn

def pairLog : List Event :=
  [⟨1, .answered (.exec "p" ["child"]) (2 : Word)⟩,
    ⟨1, .answered (.ask Request.p.code lockId 0) (0 : Word)⟩,
    ⟨1, .answered (.ask Request.loadWord.code countSlot 0) (5 : Word)⟩,
    ⟨2, .answered (.ask Request.checkpoint.code 1 0) (0 : Word)⟩,
    ⟨1, .answered (.ask Request.storeWord.code countSlot 6) (0 : Word)⟩,
    ⟨1, .answered (.ask Request.v.code lockId 0) (0 : Word)⟩,
    ⟨2, .answered (.ask Request.p.code lockId 0) (0 : Word)⟩,
    ⟨1, .answered (.ask Request.loadWord.code Slot.shellProgram.index 0) (112 : Word)⟩,
    ⟨2, .answered (.ask Request.loadWord.code countSlot 0) (6 : Word)⟩,
    ⟨1, .answered (.ask Request.loadWord.code (Slot.shellProgram.index + 1) 0) (0 : Word)⟩,
    ⟨2, .answered (.ask Request.storeWord.code countSlot 7) (0 : Word)⟩,
    ⟨1, .answered (.ask Request.loadWord.code (Slot.shellProgram.index + 2) 0) (0 : Word)⟩,
    ⟨2, .answered (.ask Request.v.code lockId 0) (0 : Word)⟩,
    ⟨1, .answered (.ask Request.loadWord.code (Slot.shellProgram.index + 3) 0) (0 : Word)⟩,
    ⟨2, .answered (.ask Request.loadWord.code Slot.shellProgram.index 0) (112 : Word)⟩,
    ⟨1, .answered (.ask Request.loadWord.code Slot.testId.index 0) (0 : Word)⟩,
    ⟨2, .answered (.ask Request.loadWord.code (Slot.shellProgram.index + 1) 0) (0 : Word)⟩,
    ⟨2, .answered (.ask Request.loadWord.code (Slot.shellProgram.index + 2) 0) (0 : Word)⟩,
    ⟨2, .answered (.ask Request.loadWord.code (Slot.shellProgram.index + 3) 0) (0 : Word)⟩,
    ⟨2, .answered (.ask Request.loadWord.code Slot.testId.index 0) (0 : Word)⟩]

theorem pair_run : ∃ m', pair.Run pairLog m' := by
  iterate 20 refine exists_run_cons rfl (.answered rfl rfl rfl rfl) ?_
  exact ⟨_, .start⟩

theorem registration_consecutive_pair : pair.Registering 5 ∧ ∃ m' s s', pair.Run pairLog m' ∧
    (Session.register .referee).replay (repliesTo 1 pairLog).tail = some s ∧
    (Session.register .referee).replay (repliesTo 2 pairLog).tail = some s' ∧
    s.processId.toInt = 5 ∧ s'.processId.toInt = 6 ∧
    (m'.referee.load countSlot).toInt = 7 ∧ m'.referee.permits lockId = 1 := by
  obtain ⟨m', hr⟩ := pair_run
  obtain ⟨s, hs⟩ : ∃ s, (Session.register .referee).replay (repliesTo 1 pairLog).tail = some s := by
    apply Exists.intro
    rfl
  obtain ⟨s', hs'⟩ :
      ∃ s', (Session.register .referee).replay (repliesTo 2 pairLog).tail = some s' := by
    apply Exists.intro
    rfl
  obtain ⟨-, hbalance, -, hcount, hnumber⟩ := registration_consecutive pair_registering hr
  have hfirst := hnumber (pairLog.take 1) (pairLog.drop 2) 1 0
    ((repliesTo 1 pairLog).drop 2) [] s rfl rfl hs
  have hsecond := hnumber (pairLog.take 6) (pairLog.drop 7) 2 0
    ((repliesTo 2 pairLog).drop 2) [] s' rfl rfl hs'
  exact ⟨pair_registering, m', s, s', hr, hs, hs', hfirst, hsecond, hcount rfl, hbalance⟩

end Machine

end KernelExam

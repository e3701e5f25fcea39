import KernelExam.Proofs.Registration.Opening

/-!
# Numbers from a lock that the first process opens

However the programs start each other, such a lock is opened once, holds at most one
permit, and hands out the numbers from zero on without a gap.
-/

set_option autoImplicit false

namespace KernelExam

/-- A plan that leaves it to the first process to open the lock, for programs that all register
first. -/
structure Plan.Unopened (plan : Plan) : Prop where
  lockInit : plan.lockInit = .firstProcess
  permits : plan.referee.permits lockId = 0
  count : plan.referee.load countSlot = 0
  images : ∀ name image, plan.registry.lookup name = some image → ∀ pid args,
    (image pid args).Registers

namespace Machine

variable {m m' : Machine} {log : List Event} {pid : Pid}

theorem Dawn.number (h : Dawn m []) (hr : m.Run log m') {replies rest : List Reply} {s : Session}
    (hreplies : repliesTo pid log = replies ++ rest)
    (hs : (Session.register .firstProcess).replay replies = some s) :
    ∃ n : Nat, s.processId.toInt = n ∧ (Ledger.ofLog log).entered[n]? = some pid := by
  obtain ⟨earlier, entered, others, rfl⟩ := Session.replay_firstProcess hs
  rw [List.append_assoc] at hreplies
  obtain ⟨first, later, rfl, -, hlater⟩ := exists_of_repliesTo hreplies
  have hnext : repliesTo pid later =
      [] ++ ⟨.ask Request.loadWord.code countSlot 0, s.processId⟩ :: (others ++ rest) := hlater
  obtain ⟨mid, last, rfl, hmid, -⟩ := exists_of_repliesTo hnext
  have hsplit : ∀ e₁ e₂ : Event, first ++ e₁ :: (mid ++ e₂ :: last) =
      first ++ [e₁] ++ mid ++ e₂ :: last := by simp
  rw [hsplit] at hr ⊢
  obtain ⟨b, b', hbefore, -, htake, -⟩ := hr.split rfl
  have hstart : pid ∈ (Ledger.ofLog
      (first ++ [⟨pid, .answered (.ask Request.p.code lockId 0) entered⟩])).inside := by
    rw [Ledger.ofLog_concat, Ledger.enter_answered, Ledger.reply_enter]
    exact List.mem_append_right _ (List.mem_singleton_self pid)
  have hin := Ledger.mem_inside_ofLog hstart hmid
  cases h.run hbefore with
  | arriving _ hledger _ | opening _ hledger _ =>
    rw [hledger] at hin
    cases hin
  | @opened l hopened hledger _ _ =>
    rw [hledger] at hin
    obtain ⟨hnumber, hentered⟩ := hopened.lock.number htake hin
    have hid : s.processId.toInt = 0 + l.released.length := hnumber
    refine ⟨l.released.length, by rw [hid, Int.zero_add], ?_⟩
    obtain ⟨more, hmore⟩ := (Ledger.ofLog_grows (first ++ [_] ++ mid) (_ :: last)).1
    rw [← hmore, hledger]
    show (l.entered ++ more)[l.released.length]? = some pid
    rw [hentered, List.append_assoc, List.getElem?_append_right (Nat.le_refl _), Nat.sub_self]
    rfl

theorem Dawn.opener (h : Dawn m log) {e : Event} (ht : m.Takes e.pid e.what m')
    (ho : (Ledger.ofLog log).Opens e) :
    e.pid = 1 ∧ Ledger.ofLog log = .empty ∧ repliesTo 1 log = [Reply.unset] := by
  obtain ⟨hout, a1, a, hwhat⟩ := ho
  cases h with
  | arriving hdark _ _ =>
    obtain ⟨-, ⟨⟨how, he⟩, -⟩ | ⟨he, -⟩⟩ := hdark.load ht
    · cases hwhat.symm.trans he
    · cases hwhat.symm.trans he
  | opening hdark hledger hreplies => exact ⟨(hdark.opens ht).1, hledger, hreplies⟩
  | opened hopened hledger _ _ =>
    rw [hwhat] at ht
    have hinside := hopened.lock.inside_of_release Program.outside_newcomer ht
    rw [hledger] at hout
    exact absurd (hinside ▸ List.mem_singleton_self e.pid) hout

theorem Dawn.closed (h : Dawn m log) (hreplies : (repliesTo 1 log).length < 2) :
    Ledger.ofLog log = .empty ∧ m.referee.permits lockId = 0 := by
  cases h with
  | arriving hdark hledger _ | opening hdark hledger _ => exact ⟨hledger, hdark.permits⟩
  | opened _ _ hmany _ => omega

theorem Dawn.exists_opened (h : Dawn m log) (hreplies : 2 ≤ (repliesTo 1 log).length) :
    ∃ l, Opened m l ∧ Ledger.ofLog log = l.opened ∧
      ∃ before e after, log = before ++ e :: after ∧ (Ledger.ofLog before).Opens e := by
  cases h with
  | arriving _ _ hfew | opening _ _ hfew =>
    rw [hfew] at hreplies
    exact absurd hreplies (by decide)
  | opened hopened hledger _ hopens => exact ⟨_, hopened, hledger, hopens⟩

theorem Dawn.balance (h : Dawn m log) (hreplies : 2 ≤ (repliesTo 1 log).length) :
    m.referee.permits lockId + (Ledger.ofLog log).inside.length = 1 ∧
      1 :: (Ledger.ofLog log).entered =
        (Ledger.ofLog log).released ++ (Ledger.ofLog log).inside := by
  obtain ⟨l, hopened, hledger, -⟩ := h.exists_opened hreplies
  obtain ⟨hpermits, hentered, -⟩ := hopened.lock.balance
  rw [hledger]
  exact ⟨hpermits, congrArg (List.cons 1) hentered⟩

theorem Dawn.permits_add_le (h : Dawn m log) :
    m.referee.permits lockId + (Ledger.ofLog log).inside.length ≤ 1 := by
  rcases Nat.lt_or_ge (repliesTo 1 log).length 2 with hfew | hmany
  · obtain ⟨hledger, hpermits⟩ := h.closed hfew
    rw [hledger, hpermits]
    exact Nat.zero_le 1
  · exact (h.balance hmany).1.le

theorem Dawn.count (h : Dawn m log) (hnobody : (Ledger.ofLog log).inside = []) :
    (m.referee.load countSlot).toInt = (Ledger.ofLog log).entered.length := by
  cases h with
  | arriving hdark hledger _ | opening hdark hledger _ =>
    rw [hdark.count, hledger]
    rfl
  | opened hopened hledger _ _ =>
    obtain ⟨-, -, hcount⟩ := hopened.lock.balance
    rw [hledger] at hnobody ⊢
    exact (hcount hnobody).trans (Int.zero_add _)

theorem dark_boot {plan : Plan} (hp : plan.Unopened) (program : String) (args : List String) :
    Dark Program.Registers (plan.build.boot program args).1 := by
  obtain ⟨booted, referee, hreferee, hboot⟩ := boot_launched plan.build program args
  have hbuild : plan.build.referee = plan.referee := by
    rw [Plan.build, hp.lockInit]
  obtain ⟨hpermits, hcount⟩ : referee.permits lockId = 0 ∧ referee.load countSlot = 0 := by
    rw [hbuild] at hreferee
    rcases hreferee with rfl | rfl
    · exact ⟨hp.permits, hp.count⟩
    · obtain ⟨slots, hslots⟩ := plan.referee.setText_eq .shellProgram program Slot.shellProgramWords
      constructor
      · rw [hslots]
        exact hp.permits
      · rw [plan.referee.load_setText .shellProgram program (by decide)]
        exact hp.count
  have hdark : Dark Program.Registers { plan.build with booted, referee } :=
    ⟨hp.images, hpermits, hcount, fun q t ht => by simp [task?, Plan.build] at ht⟩
  generalize (plan.build.boot program args).1 = m at hboot
  rcases hboot with rfl | ⟨r, hl⟩
  · exact hdark
  · cases hl with
    | unknown | crowded => exact hdark
    | @started image processes child last r hi hs hlast =>
      refine ⟨hp.images, hpermits, hcount, fun q t ht => ?_⟩
      obtain ⟨n, rfl, hn⟩ := (task?_eq_some_iff _ q t).mp ht
      obtain ⟨rfl, rfl⟩ : n = 0 ∧ last = some t := by
        simpa [Plan.build, List.getElem?_singleton] using hn
      obtain ⟨⟨⟩, -⟩ | ⟨⟨⟩, -⟩ := hlast
      exact ⟨rfl, hp.images _ _ hi _ _⟩

/-- What comes of a lock that the first process opens. -/
structure OpenedOnce (m : Machine) (log : List Event) : Prop where
  /-- Nobody uses the lock until process 1 has been answered twice. -/
  closed : (repliesTo 1 log).length < 2 →
    Ledger.ofLog log = .empty ∧ m.referee.permits lockId = 0
  /-- Then one V has opened it, and all others were made inside. -/
  opening : 2 ≤ (repliesTo 1 log).length →
    ∃! before, ∃ e after, log = before ++ e :: after ∧ (Ledger.ofLog before).Opens e
  opener : ∀ before e after, log = before ++ e :: after → (Ledger.ofLog before).Opens e →
    e.pid = 1 ∧ Ledger.ofLog before = .empty ∧ repliesTo 1 before = [Reply.unset]
  balance : 2 ≤ (repliesTo 1 log).length →
    m.referee.permits lockId + (Ledger.ofLog log).inside.length = 1 ∧
      1 :: (Ledger.ofLog log).entered = (Ledger.ofLog log).released ++ (Ledger.ofLog log).inside
  permits : m.referee.permits lockId ≤ 1
  exclusive : (Ledger.ofLog log).inside.length ≤ 1
  once : (Ledger.ofLog log).entered.Nodup
  count : (Ledger.ofLog log).inside = [] →
    (m.referee.load countSlot).toInt = (Ledger.ofLog log).entered.length
  /-- Numbers are given out from zero on, in the order in which the lock is entered. -/
  number : ∀ pid replies rest s, repliesTo pid log = replies ++ rest →
    (Session.register .firstProcess).replay replies = some s →
    ∃ n : Nat, s.processId.toInt = n ∧ (Ledger.ofLog log).entered[n]? = some pid

theorem Dawn.openedOnce (h : Dawn m []) (hration : Rationed 1 m .empty) (hr : m.Run log m') :
    OpenedOnce m' log := by
  have hdawn := h.run hr
  have hopener : ∀ before e after, log = before ++ e :: after → (Ledger.ofLog before).Opens e →
      e.pid = 1 ∧ Ledger.ofLog before = .empty ∧ repliesTo 1 before = [Reply.unset] := by
    intro before e after hlog ho
    obtain ⟨b, b', hbefore, -, htake, -⟩ := hr.split hlog
    exact (h.run hbefore).opener htake ho
  refine ⟨hdawn.closed, ?_, hopener, hdawn.balance, ?_, ?_, (hration.run hr).nodup, hdawn.count, ?_⟩
  · intro hreplies
    obtain ⟨-, -, -, before, e, after, hlog, ho⟩ := hdawn.exists_opened hreplies
    refine ⟨before, ⟨e, after, hlog, ho⟩, ?_⟩
    rintro other ⟨e', after', hlog', ho'⟩
    obtain ⟨-, hempty, -⟩ := hopener before e after hlog ho
    obtain ⟨-, hempty', -⟩ := hopener other e' after' hlog' ho'
    exact ho'.unique ho hempty' hempty (hlog'.symm.trans hlog)
  · exact (Nat.le_add_right ..).trans hdawn.permits_add_le
  · exact (Nat.le_add_left ..).trans hdawn.permits_add_le
  · exact fun pid replies rest s hreplies hs => h.number hr hreplies hs

/-- If every program registers before it does anything else, the lock that is left to the first
process is opened once and hands out the numbers from zero on, whoever starts whom. -/
theorem first_process_opens {plan : Plan} (hp : plan.Unopened) (program : String)
    (args : List String) {log : List Event} {m : Machine}
    (hr : (plan.build.boot program args).1.Run log m) : OpenedOnce m log := by
  have hdark := dark_boot hp program args
  exact (Dawn.arriving hdark rfl rfl).openedOnce hdark.rationed hr

def brood : Plan := { Plan.empty.register "p" fun _ _ =>
  (Session.register .firstProcess).bind fun s =>
    if s.processId = 0 then s.restart.bind fun _ => .done () else .done ()
  with lockInit := .firstProcess }

theorem brood_unopened : brood.Unopened where
  lockInit := rfl
  permits := rfl
  count := rfl
  images := by
    intro name image hi pid args
    obtain ⟨-, rfl⟩ := Prod.mk.inj (List.mem_singleton.mp (mem_of_lookup hi))
    refine ⟨_, fun s => ?_, rfl⟩
    split
    · exact .call nofun fun _ => .done ()
    · exact .done ()

def broodReplies (n : Word) : List Reply :=
  [⟨.ask Request.p.code lockId 0, (0 : Word)⟩,
    ⟨.ask Request.loadWord.code countSlot 0, n⟩,
    ⟨.ask Request.storeWord.code countSlot (n + 1), (0 : Word)⟩,
    ⟨.ask Request.v.code lockId 0, (0 : Word)⟩] ++
  loads Slot.shellProgram.index [112, 0, 0, 0] ++ loads Slot.testId.index [0]

def broodLog : List Event :=
  [⟨1, .answered Reply.unset.call Reply.unset.answer⟩,
    ⟨1, .answered (.ask Request.v.code lockId 0) (0 : Word)⟩] ++
  (broodReplies 0).map (Reply.event 1) ++
  [⟨1, .answered (.exec "p" []) (2 : Word)⟩,
    ⟨2, .answered (.ask Request.loadWord.code countSlot 0) (1 : Word)⟩] ++
  (broodReplies 1).map (Reply.event 2)

theorem brood_run : ∃ m, (brood.build.boot "p" []).1.Run broodLog m := by
  iterate 22 refine exists_run_cons rfl (.answered rfl rfl rfl rfl) ?_
  exact ⟨_, .start⟩

theorem first_process_opens_brood : ∃ m s, (brood.build.boot "p" []).1.Run broodLog m ∧
    OpenedOnce m broodLog ∧
    (Session.register .firstProcess).replay (repliesTo 2 broodLog) = some s ∧
    s.processId.toInt = 1 ∧ (Ledger.ofLog broodLog).released = [1, 1, 2] ∧
    m.referee.permits lockId = 1 ∧ (m.referee.load countSlot).toInt = 2 := by
  obtain ⟨m, hr⟩ := brood_run
  have hopened := first_process_opens brood_unopened "p" [] hr
  obtain ⟨s, hs⟩ : ∃ s,
      (Session.register .firstProcess).replay (repliesTo 2 broodLog) = some s := by
    apply Exists.intro
    rfl
  obtain ⟨n, hid, hn⟩ := hopened.number 2 _ [] s (List.append_nil _).symm hs
  have hledger : Ledger.ofLog broodLog = ⟨[1, 2], [1, 1, 2], []⟩ := by rfl
  obtain ⟨hbalance, -⟩ := hopened.balance (by decide)
  have hcount := hopened.count (congrArg Ledger.inside hledger)
  rw [hledger] at hn hbalance hcount
  have hsecond : n = 1 := by
    match n, hn with
    | 1, _ => rfl
  rw [hsecond] at hid
  exact ⟨m, s, hr, hopened, hs, hid, congrArg Ledger.released hledger, hbalance, hcount⟩

end Machine

end KernelExam

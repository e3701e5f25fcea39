import KernelExam.Proofs.Machine.Settling
import KernelExam.Proofs.Machine.Shadow

/-!
# Strides

Much of what a process does is nobody else's business: it loads words that never change,
it works on the process count while it holds the process lock, and it leaves. A stride is
one step that others can notice together with all such steps after it. Whatever comes of
every order of strides comes of every order of steps, so registration may be taken to
happen at once, and the orders that are left are few enough to be gone through.
-/

set_option autoImplicit false

namespace KernelExam

/-- How a process gets from one program to another, in that many steps, by itself. The words
are there while it holds the process lock: the process count as it is, and as it will be
when the lock is released. -/
inductive Pursues (slots : Word → Word) :
    Option (Word × Word) → Nat → Program Unit → Program Unit → Prop
  | there (x : Program Unit) : Pursues slots none 0 x x
  | load {held : Option (Word × Word)} {k : Nat} {i w : Word} {next : Word → Program Unit}
      {y : Program Unit} : Slot.isConstant i = true → Pursues slots held k (next (slots i)) y →
      Pursues slots held (k + 1) (.call (.ask Request.loadWord.code i w) next) y
  | count {c c' w : Word} {k : Nat} {next : Word → Program Unit} {y : Program Unit} :
      Pursues slots (some (c, c')) k (next c) y →
      Pursues slots (some (c, c')) (k + 1)
        (.call (.ask Request.loadWord.code Slot.processCount.index w) next) y
  | store {c c' w : Word} {k : Nat} {next : Word → Program Unit} {y : Program Unit} :
      Pursues slots (some (w, c')) k (next 0) y →
      Pursues slots (some (c, c')) (k + 1)
        (.call (.ask Request.storeWord.code Slot.processCount.index w) next) y
  | release {c w : Word} {k : Nat} {next : Word → Program Unit} {y : Program Unit} :
      Pursues slots none k (next 0) y →
      Pursues slots (some (c, c)) (k + 1)
        (.call (.ask Request.v.code Semaphore.processLock.id w) next) y

namespace Program

def coast (slots : Word → Word) : Program Unit → Nat × Program Unit
  | .call (.ask request i w) next =>
    if request = Request.loadWord.code ∧ Slot.isConstant i = true then
      let rest := coast slots (next (slots i))
      (rest.1 + 1, rest.2)
    else (0, .call (.ask request i w) next)
  | x => (0, x)

def release : Word → Program Unit → Option (Nat × Word × Program Unit)
  | count, .call (.ask request i w) next =>
    if request = Request.loadWord.code ∧ i = Slot.processCount.index then
      (release count (next count)).map fun r => (r.1 + 1, r.2)
    else if request = Request.storeWord.code ∧ i = Slot.processCount.index then
      (release w (next 0)).map fun r => (r.1 + 1, r.2)
    else if request = Request.v.code ∧ i = Semaphore.processLock.id then
      some (1, count, next 0)
    else none
  | _, _ => none

theorem pursues_coast (slots : Word → Word) (x : Program Unit) :
    Pursues slots none (x.coast slots).1 x (x.coast slots).2 := by
  induction x with
  | call c next ih =>
    cases c with
    | ask request i w =>
      rw [coast]
      split
      · rename_i hload
        obtain ⟨rfl, hi⟩ := hload
        exact .load hi (ih (slots i))
      · exact .there _
    | _ => exact .there _
  | _ => exact .there _

theorem pursues_release (slots : Word → Word) {x z y : Program Unit} {count c : Word} {j k : Nat}
    (h : x.release count = some (j, c, z)) (hz : Pursues slots none k z y) :
    Pursues slots (some (count, c)) (j + k) x y := by
  induction x generalizing count j with
  | call call next ih =>
    cases call with
    | ask request i w =>
      rw [release] at h
      split at h
      · rename_i hload
        obtain ⟨rfl, rfl⟩ := hload
        obtain ⟨⟨j, c', z'⟩, hnext, heq⟩ := Option.map_eq_some_iff.mp h
        cases heq
        rw [Nat.add_right_comm]
        exact .count (ih _ hnext)
      · split at h
        · rename_i hstore
          obtain ⟨rfl, rfl⟩ := hstore
          obtain ⟨⟨j, c', z'⟩, hnext, heq⟩ := Option.map_eq_some_iff.mp h
          cases heq
          rw [Nat.add_right_comm]
          exact .store (ih _ hnext)
        · split at h
          · rename_i hrelease
            obtain ⟨rfl, rfl⟩ := hrelease
            cases h
            rw [Nat.add_comm]
            exact .release hz
          · cases h
    | _ => cases h
  | _ => cases h

end Program

/-- What a process can do in a stride. A process is astray when its next step is not one
that others take no notice of and not a civil call either. -/
inductive Stride where
  | waits
  | moves (m : Machine)
  | astray

def Stride.isMove : Stride → Bool
  | .moves _ => true
  | _ => false

namespace Machine

def longest : Nat := 15

def land (m : Machine) (q : Pid) (t : Task) (steps : Nat) (y : Program Unit) : Stride :=
  if longest < steps then .astray
  else match y with
    | .exit status =>
      if (m.processes.get? q).any fun p => p.cwd = "/" then
        .moves ((m.setTask q { t with body := y }).finish q (.exited status))
      else .astray
    | _ => .moves (m.setTask q { t with body := y })

def enter (slots : Word → Word) (m : Machine) (q : Pid) (t : Task) (x : Program Unit) : Stride :=
  match x.release (m.referee.slots Slot.processCount.index) with
  | some (steps, count, z) =>
    let rest := z.coast slots
    { m with referee := m.referee.store Slot.processCount.index count }.land q t
      (steps + rest.1) rest.2
  | none => .astray

def strideCall (slots : Word → Word) (m : Machine) (q : Pid) (t : Task) (c : Call)
    (next : c.Answer → Program Unit) : Stride :=
  if c.civil then match m.serve q c with
    | (m', .answer a) => m'.land q t ((next a).coast slots).1 ((next a).coast slots).2
    | (_, .blocked) => .waits
    | (_, .fault _) => .astray
  else match c, next with
    | .ask request i _, next =>
      if request = Request.p.code ∧ i = Semaphore.processLock.id then m.enter slots q t (next 0)
      else .astray
    | _, _ => .astray

def stride (slots : Word → Word) (m : Machine) (q : Pid) : Stride :=
  if m.alive q then match m.task? q with
    | some t => match t.body with
      | .call c next => m.strideCall slots q t c next
      | _ => .astray
    | none => .astray
  else .waits

/-- Whether every order of at most that many strides comes to a report of what is wanted. -/
def surely (slots : Word → Word) (wanted : Showing → Bool) : Nat → Machine → Bool
  | 0, _ => false
  | k + 1, m => match m.showing? with
    | some s => wanted s
    | none => (m.pids.any fun q => (m.stride slots q).isMove) &&
      m.pids.all fun q => match m.stride slots q with
        | .waits => true
        | .moves m' => surely slots wanted k m'
        | .astray => false

/-- A process that is so many steps behind on the first of two machines. -/
inductive Follows (slots : Word → Word) (held : Option (Word × Word)) (m n : Machine) (q : Int) :
    Nat → Prop
  | stays {p : ProcessState} {t u : Task} {k : Nat} : m.processes.get? q = some p →
      p.termination = none → n.processes.get? q = some p → m.task? q = some t →
      n.task? q = some u → Pursues slots held k t.body u.body → Follows slots held m n q k
  | leaves {p : ProcessState} {t u : Task} {status : Word} {k : Nat} :
      m.processes.get? q = some p → p.termination = none → p.cwd = "/" →
      n.processes.get? q = some (ProcessTable.ended (.exited status) p) → m.task? q = some t →
      n.task? q = some u → Pursues slots held k t.body (.exit status) →
      Follows slots held m n q (k + 1)

def holding (m n : Machine) (holder : Option Int) (q : Int) : Option (Word × Word) :=
  if holder = some q then
    some (m.referee.slots Slot.processCount.index, n.referee.slots Slot.processCount.index)
  else none

structure Ahead (slots : Word → Word) (holder : Option Int) (m n : Machine) : Prop where
  shadows : m.Shadows n
  constants : ∀ i, Slot.isConstant i = true → m.referee.slots i = slots i
  unlocked : n.referee.permits Semaphore.processLock.id = 1
  lock : m.referee.permits Semaphore.processLock.id = if holder = none then 1 else 0
  count : holder = none →
    n.referee.slots Slot.processCount.index = m.referee.slots Slot.processCount.index
  holds : ∀ q, holder = some q → m.alive q = true

/-- The second machine is where the first comes when everybody has taken the steps of its
stride; `lag` says how many are missing. -/
structure Trails (slots : Word → Word) (holder : Option Int) (lag : Int → Nat) (m n : Machine) : Prop
    extends Ahead slots holder m n where
  follows : ∀ q, m.alive q = true → Follows slots (holding m n holder q) m n q (lag q)
  dead : ∀ q, m.alive q = false → lag q = 0

variable {slots : Word → Word} {holder : Option Int} {lag : Int → Nat} {m n m' n' : Machine} {q : Int}

theorem Follows.alive {held : Option (Word × Word)} {k : Nat} (h : Follows slots held m n q k) :
    m.alive q = true := by
  cases h with
  | stays hp hlive _ _ _ _ => exact (alive_iff ..).mpr ⟨_, hp, hlive⟩
  | leaves hp hlive _ _ _ _ _ => exact (alive_iff ..).mpr ⟨_, hp, hlive⟩

theorem Follows.congr {held : Option (Word × Word)} {k : Nat} {n' : Machine}
    (h : Follows slots held m n q k) (hm : m'.processes.get? q = m.processes.get? q)
    (hn : n'.processes.get? q = n.processes.get? q)
    (ht : ∀ t, m.task? q = some t → m'.task? q = some t)
    (hu : ∀ t, n.task? q = some t → n'.task? q = some t) : Follows slots held m' n' q k := by
  cases h with
  | stays hp hlive hn' htask huser hpursues =>
    exact .stays (hm.trans hp) hlive (hn.trans hn') (ht _ htask) (hu _ huser) hpursues
  | leaves hp hlive hcwd hn' htask huser hpursues =>
    exact .leaves (hm.trans hp) hlive hcwd (hn.trans hn') (ht _ htask) (hu _ huser) hpursues

theorem setTask_eq (m : Machine) (q : Int) (t : Task) :
    ∃ tasks, tasks.length = m.tasks.length ∧ m.setTask q t = { m with tasks } := by
  rw [setTask]
  split
  · exact ⟨_, List.length_set, rfl⟩
  · exact ⟨_, rfl, rfl⟩

theorem Ahead.with_tasks (h : Ahead slots holder m n) {ms ns : List (Option Task)}
    (hm : ms.length = m.tasks.length) (hn : ns.length = n.tasks.length) :
    Ahead slots holder { m with tasks := ms } { n with tasks := ns } :=
  { h with shadows := { h.shadows with tasks := ⟨hm.trans h.shadows.tasks.1, hn.trans h.shadows.tasks.2⟩ } }

theorem Ahead.trails (h : Ahead slots holder m n) {k : Nat}
    (hself : Follows slots (holding m n holder q) m n q k)
    (hrest : ∀ r, r ≠ q → m.alive r = true → Follows slots (holding m n holder r) m n r (lag r))
    (hdead : ∀ r, m.alive r = false → lag r = 0) :
    Trails slots holder (Function.update lag q k) m n := by
  refine ⟨h, ?_, ?_⟩
  · intro r hr
    by_cases hrq : r = q
    · subst hrq
      rw [Function.update_self]
      exact hself
    · rw [Function.update_of_ne hrq]
      exact hrest r hrq hr
  · intro r hr
    have hrq : r ≠ q := by
      rintro rfl
      rw [hself.alive] at hr
      cases hr
    rw [Function.update_of_ne hrq]
    exact hdead r hr

theorem step_answered {pid : Pid} {t : Task} {c : Call} {next : c.Answer → Program Unit} {a : c.Answer}
    (ha : m.alive pid = true) (ht : m.task? pid = some t) (hb : t.body = .call c next)
    (hh : m.referee.halted = false) (hs : m.serve pid c = (m', .answer a)) :
    m.step pid = some (m'.setTask pid { t with body := next a }) :=
  (step_eq_some_iff ..).mpr ⟨ha, _, .answered ht hb hh hs⟩

theorem Trails.proceed (h : Trails slots holder lag m n) {x : Referee}
    {holder' : Option Int} {t : Task} {k : Nat} (ht : m.task? q = some t) (t' : Task)
    (hahead : Ahead slots holder' { m with referee := x } n)
    (hothers : ∀ r, r ≠ q → holding { m with referee := x } n holder' r = holding m n holder r)
    (hfollows : ∀ m' : Machine, m'.processes = m.processes → m'.task? q = some t' →
      Follows slots (holding { m with referee := x } n holder' q) m' n q k) :
    Trails slots holder' (Function.update lag q k)
      (({ m with referee := x } : Machine).setTask q t') n := by
  have hself : (({ m with referee := x } : Machine).setTask q t').task? q = some t' :=
    task?_setTask_self (m := { m with referee := x }) ht t'
  have hother : ∀ r, r ≠ q → (({ m with referee := x } : Machine).setTask q t').task? r = m.task? r :=
    fun r hr => task?_setTask_of_ne { m with referee := x } q r t' hr
  obtain ⟨tasks, hlength, heq⟩ := setTask_eq { m with referee := x } q t'
  rw [heq] at hself hother ⊢
  apply (hahead.with_tasks hlength rfl).trails (hfollows _ rfl hself)
  · intro r hr ha
    have hsame : holding { m with referee := x, tasks } n holder' r = holding m n holder r :=
      hothers r hr
    rw [hsame]
    exact (h.follows r ha).congr rfl rfl (fun u hu => (hother r hr).trans hu) fun _ => id
  · exact h.dead

theorem Trails.leave (h : Trails slots holder lag m n) {p : ProcessState} {status : Word}
    (hp : m.processes.get? q = some p) (hlive : p.termination = none)
    (hn : n.processes.get? q = some (ProcessTable.ended (.exited status) p))
    (hfree : holder ≠ some q) :
    Trails slots holder (Function.update lag q 0) (m.finish q (.exited status)) n := by
  have ha : m.alive q = true := (alive_iff ..).mpr ⟨p, hp, hlive⟩
  have hget : ∀ r, (m.finish q (.exited status)).processes.get? r =
      if r = q then (m.processes.get? r).map (ProcessTable.ended (.exited status))
      else m.processes.get? r :=
    fun r => ProcessTable.get?_terminate m.processes q r (.exited status)
  have hlength : (m.finish q (.exited status)).processes.slots.length = m.processes.slots.length :=
    ProcessTable.length_terminate ..
  have hshadows : (m.finish q (.exited status)).Shadows n := by
    refine { h.shadows with referee := { h.shadows.referee with }, started := ?_, tasks := ?_, entries := ?_ }
    · rw [hlength, h.shadows.started]
    · rw [hlength]
      exact h.shadows.tasks
    · intro r
      rw [hget]
      by_cases hr : r = q
      · rw [if_pos hr, hr, hp, hn]
        exact .same _
      · rw [if_neg hr]
        exact h.shadows.entries r
  refine ⟨{ h.toAhead with shadows := hshadows, holds := ?_ }, ?_, ?_⟩
  · intro r hr
    refine (alive_finish _ ha).mpr ⟨?_, h.holds r hr⟩
    rintro rfl
    exact hfree hr
  · intro r hr
    obtain ⟨hne, hr⟩ := (alive_finish _ ha).mp hr
    rw [Function.update_of_ne hne]
    exact (h.follows r hr).congr (by rw [hget, if_neg hne]) rfl (fun _ => id) fun _ => id
  · intro r hr
    by_cases hne : r = q
    · rw [hne, Function.update_self]
    · rw [Function.update_of_ne hne]
      apply h.dead
      rw [← Bool.not_eq_true] at hr ⊢
      exact fun hold => hr ((alive_finish _ ha).mpr ⟨hne, hold⟩)

inductive Bound (m n : Machine) (q : Int) (j : Nat) : Nat → Program Unit → Prop
  | stays {y : Program Unit} : Bound m n q j j y
  | leaves {p : ProcessState} {status : Word} : m.processes.get? q = some p →
      p.termination = none → n.processes.get? q = some (ProcessTable.ended (.exited status) p) →
      Bound m n q j (j + 1) (.exit status)

theorem Bound.le {j k : Nat} {y : Program Unit} (h : Bound m n q j k y) : j ≤ k := by
  cases h with
  | stays => exact Nat.le_refl j
  | leaves _ _ _ => exact Nat.le_succ j

theorem Follows.resume {held : Option (Word × Word)} {k : Nat} (h : Follows slots held m n q k) :
    ∃ t j y, m.task? q = some t ∧ Pursues slots held j t.body y ∧ Bound m n q j k y ∧
      ∀ {held' : Option (Word × Word)} {i : Nat} {t' : Task} {m' : Machine},
        m'.processes = m.processes → m'.task? q = some t' → Pursues slots held' i t'.body y →
        Follows slots held' m' n q (k - j + i) := by
  cases h with
  | @stays p t u k hp hlive hn ht hu hpursues =>
    refine ⟨t, k, u.body, ht, hpursues, .stays, ?_⟩
    intro held' i t' m' hm ht' hpursues'
    rw [Nat.sub_self, Nat.zero_add]
    exact .stays (hm ▸ hp) hlive hn ht' hu hpursues'
  | @leaves p t u status k hp hlive hcwd hn ht hu hpursues =>
    refine ⟨t, k, .exit status, ht, hpursues, .leaves hp hlive hn, ?_⟩
    intro held' i t' m' hm ht' hpursues'
    rw [Nat.add_sub_cancel_left, Nat.add_comm]
    exact .leaves (hm ▸ hp) hlive hcwd hn ht' hu hpursues'

section CatchUp

variable {t : Task} {i w : Word} {next : Word → Program Unit} {k : Nat}

theorem Trails.load (h : Trails slots holder lag m n) (hh : m.referee.halted = false)
    (ha : m.alive q = true) (ht : m.task? q = some t)
    (hb : t.body = .call (.ask Request.loadWord.code i w) next)
    (hfollows : ∀ m' : Machine, m'.processes = m.processes →
      m'.task? q = some { t with body := next (m.referee.slots i) } →
      Follows slots (holding m n holder q) m' n q k) :
    ∃ m' holder', m.step q = some m' ∧ Trails slots holder' (Function.update lag q k) m' n := by
  refine ⟨_, holder, step_answered ha ht hb hh (m.serve_loadWord q i w), ?_⟩
  exact h.proceed ht _ h.toAhead (fun _ _ => rfl) hfollows

theorem Trails.store (h : Trails slots (some q) lag m n) (hh : m.referee.halted = false)
    (ha : m.alive q = true) (ht : m.task? q = some t)
    (hb : t.body = .call (.ask Request.storeWord.code Slot.processCount.index w) next)
    (hfollows : ∀ m' : Machine, m'.processes = m.processes →
      m'.task? q = some { t with body := next 0 } →
      Follows slots (some (w, n.referee.slots Slot.processCount.index)) m' n q k) :
    ∃ m' holder', m.step q = some m' ∧ Trails slots holder' (Function.update lag q k) m' n := by
  refine ⟨_, some q, step_answered ha ht hb hh (m.serve_storeWord q _ w), ?_⟩
  have hslots : ∀ i, i ≠ Slot.processCount.index →
      (m.referee.store Slot.processCount.index w).slots i = m.referee.slots i :=
    fun i hi => if_neg hi
  have hcount : (m.referee.store Slot.processCount.index w).load Slot.processCount.index = w := by
    rw [Referee.load_store, if_pos rfl]
  rw [Referee.load] at hcount
  apply h.proceed ht
  · refine { h.toAhead with shadows := ?_, constants := ?_, count := nofun }
    · refine { h.shadows with referee := { h.shadows.referee with slots := ?_ } }
      intro i hi
      rw [hslots i hi, h.shadows.referee.slots i hi]
    · intro i hi
      exact (hslots i (Slot.ne_processCount (.inr hi))).trans (h.constants i hi)
  · intro r hr
    have hne : some q ≠ some r := fun hsame => hr (Option.some.inj hsame).symm
    rw [holding, holding, if_neg hne, if_neg hne]
  · intro m' hm ht'
    rw [holding, if_pos rfl]
    dsimp only
    rw [hcount]
    exact hfollows m' hm ht'

theorem Trails.release (h : Trails slots (some q) lag m n) (hh : m.referee.halted = false)
    (ha : m.alive q = true) (ht : m.task? q = some t)
    (hb : t.body = .call (.ask Request.v.code Semaphore.processLock.id w) next)
    (hcount : n.referee.slots Slot.processCount.index = m.referee.slots Slot.processCount.index)
    (hfollows : ∀ m' : Machine, m'.processes = m.processes →
      m'.task? q = some { t with body := next 0 } → Follows slots none m' n q k) :
    ∃ m' holder', m.step q = some m' ∧ Trails slots holder' (Function.update lag q k) m' n := by
  have hpermits : m.referee.permits Semaphore.processLock.id = 0 := h.lock
  have hfew : m.referee.permits Semaphore.processLock.id < Referee.maxPermits := by
    rw [hpermits]
    decide
  refine ⟨_, none, step_answered ha ht hb hh (m.serve_v q _ w hfew), ?_⟩
  apply h.proceed ht
  · refine { h.toAhead with shadows := ?_, lock := ?_, count := fun _ => hcount, holds := nofun }
    · refine { h.shadows with referee := { h.shadows.referee with permits := ?_ } }
      intro id hid
      rw [Referee.permits_setPermits, if_neg hid, h.shadows.referee.permits id hid]
    · rw [Referee.permits_setPermits, if_pos rfl, hpermits]
      rfl
  · intro r hr
    have hne : some q ≠ some r := fun hsame => hr (Option.some.inj hsame).symm
    rw [holding, holding, if_neg hne, if_neg nofun]
  · intro m' hm ht'
    rw [holding, if_neg nofun]
    exact hfollows m' hm ht'

end CatchUp

theorem holding_eq_some {c c' : Word} (h : holding m n holder q = some (c, c')) :
    holder = some q ∧ c = m.referee.slots Slot.processCount.index ∧
      c' = n.referee.slots Slot.processCount.index := by
  rw [holding] at h
  split at h
  · rename_i hq
    obtain ⟨rfl, rfl⟩ := Prod.mk.inj (Option.some.inj h)
    exact ⟨hq, rfl, rfl⟩
  · cases h

/-- Who is behind can always take its next step, and is then one step less behind. -/
theorem Trails.catchUp (h : Trails slots holder lag m n) (hh : m.referee.halted = false)
    (ha : m.alive q = true) (hlag : lag q ≠ 0) :
    ∃ m' holder', m.step q = some m' ∧
      Trails slots holder' (Function.update lag q (lag q - 1)) m' n := by
  obtain ⟨t, j, y, ht, hpursues, hbound, hresume⟩ := (h.follows q ha).resume
  have hle := hbound.le
  generalize hheld : holding m n holder q = held at hpursues hresume
  generalize hb : t.body = x at hpursues
  cases hpursues with
  | there _ =>
    generalize hl : lag q = l at hbound hlag
    cases hbound with
    | stays => exact absurd rfl hlag
    | @leaves p status hp hlive hn =>
      have hfree : holder ≠ some q := by
        intro hq
        rw [holding, if_pos hq] at hheld
        cases hheld
      exact ⟨_, holder, (step_eq_some_iff ..).mpr ⟨ha, _, .exit ht hb⟩, h.leave hp hlive hn hfree⟩
  | @load _ k i w next _ hi hrest =>
    rw [show lag q - 1 = lag q - (k + 1) + k by omega]
    apply h.load hh ha ht hb
    intro m' hm ht'
    rw [h.constants i hi] at ht'
    rw [hheld]
    exact hresume hm ht' hrest
  | @count c c' w k next _ hrest =>
    obtain ⟨-, rfl, -⟩ := holding_eq_some hheld
    rw [show lag q - 1 = lag q - (k + 1) + k by omega]
    apply h.load hh ha ht hb
    intro m' hm ht'
    rw [hheld]
    exact hresume hm ht' hrest
  | @store c c' w k next _ hrest =>
    obtain ⟨rfl, -, rfl⟩ := holding_eq_some hheld
    rw [show lag q - 1 = lag q - (k + 1) + k by omega]
    exact h.store hh ha ht hb fun m' hm ht' => hresume hm ht' hrest
  | @release c w k next _ hrest =>
    obtain ⟨rfl, hc, hc'⟩ := holding_eq_some hheld
    rw [show lag q - 1 = lag q - (k + 1) + k by omega]
    exact h.release hh ha ht hb (hc'.symm.trans hc) fun m' hm ht' => hresume hm ht' hrest

end Machine

end KernelExam

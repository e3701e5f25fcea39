import KernelExam.Proofs.Machine.Strides
import Mathlib.Algebra.BigOperators.Group.Finset.Piecewise
import Mathlib.Algebra.Order.BigOperators.Group.Finset

/-!
# Every order of strides

A step of the machine is either the first of a stride, which the machine ahead takes as a
whole, or one of those still missing on the machine behind. So going through the orders of
strides is enough to know what every order of steps comes to.
-/

set_option autoImplicit false

namespace KernelExam

namespace Machine

variable {slots : Word → Word} {holder : Option Int} {lag : Int → Nat} {m n m' n' : Machine} {q : Int}

theorem Follows.level {held : Option (Word × Word)} (h : Follows slots held m n q 0) :
    held = none ∧ ∃ p t u, m.processes.get? q = some p ∧ p.termination = none ∧
      n.processes.get? q = some p ∧ m.task? q = some t ∧ n.task? q = some u ∧ u.body = t.body := by
  cases h with
  | @stays p t u _ hp hlive hn ht hu hpursues =>
    generalize hx : t.body = x at hpursues
    generalize hy : u.body = y at hpursues
    cases hpursues with
    | there _ => exact ⟨rfl, p, t, u, hp, hlive, hn, ht, hu, hy.trans hx.symm⟩

theorem holding_eq_none_iff : holding m n holder q = none ↔ holder ≠ some q := by
  rw [holding]
  by_cases hq : holder = some q
  · simp [hq]
  · simp [hq]

theorem Shadows.alive_of_alive (h : m.Shadows n) (ha : n.alive q = true) : m.alive q = true := by
  obtain ⟨p, hp, hlive⟩ := (alive_iff ..).mp ha
  have hentry := h.entries q
  rw [hp] at hentry
  generalize ho : m.processes.get? q = o at hentry
  cases hentry with
  | same _ => exact (alive_iff ..).mpr ⟨p, ho, hlive⟩
  | @left p status hlive' hcwd => exact (alive_iff ..).mpr ⟨p, ho, hlive'⟩

theorem Shadows.showing? (h : m.Shadows n) : n.showing? = m.showing? := by
  rw [Machine.showing?, Machine.showing?, h.referee.outcome, h.referee.checkpoints, h.stdout]

section Landing

variable {p : ProcessState} {t u : Task} {k : Nat} {y : Program Unit}

theorem Ahead.finish (h : Ahead slots holder m n) (status : Word) (hp : m.processes.get? q = some p)
    (hlive : p.termination = none) (hcwd : p.cwd = "/") (hn : n.processes.get? q = some p) :
    Ahead slots holder m (n.finish q (.exited status)) := by
  have hlength : (n.finish q (.exited status)).processes.slots.length = n.processes.slots.length :=
    ProcessTable.length_terminate ..
  refine { h with shadows := { h.shadows with referee := { h.shadows.referee with }, started := ?_,
                                              tasks := ?_, entries := ?_ } }
  · rw [hlength, h.shadows.started]
  · exact h.shadows.tasks
  · intro r
    show Leaving _ ((n.processes.terminate q (.exited status)).1.get? r)
    rw [ProcessTable.get?_terminate]
    by_cases hr : r = q
    · rw [if_pos hr, hr, hp, hn]
      exact .left status hlive hcwd
    · rw [if_neg hr]
      exact h.shadows.entries r

theorem land_cases (m : Machine) (q : Int) (t : Task) (k : Nat) (y : Program Unit) :
    m.land q t k y = .astray ∨ ∃ m', m.land q t k y = .moves m' := by
  unfold land
  split
  · exact Or.inl rfl
  · cases y with
    | exit status =>
      dsimp only
      split
      · exact Or.inr ⟨_, rfl⟩
      · exact Or.inl rfl
    | _ => exact Or.inr ⟨_, rfl⟩

theorem Ahead.land (h : Ahead slots holder m n) (t' : Task) (hp : m.processes.get? q = some p)
    (hlive : p.termination = none) (hn : n.processes.get? q = some p) (ht : m.task? q = some t)
    (hu : n.task? q = some u) (hpursues : Pursues slots (holding m n holder q) k t'.body y)
    (hrest : ∀ r, r ≠ q → m.alive r = true → Follows slots (holding m n holder r) m n r (lag r))
    (hdead : ∀ r, m.alive r = false → lag r = 0) (hland : n.land q u k y = .moves n') :
    ∃ j, j ≤ longest + 1 ∧ Trails slots holder (Function.update lag q j) (m.setTask q t') n' := by
  unfold Machine.land at hland
  split at hland
  · cases hland
  rename_i hshort
  have hself := task?_setTask_self ht t'
  have hself' := task?_setTask_self hu { u with body := y }
  have hother : ∀ r, r ≠ q → (m.setTask q t').task? r = m.task? r :=
    fun r hr => task?_setTask_of_ne m q r t' hr
  have hother' : ∀ r, r ≠ q → (n.setTask q { u with body := y }).task? r = n.task? r :=
    fun r hr => task?_setTask_of_ne n q r _ hr
  obtain ⟨ms, hms, hm⟩ := setTask_eq m q t'
  obtain ⟨ns, hns, hn'⟩ := setTask_eq n q { u with body := y }
  rw [hm] at hself hother ⊢
  rw [hn'] at hself' hother'
  have hahead : Ahead slots holder { m with tasks := ms } { n with tasks := ns } :=
    h.with_tasks hms hns
  have hstays : ∃ j, j ≤ longest + 1 ∧ Trails slots holder (Function.update lag q j)
      { m with tasks := ms } { n with tasks := ns } := by
    refine ⟨k, by omega, hahead.trails (.stays hp hlive hn hself hself' hpursues) ?_ hdead⟩
    intro r hr ha
    exact (hrest r hr ha).congr rfl rfl (fun v hv => (hother r hr).trans hv)
      fun v hv => (hother' r hr).trans hv
  cases y with
  | exit status =>
    dsimp only at hland
    split at hland
    · rename_i hroot
      rw [hn, Option.any_some, decide_eq_true_eq] at hroot
      rw [hn'] at hland
      obtain rfl := Stride.moves.inj hland
      have hget : ∀ r, (({ n with tasks := ns } : Machine).finish q (.exited status)).processes.get? r =
          if r = q then (n.processes.get? r).map (ProcessTable.ended (.exited status))
          else n.processes.get? r :=
        fun r => ProcessTable.get?_terminate n.processes q r (.exited status)
      have hgone : (({ n with tasks := ns } : Machine).finish q (.exited status)).processes.get? q =
          some (ProcessTable.ended (.exited status) p) := by
        rw [hget, if_pos rfl, hn]
        rfl
      refine ⟨k + 1, by omega, (hahead.finish status hp hlive hroot hn).trails
        (.leaves hp hlive hroot hgone hself hself' hpursues) ?_ hdead⟩
      intro r hr ha
      exact (hrest r hr ha).congr rfl (by rw [hget, if_neg hr]) (fun v hv => (hother r hr).trans hv)
        fun v hv => (hother' r hr).trans hv
    · cases hland
  | _ =>
    rw [hn'] at hland
    obtain rfl := Stride.moves.inj hland
    exact hstays

end Landing

section Parallel

theorem Ahead.parallel (h : Ahead slots holder m n) (hp : Parallel q m n m' n') :
    Ahead slots holder m' n' where
  shadows := hp.shadows
  constants i hi := (hp.spared.1.constants i hi).trans (h.constants i hi)
  unlocked := hp.spared.2.lock.trans h.unlocked
  lock := hp.spared.1.lock.trans h.lock
  count hfree := by rw [hp.spared.1.count, hp.spared.2.count, h.count hfree]
  holds r hr := hp.living r (h.holds r hr)

theorem Parallel.holding (hp : Parallel q m n m' n') (r : Int) :
    Machine.holding m' n' holder r = Machine.holding m n holder r := by
  rw [Machine.holding, Machine.holding, hp.spared.1.count, hp.spared.2.count]

theorem Trails.others (h : Trails slots holder lag m n) (hp : Parallel q m n m' n') {r : Int}
    (hr : r ≠ q) (ha : m'.alive r = true) :
    Follows slots (Machine.holding m' n' holder r) m' n' r (lag r) := by
  rw [hp.holding]
  cases hold : m.alive r with
  | true =>
    obtain ⟨hm, hn⟩ := hp.others r hr hold
    exact (h.follows r hold).congr hm hn (fun t ht => (hp.kept r t).1 ht) fun t ht => (hp.kept r t).2 ht
  | false =>
    obtain ⟨t, ht, hu⟩ := hp.born r hold ha
    obtain ⟨p, hentry, hlive⟩ := (alive_iff ..).mp ha
    have hfree : Machine.holding m n holder r = none := by
      apply holding_eq_none_iff.mpr
      intro hr
      rw [h.holds r hr] at hold
      cases hold
    rw [hfree, h.dead r hold]
    exact .stays hentry hlive ((hp.rest r hold).trans hentry) ht hu (.there _)

end Parallel

section Advance

variable {p : ProcessState} {t u : Task} {c : Call} {next : c.Answer → Program Unit}

theorem stride_of_call (ha : n.alive q = true) (hu : n.task? q = some u) (hb : u.body = .call c next) :
    n.stride slots q = n.strideCall slots q u c next := by
  simp only [stride, if_pos ha, hu, hb]

theorem call_of_stride (ha : n.alive q = true) (hsafe : n.stride slots q ≠ .astray) :
    ∃ u c next, n.task? q = some u ∧ u.body = .call c next := by
  simp only [stride, if_pos ha] at hsafe
  cases hu : n.task? q with
  | none =>
    rw [hu] at hsafe
    exact absurd rfl hsafe
  | some u =>
    simp only [hu] at hsafe
    cases hb : u.body with
    | call c next => exact ⟨u, c, next, rfl, hb⟩
    | _ =>
      simp only [hb] at hsafe
      exact absurd rfl hsafe

theorem lock_of_strideCall (hc : c.civil = false) (hsafe : n.strideCall slots q u c next ≠ .astray) :
    ∃ w next', (⟨c, next⟩ : (c : Call) × (c.Answer → Program Unit)) =
        ⟨.ask Request.p.code Semaphore.processLock.id w, next'⟩ ∧
      n.strideCall slots q u c next = n.enter slots q u (next' (0 : Word)) := by
  cases c with
  | ask request i w =>
    by_cases hlock : request = Request.p.code ∧ i = Semaphore.processLock.id
    · obtain ⟨rfl, rfl⟩ := hlock
      refine ⟨w, next, rfl, ?_⟩
      simp only [strideCall, hc, Bool.false_eq_true, if_false, and_self, if_true]
    · simp only [strideCall, hc, Bool.false_eq_true, if_false, if_neg hlock] at hsafe
      exact absurd rfl hsafe
  | _ =>
    simp only [strideCall, hc, Bool.false_eq_true, if_false] at hsafe
    exact absurd rfl hsafe

theorem strideCall_of_civil (hc : c.civil = true) {a : c.Answer}
    (hs : n.serve q c = (n', .answer a)) : n.strideCall slots q u c next =
      n'.land q u ((next a).coast slots).1 ((next a).coast slots).2 := by
  simp only [strideCall, if_pos hc, hs]

theorem strideCall_of_blocked (hc : c.civil = true) (hs : n.serve q c = (n', .blocked)) :
    n.strideCall slots q u c next = .waits := by
  simp only [strideCall, if_pos hc, hs]

theorem strideCall_of_fault (hc : c.civil = true) {f : Fault} (hs : n.serve q c = (n', .fault f)) :
    n.strideCall slots q u c next = .astray := by
  simp only [strideCall, if_pos hc, hs]

/-- After a civil call a process lands on both machines, behind on the first by the loads
that follow. -/
theorem Trails.advance_civil (h : Trails slots holder lag m n) (hfree : holder ≠ some q)
    (ha : m.alive q = true) (ht : m.task? q = some t) (hu : n.task? q = some u) (hc : c.civil = true)
    {a : c.Answer} (hpar : Parallel q m n m' n') (hs : n.serve q c = (n', .answer a))
    (hsafe : n.strideCall slots q u c next ≠ .astray) :
    ∃ n₁ j, n.strideCall slots q u c next = .moves n₁ ∧ j ≤ longest + 1 ∧
      Trails slots holder (Function.update lag q j) (m'.setTask q { t with body := next a }) n₁ := by
  rw [strideCall_of_civil hc hs] at hsafe ⊢
  rcases n'.land_cases q u ((next a).coast slots).1 ((next a).coast slots).2 with hastray | ⟨n₁, hland⟩
  · exact absurd hastray hsafe
  · obtain ⟨p, hp, hlive⟩ := (alive_iff ..).mp (hpar.living q ha)
    have hnone : holding m' n' holder q = none := holding_eq_none_iff.mpr hfree
    have hpursues : Pursues slots (holding m' n' holder q) ((next a).coast slots).1 (next a)
        ((next a).coast slots).2 := by
      rw [hnone]
      exact Program.pursues_coast slots (next a)
    have hdead : ∀ r, m'.alive r = false → lag r = 0 := by
      intro r hr
      cases hold : m.alive r with
      | true =>
        rw [hpar.living r hold] at hr
        cases hr
      | false => exact h.dead r hold
    obtain ⟨j, hj, htrails⟩ := (h.toAhead.parallel hpar).land { t with body := next a } hp
      hlive (hpar.own.trans hp) ((hpar.kept q t).1 ht) ((hpar.kept q u).2 hu) hpursues
      (fun r hr har => h.others hpar hr har) hdead hland
    exact ⟨n₁, j, hland, hj, htrails⟩

/-- Who takes the process lock is taken to have released it already on the machine ahead. -/
theorem Trails.advance_lock (h : Trails slots none lag m n) {x : Program Unit}
    (hp : m.processes.get? q = some p) (hlive : p.termination = none)
    (hn : n.processes.get? q = some p) (ht : m.task? q = some t) (hu : n.task? q = some u)
    (hsafe : n.enter slots q u x ≠ .astray) :
    ∃ n₁ j, n.enter slots q u x = .moves n₁ ∧ j ≤ longest + 1 ∧
      Trails slots (some q) (Function.update lag q j)
        (({ m with referee := m.referee.setPermits Semaphore.processLock.id 0 } : Machine).setTask q
          { t with body := x }) n₁ := by
  unfold enter at hsafe ⊢
  have hcount : n.referee.slots Slot.processCount.index = m.referee.slots Slot.processCount.index :=
    h.count rfl
  cases hrelease : x.release (n.referee.slots Slot.processCount.index) with
  | none =>
    simp only [hrelease] at hsafe
    exact absurd rfl hsafe
  | some released =>
    obtain ⟨steps, count, z⟩ := released
    simp only [hrelease] at hsafe ⊢
    rw [hcount] at hrelease
    let m₁ : Machine := { m with referee := m.referee.setPermits Semaphore.processLock.id 0 }
    let n₁ : Machine := { n with referee := n.referee.store Slot.processCount.index count }
    have hahead : Ahead slots (some q) m₁ n₁ := by
      refine { h.toAhead with shadows := { h.shadows with referee := { h.shadows.referee with
        slots := ?_, permits := ?_ } }, lock := ?_, count := nofun, holds := ?_ }
      · intro i hi
        exact (if_neg hi).trans (h.shadows.referee.slots i hi)
      · intro id hid
        rw [Referee.permits_setPermits, if_neg hid]
        exact h.shadows.referee.permits id hid
      · rw [Referee.permits_setPermits, if_pos rfl]
        rfl
      · intro r hr
        cases hr
        exact (alive_iff ..).mpr ⟨p, hp, hlive⟩
    have hheld : holding m₁ n₁ (some q) q = some (m.referee.slots Slot.processCount.index, count) := by
      have hstored : (n.referee.store Slot.processCount.index count).load Slot.processCount.index =
          count := by
        rw [Referee.load_store, if_pos rfl]
      rw [Referee.load] at hstored
      rw [holding, if_pos rfl]
      dsimp only [m₁, n₁]
      rw [hstored]
      rfl
    have hpursues : Pursues slots (holding m₁ n₁ (some q) q) (steps + (z.coast slots).1) x
        (z.coast slots).2 := by
      rw [hheld]
      exact Program.pursues_release slots hrelease (Program.pursues_coast slots z)
    have hrest : ∀ r, r ≠ q → m₁.alive r = true →
        Follows slots (holding m₁ n₁ (some q) r) m₁ n₁ r (lag r) := by
      intro r hr har
      have hnone : holding m₁ n₁ (some q) r = none := by
        apply holding_eq_none_iff.mpr
        rintro ⟨⟩
        exact hr rfl
      rw [hnone]
      exact (h.follows r har).congr rfl rfl (fun _ => id) fun _ => id
    rcases n₁.land_cases q u (steps + (z.coast slots).1) (z.coast slots).2 with hastray | ⟨n', hland⟩
    · exact absurd hastray hsafe
    · obtain ⟨j, hj, htrails⟩ := hahead.land { t with body := x } hp hlive hn ht hu hpursues
        hrest h.dead hland
      exact ⟨n', j, hland, hj, htrails⟩

end Advance

theorem Trails.onset (h : Trails slots holder lag m n) (ha : m.alive q = true) (hlag : lag q = 0)
    (hsafe : n.stride slots q ≠ .astray) : holder ≠ some q ∧ ∃ p t u c next,
      m.processes.get? q = some p ∧ p.termination = none ∧ n.processes.get? q = some p ∧
      m.task? q = some t ∧ t.body = .call c next ∧ n.task? q = some u ∧
      n.stride slots q = n.strideCall slots q u c next := by
  have hfollows := h.follows q ha
  rw [hlag] at hfollows
  obtain ⟨hnone, p, t, u, hp, hlive, hn, ht, hu, hbody⟩ := hfollows.level
  have ha' : n.alive q = true := (alive_iff ..).mpr ⟨p, hn, hlive⟩
  obtain ⟨u', c, next, hu', hb⟩ := call_of_stride ha' hsafe
  obtain rfl := Option.some.inj (hu.symm.trans hu')
  exact ⟨holding_eq_none_iff.mp hnone, p, t, u, c, next, hp, hlive, hn, ht, hbody.symm.trans hb, hu,
    stride_of_call ha' hu hb⟩

theorem Trails.advance (h : Trails slots holder lag m n) (hh : m.referee.halted = false)
    (hlag : lag q = 0) (hstep : m.step q = some m') (hsafe : n.stride slots q ≠ .astray) :
    ∃ n' holder' j, n.stride slots q = .moves n' ∧ j ≤ longest + 1 ∧
      Trails slots holder' (Function.update lag q j) m' n' := by
  obtain ⟨ha, -⟩ := (step_eq_some_iff ..).mp hstep
  obtain ⟨hfree, p, t, u, c, next, hp, hlive, hn, ht, hb, hu, hstride⟩ := h.onset ha hlag hsafe
  rw [hstride] at hsafe ⊢
  rw [step_of_call ha ht hb hh] at hstep
  cases hc : c.civil with
  | true =>
    rcases hs : m.serve q c with ⟨m₁, a | _ | f⟩
    · rw [hs] at hstep
      obtain rfl := Option.some.inj hstep
      rcases h.shadows.serve hp (hn.trans hp.symm) hc with ⟨hblocked, -⟩ | ⟨hsame, hpar⟩
      · rw [hs] at hblocked
        cases hblocked
      · rw [hs] at hsame hpar
        have hs' : n.serve q c = ((n.serve q c).1, .answer a) := Prod.ext rfl hsame
        obtain ⟨n', j, hmoves, hj, htrails⟩ :=
          h.advance_civil hfree ha ht hu hc (hpar a rfl) hs' hsafe
        exact ⟨n', holder, j, hmoves, hj, htrails⟩
    · rw [hs] at hstep
      cases hstep
    · rcases h.shadows.serve hp (hn.trans hp.symm) hc with ⟨hblocked, -⟩ | ⟨hsame, -⟩
      · rw [hs] at hblocked
        cases hblocked
      · rw [hs] at hsame
        have hastray : n.strideCall slots q u c next = .astray :=
          strideCall_of_fault hc (Prod.ext rfl hsame)
        exact absurd hastray hsafe
  | false =>
    obtain ⟨w, next', heq, henter⟩ := lock_of_strideCall hc hsafe
    cases heq
    rw [henter] at hsafe ⊢
    rw [serve_p_running _ _ _ w hh, h.lock] at hstep
    cases holder with
    | some r => cases hstep
    | none =>
      obtain rfl := Option.some.inj hstep
      obtain ⟨n', j, hmoves, hj, htrails⟩ := h.advance_lock hp hlive hn ht hu hsafe
      exact ⟨n', some q, j, hmoves, hj, htrails⟩

/-- If nobody is behind, whoever can take a stride can take a step. -/
theorem Trails.step_of_stride (h : Trails slots holder lag m n) (hh : m.referee.halted = false)
    (hlevel : ∀ r, m.alive r = true → lag r = 0) (hmove : (n.stride slots q).isMove = true) :
    ∃ m', m.step q = some m' := by
  have hall : ∀ r, m.alive r = true → holder ≠ some r ∧
      n.processes.get? r = m.processes.get? r := by
    intro r hr
    have hfollows := h.follows r hr
    rw [hlevel r hr] at hfollows
    obtain ⟨hnone, p, -, -, hp, -, hn, -⟩ := hfollows.level
    exact ⟨holding_eq_none_iff.mp hnone, hn.trans hp.symm⟩
  have hnobody : holder = none := by
    cases hholder : holder with
    | none => rfl
    | some r => exact absurd hholder (hall r (h.holds r hholder)).1
  have hsafe : n.stride slots q ≠ .astray := by
    intro hastray
    rw [hastray] at hmove
    cases hmove
  have ha' : n.alive q = true := by
    by_contra hdead
    rw [stride, if_neg hdead] at hmove
    cases hmove
  have ha := h.shadows.alive_of_alive ha'
  obtain ⟨-, p, t, u, c, next, hp, -, hn, ht, hb, -, hstride⟩ := h.onset ha (hlevel q ha) hsafe
  rw [hstride] at hsafe hmove
  rw [step_of_call ha ht hb hh]
  cases hc : c.civil with
  | true =>
    rcases hs : m.serve q c with ⟨m₁, a | _ | f⟩
    · exact ⟨_, rfl⟩
    · rcases h.shadows.serve hp (hn.trans hp.symm) hc with ⟨-, r, hr, hne⟩ | ⟨hsame, -⟩
      · exact absurd (hall r hr).2 hne
      · rw [hs] at hsame
        have hwaits : n.strideCall slots q u c next = .waits :=
          strideCall_of_blocked hc (Prod.ext rfl hsame)
        rw [hwaits] at hmove
        cases hmove
    · exact ⟨_, rfl⟩
  | false =>
    obtain ⟨w, next', heq, -⟩ := lock_of_strideCall hc hsafe
    cases heq
    have hpermit : 0 < m.referee.permits Semaphore.processLock.id := by
      rw [h.lock, if_pos hnobody]
      exact Nat.one_pos
    rw [serve_p_running _ _ _ w hh, if_pos hpermit]
    exact ⟨_, rfl⟩

theorem Trails.exists_step (h : Trails slots holder lag m n) (hh : m.referee.halted = false)
    (hmove : (n.stride slots q).isMove = true) : ∃ r m', m.step r = some m' := by
  by_cases hlevel : ∀ r, m.alive r = true → lag r = 0
  · exact ⟨q, h.step_of_stride hh hlevel hmove⟩
  · push Not at hlevel
    obtain ⟨r, hr, hlag⟩ := hlevel
    obtain ⟨m', -, hstep, -⟩ := h.catchUp hh hr hlag
    exact ⟨r, m', hstep⟩

theorem mem_pids_of_task {t : Task} (ht : m.task? q = some t) : q ∈ m.pids := by
  obtain ⟨k, rfl, hk⟩ := (task?_eq_some_iff m q t).mp ht
  exact List.mem_map.mpr ⟨k, List.mem_range.mpr (List.getElem?_eq_some_iff.mp hk).1, rfl⟩

theorem surely_succ {wanted : Showing → Bool} {k : Nat} (h : m.surely slots wanted (k + 1) = true) :
    (∃ s, m.showing? = some s ∧ wanted s = true) ∨ (m.showing? = none ∧
      (∃ q, (m.stride slots q).isMove = true) ∧ ∀ q ∈ m.pids, m.stride slots q ≠ .astray ∧
        ∀ m', m.stride slots q = .moves m' → m'.surely slots wanted k = true) := by
  rw [surely] at h
  cases hs : m.showing? with
  | some s =>
    rw [hs] at h
    exact Or.inl ⟨s, rfl, h⟩
  | none =>
    simp only [hs, Bool.and_eq_true, List.any_eq_true, List.all_eq_true] at h
    obtain ⟨⟨q, -, hq⟩, hall⟩ := h
    refine Or.inr ⟨rfl, ⟨q, hq⟩, ?_⟩
    intro r hr
    have hsafe := hall r hr
    constructor
    · intro hastray
      rw [hastray] at hsafe
      cases hsafe
    · intro m' hm
      rw [hm] at hsafe
      exact hsafe

theorem Judged.halted_of_showing?_eq_none {log : List Event} (h : Judged log m)
    (hs : m.showing? = none) : m.referee.halted = false := by
  rw [h.halted, ← h.outcome, (showing?_eq_none_iff m).mp hs]
  rfl

theorem sum_update_add {s : Finset Int} (f : Int → Nat) (hq : q ∈ s) (k : Nat) :
    ∑ r ∈ s, Function.update f q k r + f q = ∑ r ∈ s, f r + k := by
  rw [Finset.sum_update_of_mem hq, ← Finset.add_sum_erase s f hq, Finset.sdiff_singleton_eq_erase]
  omega

/-- What every order of strides comes to on the machine ahead, every order of steps comes to
on the machine behind. -/
theorem Trails.settles {wanted : Showing → Bool} {k : Nat} {log : List Event}
    (h : Trails slots holder lag m n) (hj : Judged log m) (hsurely : n.surely slots wanted k = true)
    {late : Finset Int} (hlate : ∀ r, r ∉ late → lag r = 0) :
    m.Settles (wanted · = true) ((longest + 2) * k + ∑ r ∈ late, lag r) := by
  induction k generalizing m n holder lag log late with
  | zero => cases hsurely
  | succ k ih =>
    -- the steps missing on the machine behind get fewer until a new stride begins
    generalize hd : ∑ r ∈ late, lag r = d
    induction d using Nat.strong_induction_on generalizing m holder lag log late with
    | _ d ih' =>
      rcases surely_succ hsurely with ⟨s, hs, hwanted⟩ | ⟨hs, ⟨_, hmove⟩, hall⟩
      · exact .shown (h.shadows.showing?.symm.trans hs) hwanted
      · have hnone : m.showing? = none := h.shadows.showing?.symm.trans hs
        have hh := hj.halted_of_showing?_eq_none hnone
        have hsome := h.exists_step hh hmove
        have hnext : ∀ (q : Int) m', m.step q = some m' →
            m'.Settles (wanted · = true) ((longest + 2) * k + (longest + 1) + d) := by
          intro q m' hstep
          obtain ⟨ha, what, htakes⟩ := (step_eq_some_iff ..).mp hstep
          have hj' := hj.takes htakes
          have hlate' : ∀ j r, r ∉ insert q late → Function.update lag q j r = 0 := by
            intro j r hr
            rw [Finset.mem_insert, not_or] at hr
            rw [Function.update_of_ne hr.1, hlate r hr.2]
          have hinsert : ∑ r ∈ insert q late, lag r = d := by
            rw [Finset.sum_insert_of_eq_zero_if_notMem (hlate q), hd]
          have hsum := sum_update_add lag (Finset.mem_insert_self q late)
          by_cases hlag : lag q = 0
          · have hpid : q ∈ n.pids := by
              obtain ⟨-, p, t, u, -, -, -, -, hu, -⟩ := (hlag ▸ h.follows q ha).level
              exact mem_pids_of_task hu
            obtain ⟨hsafe, hrest⟩ := hall q hpid
            obtain ⟨n', holder', j, hmoves, hj, htrails⟩ := h.advance hh hlag hstep hsafe
            have hsum' := hsum j
            apply (ih htrails hj' (hrest n' hmoves) (hlate' j)).mono
            omega
          · obtain ⟨m₁, holder', hstep', htrails⟩ := h.catchUp hh ha hlag
            obtain rfl := Option.some.inj (hstep.symm.trans hstep')
            have hsum' := hsum (lag q - 1)
            apply (ih' _ (by omega) htrails hj' (hlate' _) rfl).mono
            rw [Nat.mul_succ]
            omega
        have hcount : (longest + 2) * (k + 1) + d = (longest + 2) * k + (longest + 1) + d + 1 := by
          rw [Nat.mul_succ]
          omega
        rw [hcount]
        exact .step ((showing?_eq_none_iff m).mp hnone) hsome hnext

theorem trails_self (m : Machine) (hc : m.tasks.length = m.processes.slots.length)
    (htasks : ∀ q, m.alive q = true → ∃ t, m.task? q = some t)
    (hlock : m.referee.permits Semaphore.processLock.id = 1) :
    Trails m.referee.slots none (fun _ => 0) m m where
  shadows := ⟨rfl, rfl, rfl, rfl, rfl, ⟨rfl, rfl, rfl, fun _ _ => rfl, fun _ _ => rfl⟩, rfl,
    ⟨hc, hc⟩, fun q => .same _⟩
  constants := fun _ _ => rfl
  unlocked := hlock
  lock := hlock
  count := fun _ => rfl
  holds := nofun
  follows := by
    intro q ha
    obtain ⟨p, hp, hlive⟩ := (alive_iff ..).mp ha
    obtain ⟨t, ht⟩ := htasks q ha
    exact .stays hp hlive hp ht ht (.there _)
  dead := fun _ _ => rfl

def prepared (m : Machine) : Bool :=
  m.referee.permits Semaphore.processLock.id = 1 && m.pids.all fun q => (m.task? q).isSome

/-- Whether a machine just started is sure to come to a report of what is wanted. -/
def certain (wanted : Showing → Bool) (k : Nat) (m : Machine) : Bool :=
  m.prepared && m.surely m.referee.slots wanted k

theorem settles_of_certain {wanted : Showing → Bool} {k : Nat} {log : List Event} (hc : m.Census)
    (hj : Judged log m) (h : m.certain wanted k = true) :
    m.Settles (wanted · = true) ((longest + 2) * k) := by
  simp only [certain, prepared, Bool.and_eq_true, decide_eq_true_eq, List.all_eq_true] at h
  obtain ⟨⟨hlock, htasks⟩, hsurely⟩ := h
  have htrails : Trails m.referee.slots none (fun _ => 0) m m := by
    apply m.trails_self hc.tasks _ hlock
    intro q ha
    exact Option.isSome_iff_exists.mp (htasks q (hc.mem_pids_of_alive ha))
  have hlate : ∀ r, r ∉ (∅ : Finset Int) → 0 = 0 := fun _ _ => rfl
  exact htrails.settles hj hsurely hlate

end Machine

end KernelExam

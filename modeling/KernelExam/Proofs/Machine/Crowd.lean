import KernelExam.Proofs.Machine.Outlook
import KernelExam.Proofs.Machine.Settling

/-!
# A process and the few around it

A test with children has one process at work at a time, or two: a parent that waits for its
child, and the child. Children that have nothing left but to exit may do so at any time later,
which makes no difference to the rest. A program is followed from call to call with those around
it, to the report that all orders of steps come to.
-/

set_option autoImplicit false

namespace KernelExam

/-- What a live process has of its own, and what it still has to do. -/
structure Seat where
  cwd : String
  descriptors : DescriptorTable
  body : Program Unit

def Seat.Waits (w : Seat) (permits : Word → Nat) : Prop :=
  ∃ id a1 next, w.body = .call (.ask Request.p.code id a1) next ∧ permits id = 0

namespace Machine

def seat? (m : Machine) (q : Pid) : Option Seat :=
  (m.processes.get? q).bind fun p =>
    if p.termination = none then (m.task? q).map fun t => ⟨p.cwd, p.descriptors, t.body⟩ else none

variable {m m' : Machine} {q r : Int} {w : Seat}

theorem seat?_eq_some_iff : m.seat? q = some w ↔ ∃ p t, m.processes.get? q = some p ∧
    p.termination = none ∧ m.task? q = some t ∧ w = ⟨p.cwd, p.descriptors, t.body⟩ := by
  rw [seat?, Option.bind_eq_some_iff]
  constructor
  · rintro ⟨p, hp, hw⟩
    split at hw
    · rename_i hlive
      obtain ⟨t, ht, rfl⟩ := Option.map_eq_some_iff.mp hw
      exact ⟨p, t, hp, hlive, ht, rfl⟩
    · cases hw
  · rintro ⟨p, t, hp, hlive, ht, rfl⟩
    exact ⟨p, hp, by rw [if_pos hlive, ht]; rfl⟩

theorem seat?_congr (hp : m'.processes.get? q = m.processes.get? q)
    (ht : m'.task? q = m.task? q) : m'.seat? q = m.seat? q := by
  rw [seat?, seat?, hp, ht]

theorem alive_of_seat? (h : m.seat? q = some w) : m.alive q = true := by
  obtain ⟨p, t, hp, hlive, -, -⟩ := seat?_eq_some_iff.mp h
  exact (alive_iff m q).mpr ⟨p, hp, hlive⟩

theorem exists_task_of_seat? (h : m.seat? q = some w) :
    ∃ t, m.task? q = some t ∧ t.body = w.body := by
  obtain ⟨p, t, -, -, ht, rfl⟩ := seat?_eq_some_iff.mp h
  exact ⟨t, ht, rfl⟩

theorem seat?_ne_none_of_step (h : m.step q = some m') : m.seat? q ≠ none := by
  obtain ⟨ha, hstep⟩ := Option.ite_none_right_eq_some.mp h
  obtain ⟨t, ht, -⟩ := Option.bind_eq_some_iff.mp hstep
  obtain ⟨p, hp, hlive⟩ := (alive_iff m q).mp ha
  rw [seat?_eq_some_iff.mpr ⟨p, t, hp, hlive, ht, rfl⟩]
  nofun

theorem step_eq_none_of_waits (h : m.seat? q = some w) (hw : w.Waits m.referee.permits)
    (hh : m.referee.halted = false) : m.step q = none := by
  obtain ⟨t, ht, hbody⟩ := exists_task_of_seat? h
  obtain ⟨id, a1, next, hcall, hnone⟩ := hw
  have hblocked : m.referee.p id = .blocked := by
    rw [Referee.p, hh, hnone]
    rfl
  rw [step_of_call (alive_of_seat? h) ht (hbody.trans hcall) hh]
  simp only [serve, ask, Request.ofCode?_code, hblocked]

theorem length_setTask (m : Machine) (pid : Pid) (t : Task) :
    (m.setTask pid t).tasks.length = m.tasks.length := by
  rw [setTask]
  split
  · exact List.length_set
  · rfl

theorem seat?_finish (how : Termination) :
    (m.finish r how).seat? q = if q = r then none else m.seat? q := by
  have hp := m.processes.get?_terminate r q how
  by_cases hq : q = r
  · rw [if_pos hq] at hp ⊢
    cases hs : (m.finish r how).seat? q with
    | none => rfl
    | some w =>
      obtain ⟨p, -, hget, hlive, -, -⟩ := seat?_eq_some_iff.mp hs
      obtain ⟨p₀, -, rfl⟩ := Option.map_eq_some_iff.mp (hp.symm.trans hget)
      have hended := ProcessTable.termination_ended how p₀
      rw [hlive] at hended
      cases hended
  · rw [if_neg hq] at hp ⊢
    exact seat?_congr hp rfl

theorem seat?_setTask_self (h : m.seat? r = some w) (t : Task) :
    (m.setTask r t).seat? r = some ⟨w.cwd, w.descriptors, t.body⟩ := by
  obtain ⟨p, _, hp, hlive, ht, rfl⟩ := seat?_eq_some_iff.mp h
  rw [← setTask_processes m r t] at hp
  exact seat?_eq_some_iff.mpr ⟨p, t, hp, hlive, task?_setTask_self ht t, rfl⟩

theorem seat?_setTask_of_ne (hq : q ≠ r) (t : Task) : (m.setTask r t).seat? q = m.seat? q :=
  seat?_congr (by rw [setTask_processes]) (task?_setTask_of_ne m r q t hq)

theorem seat?_withProgram {parent : Option Pid} {cwd path : String} {args : List String}
    {processes : ProcessTable} {child : Pid} {image : Image}
    (hplaces : m.tasks.length = m.processes.slots.length)
    (hs : m.processes.spawn parent cwd = .ok (processes, child)) (q : Pid) :
    (m.withProgram processes child path args image).seat? q =
      if q = child then some ⟨cwd, .stdio, image child args⟩ else m.seat? q := by
  have hget := ProcessTable.get?_spawn hs q
  have hchild : child = (m.tasks.length : Int) + 1 := by
    rw [hplaces]
    exact (ProcessTable.spawn_ok hs).1
  by_cases hq : q = child
  · rw [if_pos hq] at hget ⊢
    have hlast : (m.withProgram processes child path args image).task? q =
        some ⟨Path.dropSlashes path, args, image child args, []⟩ := by
      rw [hq, hchild]
      exact task?_last rfl
    exact seat?_eq_some_iff.mpr ⟨_, _, hget, rfl, hlast, rfl⟩
  · rw [if_neg hq] at hget ⊢
    rw [hchild] at hq
    exact seat?_congr hget (task?_concat_of_ne rfl hq)

end Machine

namespace Solo

/-- All but the processes is as in the state, and nobody has reported anything. -/
structure Around (s : Solo) (m : Machine) : Prop where
  files : m.files = s.files
  slots : m.referee.slots = s.slots
  permits : m.referee.permits = s.permits
  outcome : m.referee.outcome = none
  checkpoints : m.referee.checkpoints = s.checkpoints
  halted : m.referee.halted = false
  stdin : m.stdin = s.stdin
  stdout : m.stdout = s.stdout

def seenBy (s : Solo) (w : Seat) : Solo := { s with cwd := w.cwd, descriptors := w.descriptors }

def child (s : Solo) : Solo := { s with descriptors := .stdio }

variable {s s' : Solo} {m : Machine} {r : Int} {x y : Program Unit}

theorem Around.setTask (h : s.Around m) (r : Pid) (t : Task) : s.Around (m.setTask r t) where
  files := (m.setTask_files r t).trans h.files
  slots := by rw [m.setTask_referee, h.slots]
  permits := by rw [m.setTask_referee, h.permits]
  outcome := by rw [m.setTask_referee, h.outcome]
  checkpoints := by rw [m.setTask_referee, h.checkpoints]
  halted := by rw [m.setTask_referee, h.halted]
  stdin := (m.setTask_stdin r t).trans h.stdin
  stdout := (m.setTask_stdout r t).trans h.stdout

theorem Around.seenBy (h : s.Around m) (w : Seat) : (s.seenBy w).Around m :=
  ⟨h.files, h.slots, h.permits, h.outcome, h.checkpoints, h.halted, h.stdin, h.stdout⟩

theorem Around.withProgram (h : s.Around m) (processes : ProcessTable) (child : Pid) (path : String)
    (args : List String) (image : Image) :
    s.child.Around (m.withProgram processes child path args image) :=
  ⟨h.files, h.slots, h.permits, h.outcome, h.checkpoints, h.halted, h.stdin, h.stdout⟩

theorem around_amid (s : Solo) (m : Machine) (r : Pid) : s.Around (s.amid m r) :=
  ⟨rfl, rfl, rfl, rfl, rfl, rfl, rfl, rfl⟩

theorem Around.amid (h : s.Around m) (hr : m.seat? r = some ⟨s.cwd, s.descriptors, x⟩) :
    s.amid m r = m := by
  obtain ⟨p, t, hp, -, -, hw⟩ := Machine.seat?_eq_some_iff.mp hr
  obtain ⟨hcwd, hdescriptors, -⟩ := Seat.mk.inj hw
  have hsame : m.processes.modify r (fun p =>
      { p with cwd := s.cwd, descriptors := s.descriptors }) = m.processes := by
    have hid : ({ p with cwd := s.cwd, descriptors := s.descriptors } : ProcessState) = id p := by
      rw [hcwd, hdescriptors]
      rfl
    rw [ProcessTable.modify_of_get? hp, hid, ← ProcessTable.modify_of_get? hp,
      ProcessTable.modify_id]
  rw [Solo.amid, hsame, ← h.files, ← h.slots, ← h.permits, ← h.outcome, ← h.checkpoints,
    ← h.halted, ← h.stdin, ← h.stdout]

theorem seat?_amid_self {w : Seat} (hr : m.seat? r = some w) :
    (s.amid m r).seat? r = some ⟨s.cwd, s.descriptors, w.body⟩ := by
  obtain ⟨p, t, hp, hlive, ht, rfl⟩ := Machine.seat?_eq_some_iff.mp hr
  have hown : (s.amid m r).processes.get? r =
      some { p with cwd := s.cwd, descriptors := s.descriptors } := by
    rw [Solo.amid, ProcessTable.get?_modify, if_pos rfl, hp]
    rfl
  exact Machine.seat?_eq_some_iff.mpr ⟨_, t, hown, hlive, ht, rfl⟩

theorem seat?_amid_of_ne {q : Int} (hq : q ≠ r) : (s.amid m r).seat? q = m.seat? q :=
  Machine.seat?_congr (by rw [Solo.amid, ProcessTable.get?_modify, if_neg hq]) rfl

end Solo

/-- The processes of a machine with `n` numbers given out: `r` is at work in the state `s`, with
one other perhaps in its seat, and some that are about to exit. -/
structure Crowd (registry : List (String × Image)) (n : Nat) (r : Pid) (s : Solo)
    (x : Program Unit) (other : Option (Pid × Seat)) (leaving : Finset Pid) (m : Machine) :
    Prop where
  registry : m.registry = registry
  tasks : m.tasks.length = n
  processes : m.processes.slots.length = n
  around : s.Around m
  runner : m.seat? r = some ⟨s.cwd, s.descriptors, x⟩
  partner : ∀ q w, other = some (q, w) → q ≠ r ∧ m.seat? q = some w
  leavers : ∀ q ∈ leaving, q ≠ r ∧ (∀ w, other ≠ some (q, w)) ∧
    ∃ cwd descriptors status, m.seat? q = some ⟨cwd, descriptors, .exit status⟩
  nobody : ∀ q, m.seat? q ≠ none → q = r ∨ (∃ w, other = some (q, w)) ∨ q ∈ leaving

namespace Crowd

variable {registry : List (String × Image)} {n : Nat} {r q : Int} {s s' : Solo} {x : Program Unit}
  {other : Option (Pid × Seat)} {leaving : Finset Pid} {m : Machine} {w : Seat}

theorem act {c : Call} {a : c.Answer} {next : c.Answer → Program Unit}
    (h : Crowd registry n r s (.call c next) other leaving m) (ha : s.Acts c a s') :
    ∃ m', m.step r = some m' ∧ Crowd registry n r s' (next a) other leaving m' := by
  obtain ⟨t, ht, hbody⟩ := Machine.exists_task_of_seat? h.runner
  have halive := Machine.alive_of_seat? h.runner
  have hserve := ha m r halive
  rw [h.around.amid h.runner] at hserve
  refine ⟨(s'.amid m r).setTask r { t with body := next a }, ?_, ?_⟩
  · rw [Machine.step_of_call halive ht hbody h.around.halted, hserve]
  · have hothers : ∀ {q}, q ≠ r →
        ((s'.amid m r).setTask r { t with body := next a }).seat? q = m.seat? q :=
      fun hq => (Machine.seat?_setTask_of_ne hq _).trans (Solo.seat?_amid_of_ne hq)
    exact {
      registry := (Machine.setTask_registry ..).trans h.registry
      tasks := (Machine.length_setTask ..).trans h.tasks
      processes := by
        rw [Machine.setTask_processes, Solo.amid, ProcessTable.length_modify]
        exact h.processes
      around := (s'.around_amid m r).setTask r _
      runner := Machine.seat?_setTask_self (Solo.seat?_amid_self h.runner) _
      partner := by
        intro q w hw
        obtain ⟨hq, hseat⟩ := h.partner q w hw
        exact ⟨hq, (hothers hq).trans hseat⟩
      leavers := by
        intro q hq
        obtain ⟨hne, hfree, cwd, descriptors, status, hseat⟩ := h.leavers q hq
        exact ⟨hne, hfree, cwd, descriptors, status, (hothers hne).trans hseat⟩
      nobody := by
        intro q hseat
        by_cases hq : q = r
        · exact Or.inl hq
        · rw [hothers hq] at hseat
          exact h.nobody q hseat }

theorem swap (h : Crowd registry n r s x (some (q, w)) leaving m) :
    Crowd registry n q (s.seenBy w) w.body (some (r, ⟨s.cwd, s.descriptors, x⟩)) leaving m where
  registry := h.registry
  tasks := h.tasks
  processes := h.processes
  around := h.around.seenBy w
  runner := (h.partner q w rfl).2
  partner := by
    rintro _ _ ⟨⟩
    exact ⟨(h.partner q w rfl).1.symm, h.runner⟩
  leavers := by
    intro p hp
    obtain ⟨hne, hfree, hseat⟩ := h.leavers p hp
    refine ⟨fun hpq => hfree w (hpq ▸ rfl), ?_, hseat⟩
    rintro _ ⟨⟩
    exact hne rfl
  nobody := by
    intro p hp
    rcases h.nobody p hp with rfl | ⟨_, ⟨⟩⟩ | hmem
    · exact Or.inr (Or.inl ⟨_, rfl⟩)
    · exact Or.inl rfl
    · exact Or.inr (Or.inr hmem)

theorem retire {status : Word} (h : Crowd registry n r s (.exit status) (some (q, w)) leaving m) :
    Crowd registry n q (s.seenBy w) w.body none (insert r leaving) m where
  registry := h.registry
  tasks := h.tasks
  processes := h.processes
  around := h.around.seenBy w
  runner := (h.partner q w rfl).2
  partner := nofun
  leavers := by
    intro p hp
    rcases Finset.mem_insert.mp hp with rfl | hp
    · exact ⟨(h.partner q w rfl).1.symm, nofun, _, _, status, h.runner⟩
    · obtain ⟨-, hfree, hseat⟩ := h.leavers p hp
      exact ⟨fun hpq => hfree w (hpq ▸ rfl), nofun, hseat⟩
  nobody := by
    intro p hp
    rcases h.nobody p hp with rfl | ⟨_, ⟨⟩⟩ | hmem
    · exact Or.inr (Or.inr (Finset.mem_insert_self ..))
    · exact Or.inl rfl
    · exact Or.inr (Or.inr (Finset.mem_insert_of_mem hmem))

theorem not_mem_retired {status : Word}
    (h : Crowd registry n r s (.exit status) (some (q, w)) leaving m) : r ∉ leaving :=
  fun hr => (h.leavers r hr).1 rfl

theorem leave (h : Crowd registry n r s x other leaving m) (hq : q ∈ leaving) :
    ∃ m', m.step q = some m' ∧ Crowd registry n r s x other (leaving.erase q) m' := by
  obtain ⟨hne, hfree, cwd, descriptors, status, hseat⟩ := h.leavers q hq
  obtain ⟨t, ht, hbody⟩ := Machine.exists_task_of_seat? hseat
  refine ⟨m.finish q (.exited status), ?_, ?_⟩
  · rw [Machine.step_of_task (Machine.alive_of_seat? hseat) ht]
    simp only [Machine.advance, hbody]
  · have hothers : ∀ {p}, p ≠ q → (m.finish q (.exited status)).seat? p = m.seat? p := by
      intro p hp
      rw [Machine.seat?_finish, if_neg hp]
    exact {
      registry := h.registry
      tasks := h.tasks
      processes := (ProcessTable.length_terminate ..).trans h.processes
      around := ⟨h.around.files, h.around.slots, h.around.permits, h.around.outcome,
        h.around.checkpoints, h.around.halted, h.around.stdin, h.around.stdout⟩
      runner := (hothers hne.symm).trans h.runner
      partner := by
        rintro p w rfl
        have hp : p ≠ q := fun hpq => hfree w (hpq ▸ rfl)
        exact ⟨(h.partner p w rfl).1, (hothers hp).trans (h.partner p w rfl).2⟩
      leavers := by
        intro p hp
        obtain ⟨hpq, hp⟩ := Finset.mem_erase.mp hp
        obtain ⟨hpr, hpfree, cwd', descriptors', status', hpseat⟩ := h.leavers p hp
        exact ⟨hpr, hpfree, cwd', descriptors', status', (hothers hpq).trans hpseat⟩
      nobody := by
        intro p hp
        rw [Machine.seat?_finish] at hp
        split at hp
        · exact absurd rfl hp
        · rename_i hpq
          rcases h.nobody p hp with hr | hw | hmem
          · exact Or.inl hr
          · exact Or.inr (Or.inl hw)
          · exact Or.inr (Or.inr (Finset.mem_erase.mpr ⟨hpq, hmem⟩)) }

section Start

variable {path : String} {image : Image} {next : Word → Program Unit}
  (h : Crowd registry n r s (.call (.exec path []) next) none leaving m)
  (hi : registry.lookup (Path.dropSlashes path) = some image) (hpath : '\x00' ∉ path.toList)
  (hn : n < 2147483646)
include h hi hpath hn

theorem serve_start : ∃ processes, m.processes.spawn (some r) s.cwd = .ok (processes, n + 1) ∧
    m.serve r (.exec path []) = (m.withProgram processes (n + 1) path [] image,
      .answer (Int32.ofInt (n + 1))) := by
  obtain ⟨p, _, hp, -, -, hseat⟩ := Machine.seat?_eq_some_iff.mp h.runner
  have hstart : m.startingCwd (some r) = s.cwd := by
    rw [Machine.startingCwd, Option.bind_some, hp]
    exact (congrArg Seat.cwd hseat).symm
  have hfree : ¬ (2147483646 : Int) < n + 1 := by omega
  have hspawn : m.processes.spawn (some r) s.cwd =
      .ok (⟨m.processes.slots ++ [some ⟨some r, s.cwd, .stdio, none⟩]⟩, n + 1) := by
    rw [ProcessTable.spawn, h.processes]
    exact if_neg hfree
  rw [← hstart] at hspawn ⊢
  exact ⟨_, hspawn, Machine.serve_exec_ok (by decide)
    (Machine.launch_eq (h.registry.symm ▸ hi) hspawn hpath)⟩

theorem start : ∃ m', m.step r = some m' ∧
    Crowd registry (n + 1) (n + 1) s.child (image (n + 1) [])
      (some (r, ⟨s.cwd, s.descriptors, next (Int32.ofInt (n + 1))⟩)) leaving m' := by
  obtain ⟨processes, hspawn, hserve⟩ := h.serve_start hi hpath hn
  obtain ⟨t, ht, hbody⟩ := Machine.exists_task_of_seat? h.runner
  have halive := Machine.alive_of_seat? h.runner
  have hseats (q : Pid) : (m.withProgram processes (n + 1) path [] image).seat? q =
      if q = n + 1 then some ⟨s.cwd, .stdio, image (n + 1) []⟩ else m.seat? q :=
    Machine.seat?_withProgram (h.tasks.trans h.processes.symm) hspawn q
  have hnew : ∀ {q : Int} {w}, m.seat? q = some w → q ≠ (n : Int) + 1 := by
    intro q w hq
    obtain ⟨p, _, hget, -⟩ := Machine.seat?_eq_some_iff.mp hq
    have hle := (ProcessTable.le_length_of_get? hget).2
    rw [h.processes] at hle
    omega
  have hr := hnew h.runner
  generalize hnext : next (Int32.ofInt (n + 1)) = rest
  have hothers : ∀ {q : Int}, q ≠ r → q ≠ (n : Int) + 1 →
      ((m.withProgram processes (n + 1) path [] image).setTask r { t with body := rest }).seat? q =
        m.seat? q := by
    intro q hq hold
    rw [Machine.seat?_setTask_of_ne hq, hseats, if_neg hold]
  refine ⟨(m.withProgram processes (n + 1) path [] image).setTask r { t with body := rest }, ?_, ?_⟩
  · rw [Machine.step_of_call halive ht hbody h.around.halted, hserve, ← hnext]
  · exact {
      registry := (Machine.setTask_registry ..).trans h.registry
      tasks := by
        rw [Machine.length_setTask]
        show (m.tasks ++ [_]).length = n + 1
        rw [List.length_append, h.tasks]
        rfl
      processes := by
        rw [Machine.setTask_processes]
        show processes.slots.length = n + 1
        rw [(ProcessTable.spawn_ok hspawn).2.2, List.length_append, h.processes]
        rfl
      around := (h.around.withProgram ..).setTask r _
      runner := by
        rw [Machine.seat?_setTask_of_ne hr.symm, hseats, if_pos rfl]
        rfl
      partner := by
        rintro q _ ⟨⟩
        have hrunner := hseats r
        rw [if_neg hr, h.runner] at hrunner
        exact ⟨hr, Machine.seat?_setTask_self hrunner _⟩
      leavers := by
        intro q hq
        obtain ⟨hne, -, cwd, descriptors, status, hseat⟩ := h.leavers q hq
        have hold := hnew hseat
        refine ⟨hold, ?_, cwd, descriptors, status, (hothers hne hold).trans hseat⟩
        rintro _ ⟨⟩
        exact hne rfl
      nobody := by
        intro q hseat
        by_cases hq : q = r
        · exact Or.inr (Or.inl ⟨_, by rw [hq]⟩)
        · by_cases hold : q = (n : Int) + 1
          · exact Or.inl hold
          · rw [hothers hq hold] at hseat
            rcases h.nobody q hseat with hr | ⟨w, hw⟩ | hmem
            · exact absurd hr hq
            · cases hw
            · exact Or.inr (Or.inr hmem) }

end Start

end Crowd

section ComesTo

variable {registry : List (String × Image)} {o : Outcome} {n k l : Nat} {r q : Int}
  {s s' s₂ : Solo} {x : Program Unit} {other : Option (Pid × Seat)} {leaving : Finset Pid}
  {m m' : Machine} {w : Seat}

/-- In any order of steps that report is made, within as many steps and one more for each who is
about to exit. -/
def ComesTo (registry : List (String × Image)) (o : Outcome) (n k : Nat) (r : Pid) (s : Solo)
    (x : Program Unit) (other : Option (Pid × Seat)) : Prop :=
  ∀ m leaving, Crowd registry n r s x other leaving m →
    m.Settles (fun v => v.outcome = o) (k + leaving.card)

theorem ComesTo.mono (h : ComesTo registry o n k r s x other) (hle : k ≤ l) :
    ComesTo registry o n l r s x other :=
  fun m leaving hc => (h m leaving hc).mono (Nat.add_le_add_right hle _)

theorem comesTo_of_steps
    (h : ∀ m leaving, Crowd registry n r s x other leaving m → (∃ q m', m.step q = some m') ∧
      ∀ q m', q ∉ leaving → m.step q = some m' →
        m'.Settles (fun v => v.outcome = o) (k + leaving.card)) :
    ComesTo registry o n (k + 1) r s x other := by
  intro m leaving hc
  induction hcard : leaving.card generalizing m leaving with
  | zero =>
    obtain rfl := Finset.card_eq_zero.mp hcard
    obtain ⟨hgo, hall⟩ := h m ∅ hc
    exact .step hc.around.outcome hgo fun q m' hstep => hall q m' (Finset.notMem_empty q) hstep
  | succ c ih =>
    obtain ⟨hgo, hall⟩ := h m leaving hc
    rw [hcard] at hall
    rw [Nat.succ_add]
    refine .step hc.around.outcome hgo fun q m' hstep => ?_
    by_cases hq : q ∈ leaving
    · obtain ⟨m₁, hgone, hleft⟩ := hc.leave hq
      obtain rfl := Option.some.inj (hgone.symm.trans hstep)
      have hfewer : (leaving.erase q).card = c := by
        rw [Finset.card_erase_of_mem hq, hcard]
        rfl
      have hrest := ih m₁ (leaving.erase q) hleft hfewer
      rw [Nat.succ_add] at hrest
      exact hrest
    · exact hall q m' hq hstep

/-- Who takes a step and is not about to exit is at work or the other one. -/
theorem Crowd.mover (h : Crowd registry n r s x other leaving m) (hq : q ∉ leaving)
    (hstep : m.step q = some m') : q = r ∨ ∃ w, other = some (q, w) := by
  rcases h.nobody q (Machine.seat?_ne_none_of_step hstep) with hr | hw | hmem
  · exact Or.inl hr
  · exact Or.inr hw
  · exact absurd hmem hq

def Quiet (other : Option (Pid × Seat)) (permits : Word → Nat) : Prop :=
  ∀ q w, other = some (q, w) → w.Waits permits

theorem quiet_none (permits : Word → Nat) : Quiet none permits := nofun

theorem ComesTo.call {c : Call} {a : c.Answer} {next : c.Answer → Program Unit} (ha : s.Acts c a s')
    (hquiet : Quiet other s.permits) (h : ComesTo registry o n k r s' (next a) other) :
    ComesTo registry o n (k + 1) r s (.call c next) other := by
  refine comesTo_of_steps fun m leaving hc => ?_
  obtain ⟨m₁, hstep, hnext⟩ := hc.act ha
  refine ⟨⟨r, m₁, hstep⟩, fun q m' hq hm => ?_⟩
  rcases hc.mover hq hm with rfl | ⟨w, hw⟩
  · obtain rfl := Option.some.inj (hstep.symm.trans hm)
    exact h m₁ leaving hnext
  · have hwaits := hquiet q w hw
    rw [← hc.around.permits] at hwaits
    rw [Machine.step_eq_none_of_waits (hc.partner q w hw).2 hwaits hc.around.halted] at hm
    cases hm

theorem ComesTo.either {c c' : Call} {a : c.Answer} {a' : c'.Answer}
    {next : c.Answer → Program Unit} {next' : c'.Answer → Program Unit} {cwd : String}
    {descriptors : DescriptorTable} (ha : s.Acts c a s')
    (h : ComesTo registry o n k r s' (next a) (some (q, ⟨cwd, descriptors, .call c' next'⟩)))
    (ha' : (s.seenBy ⟨cwd, descriptors, .call c' next'⟩).Acts c' a' s₂)
    (h' : ComesTo registry o n k q s₂ (next' a')
      (some (r, ⟨s.cwd, s.descriptors, .call c next⟩))) :
    ComesTo registry o n (k + 1) r s (.call c next)
      (some (q, ⟨cwd, descriptors, .call c' next'⟩)) := by
  refine comesTo_of_steps fun m leaving hc => ?_
  obtain ⟨m₁, hstep, hnext⟩ := hc.act ha
  obtain ⟨m₂, hstep', hnext'⟩ := hc.swap.act ha'
  refine ⟨⟨r, m₁, hstep⟩, fun p m' hp hm => ?_⟩
  rcases hc.mover hp hm with rfl | ⟨_, ⟨⟩⟩
  · obtain rfl := Option.some.inj (hstep.symm.trans hm)
    exact h m₁ leaving hnext
  · obtain rfl := Option.some.inj (hstep'.symm.trans hm)
    exact h' m₂ leaving hnext'

theorem ComesTo.report {a0 a1 : Word} {next : Word → Program Unit} :
    ComesTo registry o n 1 r s (.call (.ask o.request.code a0 a1) next) none := by
  refine comesTo_of_steps (k := 0) fun m leaving hc => ?_
  obtain ⟨t, ht, hbody⟩ := Machine.exists_task_of_seat? hc.runner
  have hreport : (m.report o r).showing? = some ⟨o, m.referee.checkpoints, m.stdout⟩ := by
    rw [Machine.showing?, Machine.report, Referee.report, hc.around.outcome]
    rfl
  have hstep : m.step r = some ((m.report o r).setTask r { t with body := next 0 }) := by
    rw [Machine.step_of_call (Machine.alive_of_seat? hc.runner) ht hbody hc.around.halted,
      Machine.serve_report]
  refine ⟨⟨r, _, hstep⟩, fun q m' hq hm => ?_⟩
  rcases hc.mover hq hm with rfl | ⟨w, hw⟩
  · obtain rfl := Option.some.inj (hstep.symm.trans hm)
    refine .shown (s := ⟨o, m.referee.checkpoints, m.stdout⟩) ?_ rfl
    rw [Machine.showing?, Machine.setTask_referee, Machine.setTask_stdout]
    exact hreport
  · cases hw

theorem ComesTo.exec {path : String} {image : Image} {next : Word → Program Unit}
    (hi : registry.lookup (Path.dropSlashes path) = some image) (hpath : '\x00' ∉ path.toList)
    (hn : n < 2147483646)
    (h : ComesTo registry o (n + 1) k (n + 1) s.child (image (n + 1) [])
      (some (r, ⟨s.cwd, s.descriptors, next (Int32.ofInt (n + 1))⟩))) :
    ComesTo registry o n (k + 1) r s (.call (.exec path []) next) none := by
  refine comesTo_of_steps fun m leaving hc => ?_
  obtain ⟨m₁, hstep, hnext⟩ := hc.start hi hpath hn
  refine ⟨⟨r, m₁, hstep⟩, fun q m' hq hm => ?_⟩
  rcases hc.mover hq hm with rfl | ⟨w, hw⟩
  · obtain rfl := Option.some.inj (hstep.symm.trans hm)
    exact h m₁ leaving hnext
  · cases hw

theorem ComesTo.swap (h : ComesTo registry o n k q (s.seenBy w) w.body
      (some (r, ⟨s.cwd, s.descriptors, x⟩))) :
    ComesTo registry o n k r s x (some (q, w)) :=
  fun m leaving hc => h m leaving hc.swap

theorem ComesTo.retire {status : Word} (h : ComesTo registry o n k q (s.seenBy w) w.body none) :
    ComesTo registry o n (k + 1) r s (.exit status) (some (q, w)) := by
  intro m leaving hc
  have hmore := h m (insert r leaving) hc.retire
  rw [Finset.card_insert_of_notMem hc.not_mem_retired] at hmore
  rwa [Nat.succ_add]

/-- The process at work is followed through all of a program's calls. -/
theorem ComesTo.runs {α : Type} {p : Program α} {a : α} {f : α → Program Unit}
    (hr : s.Runs (Quiet other) l p s' a) (h : ComesTo registry o n k r s' (f a) other) :
    ComesTo registry o n (k + l) r s (p.bind f) other := by
  induction hr with
  | done => exact h
  | call hquiet ha _ ih => exact .call ha hquiet (ih h)

theorem ComesTo.next {α β : Type} {p : Program α} {a : α} {f : α → Program β}
    {g : β → Program Unit} (hr : s.Runs (Quiet other) l p s' a)
    (h : ComesTo registry o n k r s' ((f a).bind g) other) :
    ComesTo registry o n (k + l) r s ((p >>= f).bind g) other := by
  show ComesTo registry o n (k + l) r s ((p.bind f).bind g) other
  rw [Program.bind_assoc]
  exact .runs hr h

end ComesTo

end KernelExam

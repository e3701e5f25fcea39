import KernelExam.Proofs.Machine.Runs
import KernelExam.Proofs.Slots.Packing

/-!
# Parents and ends

Of all that a process table holds, joins and the count of the living read two things
only: whose child a process is and how it ended. A call leaves both alone, except that
a start enters a child and a join takes one out.
-/

set_option autoImplicit false

namespace KernelExam

namespace ProcessTable

variable (t : ProcessTable) (pid q : Int)

def kin? : Option (Option Pid × Option Termination) :=
  (t.get? q).map fun p => (p.parent, p.termination)

theorem kin?_eq_some_iff (parent : Option Pid) (e : Option Termination) :
    t.kin? q = some (parent, e) ↔ ∃ p, t.get? q = some p ∧ p.parent = parent ∧
      p.termination = e := by
  simp [kin?]

theorem le_length_of_kin? {t : ProcessTable} {q : Int} {k : Option Pid × Option Termination}
    (h : t.kin? q = some k) : 1 ≤ q ∧ q ≤ t.slots.length := by
  obtain ⟨p, hp, -⟩ := Option.map_eq_some_iff.mp h
  exact le_length_of_get? hp

theorem length_put (p : Option ProcessState) : (t.put pid p).slots.length = t.slots.length := by
  rw [put]
  split
  · exact List.length_set
  · rfl

theorem length_modify (f : ProcessState → ProcessState) :
    (t.modify pid f).slots.length = t.slots.length := by
  rw [modify]
  split
  · exact length_put ..
  · rfl

theorem length_terminate (how : Termination) :
    (t.terminate pid how).1.slots.length = t.slots.length := by
  rw [terminate]
  split
  · split
    · rfl
    · exact length_put ..
  · rfl

theorem kin?_modify {f : ProcessState → ProcessState}
    (hf : ∀ p, (f p).parent = p.parent ∧ (f p).termination = p.termination) :
    (t.modify pid f).kin? q = t.kin? q := by
  rw [kin?, kin?, get?_modify]
  split
  · rw [Option.map_map]
    refine congrArg (Option.map · (t.get? q)) (funext fun p => ?_)
    obtain ⟨hparent, hend⟩ := hf p
    exact Prod.ext hparent hend
  · rfl

theorem kin?_reap : (t.reap pid).kin? q = if q = pid then none else t.kin? q := by
  rw [kin?, kin?, get?_reap]
  split
  · rfl
  · rfl

theorem kin?_spawn {t t' : ProcessTable} {parent : Option Pid} {cwd : String} {child : Pid}
    (h : t.spawn parent cwd = .ok (t', child)) :
    t'.kin? q = if q = child then some (parent, none) else t.kin? q := by
  rw [kin?, kin?, get?_spawn h]
  split
  · rfl
  · rfl

theorem kin?_terminate {t : ProcessTable} {pid : Pid} {parent : Option Pid} (how : Termination)
    (h : t.kin? pid = some (parent, none)) :
    (t.terminate pid how).1.kin? q = if q = pid then some (parent, some how) else t.kin? q := by
  obtain ⟨p, hp, rfl, hnone⟩ := (kin?_eq_some_iff t pid parent none).mp h
  rw [kin?, kin?, get?_terminate]
  by_cases hq : q = pid
  · subst hq
    rw [if_pos rfl, if_pos rfl, hp]
    simp [ended, hnone]
  · rw [if_neg hq, if_neg hq]

end ProcessTable

namespace Machine

theorem alive_iff_kin? (m : Machine) (q : Pid) :
    m.alive q = true ↔ ∃ parent, m.processes.kin? q = some (parent, none) := by
  rw [alive_iff]
  constructor
  · rintro ⟨p, hp, hnone⟩
    exact ⟨p.parent, (ProcessTable.kin?_eq_some_iff ..).mpr ⟨p, hp, rfl, hnone⟩⟩
  · rintro ⟨parent, h⟩
    obtain ⟨p, hp, -, hnone⟩ := (ProcessTable.kin?_eq_some_iff ..).mp h
    exact ⟨p, hp, hnone⟩

structure SameKin (m m' : Machine) : Prop where
  kin : ∀ q, m'.processes.kin? q = m.processes.kin? q
  length : m'.processes.slots.length = m.processes.slots.length
  tasks : m'.tasks.length = m.tasks.length
  live : m'.referee.live = m.referee.live

theorem SameKin.alive {m m' : Machine} (h : m.SameKin m') (q : Pid) : m'.alive q = m.alive q := by
  rw [Bool.eq_iff_iff, alive_iff_kin?, alive_iff_kin?, h.kin]

structure Enters (m m' : Machine) (parent : Option Pid) (child : Pid) : Prop where
  number : child = m.processes.slots.length + 1
  bound : child ≤ ProcessTable.maxPid
  kin : ∀ q, m'.processes.kin? q = if q = child then some (parent, none) else m.processes.kin? q
  length : m'.processes.slots.length = m.processes.slots.length + 1
  tasks : m'.tasks.length = m.tasks.length + 1

theorem enters_of_spawn {m : Machine} {parent : Option Pid} {cwd : String}
    {processes : ProcessTable} {child : Pid}
    (h : m.processes.spawn parent cwd = .ok (processes, child)) (last : Option Task) :
    m.Enters { m with processes, referee := m.referee.started, tasks := m.tasks ++ [last] }
      parent child := by
  obtain ⟨hchild, hmax, hslots⟩ := ProcessTable.spawn_ok h
  refine ⟨hchild, hmax, fun q => ProcessTable.kin?_spawn q h, ?_, by simp⟩
  rw [hslots]
  simp

theorem Enters.toInt_ofInt {m m' : Machine} {parent : Option Pid} {child : Int}
    (h : m.Enters m' parent child) : (Int32.ofInt child).toInt = child := by
  have hnumber : child = (m.processes.slots.length : Int) + 1 := h.number
  have hmax : child ≤ 2147483646 := h.bound
  exact Int32.toInt_ofInt_of_le (by omega) (by omega)

end Machine

def Termination.joined : Termination → Word × Word
  | .exited status => (1, status)
  | .exception => (0, -1)
  | .halted => (0, -1)

theorem Termination.joined_ne (how : Termination) : how.joined.1 ≠ -1 := by
  have hone : (1 : Word) ≠ -1 := by decide
  have hzero : (0 : Word) ≠ -1 := by decide
  cases how with
  | exited status => exact hone
  | exception => exact hzero
  | halted => exact hzero

namespace Machine

/-- What a call does to the parentage of a machine. -/
inductive Changes (m : Machine) (pid : Pid) : (c : Call) → Machine → Reaction c.Answer → Prop
  | nothing {c : Call} {m' : Machine} {r : Reaction c.Answer} : m.SameKin m' →
      (∀ path args, c = .exec path args → ∀ a, r = .answer a → c.code a = -1) →
      (∀ child status, c = .join child status → ∀ a, r = .answer a → a = c.refusal) →
      Changes m pid c m' r
  | started {path : String} {args : List String} {m' : Machine} {child : Pid} :
      m.Enters m' (some pid) child → m'.referee = m.referee.started →
      Changes m pid (.exec path args) m' (.answer (Int32.ofInt child))
  | abandoned {path : String} {args : List String} {m' : Machine} {child : Pid} {f : Fault} :
      m.Enters m' (some pid) child → m'.referee = m.referee.started →
      Changes m pid (.exec path args) m' (.fault f)
  | joined {child status : Word} {how : Termination} :
      m.processes.kin? child.toInt = some (some pid, some how) →
      Changes m pid (.join child status)
        { m with processes := m.processes.reap child.toInt } (.answer how.joined)

variable {m m' : Machine} {pid : Pid} {c : Call}

theorem SameKin.refl (m : Machine) : m.SameKin m := ⟨fun _ => rfl, rfl, rfl, rfl⟩

section Join

variable (m : Machine) (pid : Pid) {w : Word} (status : Word)

theorem join_stranger (h : ∀ e, m.processes.kin? w.toInt ≠ some (some pid, e)) :
    m.join pid w status = (m, .answer (-1, status)) := by
  rw [join]
  cases hp : m.processes.get? w.toInt with
  | none => rfl
  | some p =>
    have hparent : p.parent ≠ some pid := fun hparent =>
      h p.termination ((ProcessTable.kin?_eq_some_iff ..).mpr ⟨p, hp, hparent, rfl⟩)
    simp only [if_neg hparent]

theorem join_living (h : m.processes.kin? w.toInt = some (some pid, none)) :
    m.join pid w status = (m, .blocked) := by
  obtain ⟨p, hp, hparent, hend⟩ := (ProcessTable.kin?_eq_some_iff ..).mp h
  simp only [join, hp, if_pos hparent, hend]

theorem join_ended {how : Termination}
    (h : m.processes.kin? w.toInt = some (some pid, some how)) :
    m.join pid w status =
      ({ m with processes := m.processes.reap w.toInt }, .answer how.joined) := by
  obtain ⟨p, hp, hparent, hend⟩ := (ProcessTable.kin?_eq_some_iff ..).mp h
  simp only [join, hp, if_pos hparent, hend]
  cases how <;> rfl

end Join

theorem changes_join (m : Machine) (pid : Pid) (w status : Word) :
    m.Changes pid (.join w status) (m.join pid w status).1 (m.join pid w status).2 := by
  by_cases hchild : ∃ e, m.processes.kin? w.toInt = some (some pid, e)
  · obtain ⟨e, he⟩ := hchild
    cases e with
    | none =>
      rw [join_living m pid status he]
      exact .nothing (.refl m) (by rintro _ _ ⟨⟩) (by rintro _ _ _ _ ⟨⟩)
    | some how =>
      rw [join_ended m pid status he]
      exact .joined he
  · rw [join_stranger m pid status (not_exists.mp hchild)]
    refine .nothing (.refl m) (by rintro _ _ ⟨⟩) ?_
    rintro _ _ ⟨⟩ a ⟨⟩
    rfl

theorem sameKin_of_modify {f : ProcessState → ProcessState}
    (hp : m'.processes = m.processes.modify pid f)
    (hf : ∀ p, (f p).parent = p.parent ∧ (f p).termination = p.termination)
    (ht : m'.tasks = m.tasks) (hr : m'.referee = m.referee) : m.SameKin m' := by
  refine ⟨fun q => ?_, ?_, by rw [ht], by rw [hr]⟩
  · rw [hp]
    exact m.processes.kin?_modify pid q hf
  · rw [hp]
    exact m.processes.length_modify pid f

theorem report_live (m : Machine) (o : Outcome) (pid : Pid) :
    (m.report o pid).referee.live = m.referee.live := by
  rw [report, Referee.report]
  cases m.referee.outcome <;> rfl

theorem report_processes (m : Machine) (o : Outcome) (pid : Pid) :
    (m.report o pid).processes = m.processes ∧ (m.report o pid).tasks = m.tasks := by
  obtain ⟨referee, he⟩ : ∃ referee, m.report o pid = { m with referee } := by
    rw [report, Referee.report]
    cases m.referee.outcome <;> exact ⟨_, rfl⟩
  rw [he]
  exact ⟨rfl, rfl⟩

theorem Asked.sameKin {request a0 a1 : Word} {r : Reaction Word}
    (h : m.Asked pid request a0 a1 m' r) : m.SameKin m' := by
  cases h with
  | reported o r _ =>
    obtain ⟨hp, ht⟩ := m.report_processes o pid
    exact ⟨fun q => by rw [hp], by rw [hp], by rw [ht], m.report_live o pid⟩
  | _ => exact ⟨fun _ => rfl, rfl, rfl, rfl⟩

theorem changes {r : Reaction c.Answer} (h : m.serve pid c = (m', r)) : m.Changes pid c m' r := by
  have other (hm : m.SameKin m') (hexec : ∀ path args, c ≠ .exec path args)
      (hjoin : ∀ child status, c ≠ .join child status) : m.Changes pid c m' r :=
    .nothing hm (fun path args he => absurd he (hexec path args))
      fun child status he => absurd he (hjoin child status)
  have hsame : ∀ p : ProcessState, p.parent = p.parent ∧ p.termination = p.termination :=
    fun _ => ⟨rfl, rfl⟩
  cases served_of_serve h with
  | refused _ =>
    refine .nothing (.refl m) ?_ ?_
    · rintro path args rfl a ⟨⟩
      rfl
    · rintro child status rfl a ⟨⟩
      rfl
  | crowded => exact .nothing (.refl m) (by rintro _ _ _ _ ⟨⟩) (by rintro _ _ ⟨⟩)
  | launched _ hs hlast =>
    rcases hlast with ⟨-, rfl⟩ | ⟨-, f, rfl⟩
    · exact .started (enters_of_spawn hs _) rfl
    · exact .abandoned (enters_of_spawn hs _) rfl
  | waits => exact .nothing (.refl m) (by rintro _ _ ⟨⟩) (by rintro _ _ _ _ ⟨⟩)
  | @reaped child status code value _ _ _ _ _ _ =>
    have hj := m.changes_join pid child status
    rw [show m.join pid child status = _ from h] at hj
    exact hj
  | created _ _ _ _ => exact other (sameKin_of_modify rfl hsame rfl rfl) nofun nofun
  | opened _ _ _ _ => exact other (sameKin_of_modify rfl hsame rfl rfl) nofun nofun
  | closed _ _ => exact other (sameKin_of_modify rfl hsame rfl rfl) nofun nofun
  | readFile _ _ _ _ _ => exact other (sameKin_of_modify rfl hsame rfl rfl) nofun nofun
  | wroteFile _ _ _ => exact other (sameKin_of_modify rfl hsame rfl rfl) nofun nofun
  | moved _ _ => exact other (sameKin_of_modify rfl hsame rfl rfl) nofun nofun
  | asked ha => exact other ha.sameKin nofun nofun
  | _ => exact other ⟨fun _ => rfl, rfl, rfl, rfl⟩ nofun nofun

theorem sameKin_setTask (m : Machine) (pid : Pid) (t : Task) : m.SameKin (m.setTask pid t) := by
  rw [setTask]
  split
  · exact ⟨fun _ => rfl, rfl, List.length_set, rfl⟩
  · exact .refl m

section Alive

variable {pid q : Int} {r : Reaction c.Answer}

theorem Enters.alive_iff {parent : Option Pid} {child : Int} (h : m.Enters m' parent child) :
    m'.alive q = true ↔ q = child ∨ m.alive q = true := by
  rw [alive_iff_kin?, alive_iff_kin?, h.kin]
  by_cases hq : q = child
  · simp [hq]
  · simp [hq]

theorem Enters.not_alive {parent : Option Pid} {child : Int} (h : m.Enters m' parent child) :
    ¬ m.alive child = true := by
  intro ha
  obtain ⟨grand, hk⟩ := (alive_iff_kin? m child).mp ha
  have hle : child ≤ (m.processes.slots.length : Int) := (ProcessTable.le_length_of_kin? hk).2
  have hnumber : child = (m.processes.slots.length : Int) + 1 := h.number
  omega

theorem alive_finish (how : Termination) (ha : m.alive pid = true) :
    (m.finish pid how).alive q = true ↔ q ≠ pid ∧ m.alive q = true := by
  obtain ⟨parent, hp⟩ := (alive_iff_kin? m pid).mp ha
  have hkin : (m.finish pid how).processes.kin? q =
      if q = pid then some (parent, some how) else m.processes.kin? q :=
    ProcessTable.kin?_terminate q how hp
  rw [alive_iff_kin?, alive_iff_kin?, hkin]
  by_cases hq : q = pid
  · simp [hq]
  · simp [hq]

theorem alive_reap {how : Termination} {parent : Option Pid}
    (hk : m.processes.kin? pid = some (parent, some how)) :
    ({ m with processes := m.processes.reap pid } : Machine).alive q = m.alive q := by
  rw [Bool.eq_iff_iff, alive_iff_kin?, alive_iff_kin?]
  dsimp only
  rw [ProcessTable.kin?_reap]
  by_cases hq : q = pid
  · simp [hq, hk]
  · simp [hq]

theorem Changes.alive (h : m.Changes pid c m' r) (ha : m.alive q = true) : m'.alive q = true := by
  cases h with
  | nothing hs _ _ => rw [hs.alive, ha]
  | started hin _ => exact hin.alive_iff.mpr (Or.inr ha)
  | abandoned hin _ => exact hin.alive_iff.mpr (Or.inr ha)
  | joined hk => rw [alive_reap hk, ha]

theorem Enters.parent_lt {child : Int} (h : m.Enters m' (some pid) child)
    (ha : m.alive pid = true) : pid < child := by
  obtain ⟨parent, hp⟩ := (alive_iff_kin? m pid).mp ha
  have hle : pid ≤ (m.processes.slots.length : Int) := (ProcessTable.le_length_of_kin? hp).2
  have hnumber : child = (m.processes.slots.length : Int) + 1 := h.number
  omega

theorem Enters.finish {child : Int} {how : Termination} (h : m.Enters m' (some pid) child)
    (ha : m.alive pid = true) :
    (m.finish pid how).Enters (m'.finish pid how) (some pid) child := by
  obtain ⟨parent, hp⟩ := (alive_iff_kin? m pid).mp ha
  have hne : pid ≠ child := Int.ne_of_lt (h.parent_lt ha)
  have hp' : m'.processes.kin? pid = some (parent, none) := by
    rw [h.kin, if_neg hne, hp]
  have hlength := ProcessTable.length_terminate m.processes pid how
  refine ⟨?_, h.bound, ?_, ?_, h.tasks⟩
  · rw [h.number]
    exact congrArg (fun n : Nat => (n : Int) + 1) hlength.symm
  · intro q
    change (m'.processes.terminate pid how).1.kin? q =
      if q = child then some (some pid, none) else (m.processes.terminate pid how).1.kin? q
    rw [ProcessTable.kin?_terminate q how hp', ProcessTable.kin?_terminate q how hp, h.kin]
    by_cases hq : q = pid
    · rw [if_pos hq, if_pos hq, if_neg (hq ▸ hne)]
    · rw [if_neg hq, if_neg hq]
  · change (m'.processes.terminate pid how).1.slots.length =
      (m.processes.terminate pid how).1.slots.length + 1
    rw [ProcessTable.length_terminate, hlength, h.length]

end Alive

section Boot

variable (m : Machine) (program : String) (args : List String)

/-- A boot names the program and starts at most one process, which has no parent. -/
theorem boot_cases :
    (m.SameKin (m.boot program args).1 ∧
        ∃ slots, (m.boot program args).1.referee = { m.referee with slots }) ∨
      ∃ child slots, m.Enters (m.boot program args).1 none child ∧
        (m.boot program args).1.referee = Referee.started { m.referee with slots } := by
  obtain ⟨booted, referee, hreferee, hboot⟩ := boot_launched m program args
  obtain ⟨slots, rfl⟩ : ∃ slots, referee = { m.referee with slots } := by
    rcases hreferee with rfl | rfl
    · exact ⟨m.referee.slots, rfl⟩
    · exact m.referee.setText_eq ..
  have hnone : m.SameKin { m with booted, referee := { m.referee with slots } } :=
    ⟨fun _ => rfl, rfl, rfl, rfl⟩
  generalize (m.boot program args).1 = m' at hboot
  rcases hboot with rfl | ⟨r, hl⟩
  · exact Or.inl ⟨hnone, slots, rfl⟩
  · cases hl with
    | unknown _ => exact Or.inl ⟨hnone, slots, rfl⟩
    | crowded _ => exact Or.inl ⟨hnone, slots, rfl⟩
    | @started image processes child last _ _ hs _ =>
      obtain ⟨hnumber, hbound, hkin, hlength, htasks⟩ := enters_of_spawn hs last
      exact Or.inr ⟨child, slots, ⟨hnumber, hbound, hkin, hlength, htasks⟩, rfl⟩

end Boot

end Machine

end KernelExam

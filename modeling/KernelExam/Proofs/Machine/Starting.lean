import KernelExam.Proofs.Machine.Deadlock
import KernelExam.Proofs.Machine.Lifecycle
import Mathlib.Algebra.Ring.Nat

/-!
# Starting a program

An `exec` of a registered program whose arguments fit into a page starts this program and
nothing else, under the next number. Any other leaves the machine as it was. A third way
out is left to a program that can be started: the name of the new thread may have a zero in
it, or the numbers may be used up, and then the caller breaks down.
-/

set_option autoImplicit false

namespace KernelExam

open Text

namespace Machine

variable {m m' : Machine} {pid : Pid} {path : String} {args : List String} {t : Task}

theorem argumentBytes_eq_sum (args : List String) :
    argumentBytes args = (args.map fun a => (utf8Bytes a).length + 1).sum := by
  induction args with
  | nil => rfl
  | cons a rest ih => rw [argumentBytes, ih, List.map_cons, List.sum_cons]

structure Startable (m : Machine) (path : String) (args : List String) : Prop where
  registered : ∃ image, m.registry.lookup (Path.dropSlashes path) = some image
  fits : (args.map fun a => (utf8Bytes a).length + 1).sum ≤ 1024

theorem Startable.argumentBytes_le (h : m.Startable path args) :
    argumentBytes args ≤ pageSize := by
  rw [argumentBytes_eq_sum]
  exact h.fits

theorem serve_exec_refused (h : ¬ m.Startable path args) :
    m.serve pid (.exec path args) = (m, .answer (-1)) := by
  rw [serve, exec]
  split
  case isTrue => rfl
  case isFalse hover =>
    have hfits : argumentBytes args ≤ 1024 := Nat.not_lt.mp hover
    rw [argumentBytes_eq_sum] at hfits
    cases hi : m.registry.lookup (Path.dropSlashes path) with
    | none => rw [launch, hi]
    | some image => exact absurd ⟨⟨image, hi⟩, hfits⟩ h

theorem serve_exec_started (h : m.Startable path args) (hpath : '\x00' ∉ path.toList)
    (hroom : ¬ m.Exhausted) :
    ∃ image processes child, m.registry.lookup (Path.dropSlashes path) = some image ∧
      m.processes.spawn (some pid) (m.startingCwd (some pid)) = .ok (processes, child) ∧
      m.serve pid (.exec path args) =
        (m.withProgram processes child path args image, .answer (Int32.ofInt child)) := by
  obtain ⟨image, hi⟩ := h.registered
  obtain ⟨processes, hs⟩ := spawn_of_not_exhausted hroom (some pid) (m.startingCwd (some pid))
  refine ⟨image, processes, _, hi, hs, ?_⟩
  exact serve_exec_ok h.argumentBytes_le (launch_eq hi hs hpath)

theorem serve_exec_exhausted (h : m.Startable path args) (hfull : m.Exhausted) :
    m.serve pid (.exec path args) = (m, .fault .addOverflow) := by
  obtain ⟨image, hi⟩ := h.registered
  exact serve_exec_error h.argumentBytes_le (launch_crowded hi (spawn_of_exhausted hfull _ _))

/-- The machine with a process entered that nothing runs. -/
def withStillborn (m : Machine) (processes : ProcessTable) : Machine :=
  { m with processes, referee := m.referee.started, tasks := m.tasks ++ [none] }

theorem serve_exec_nameless (h : m.Startable path args) (hpath : '\x00' ∈ path.toList)
    (hroom : ¬ m.Exhausted) :
    ∃ processes child f,
      m.processes.spawn (some pid) (m.startingCwd (some pid)) = .ok (processes, child) ∧
      m.serve pid (.exec path args) = (m.withStillborn processes, .fault f) := by
  obtain ⟨image, hi⟩ := h.registered
  obtain ⟨processes, hs⟩ := spawn_of_not_exhausted hroom (some pid) (m.startingCwd (some pid))
  have hlaunch : m.launch (some pid) path args =
      (m.withStillborn processes,
        .error (.zeroInLabel (label path ((m.processes.slots.length : Int) + 1)))) := by
    rw [launch_of_lookup hi, hs]
    exact if_pos ((zero_mem_label path _).mpr hpath)
  exact ⟨processes, _, _, hs, serve_exec_error h.argumentBytes_le hlaunch⟩

theorem Run.started_le {start : Machine} {log : List Event} (h : start.Run log m) {p q : Int}
    (hs : Started log p q) : q ≤ m.processes.slots.length := by
  induction h with
  | start =>
    obtain ⟨e, he, -⟩ := hs
    cases he
  | @step log m m' pid what hr ha ht ih =>
    rcases (started_concat ..).mp hs with hs | he
    · have hle := ih hs
      have hgrows := ht.length_le
      omega
    · exact (ProcessTable.le_length_of_kin? (ht.kin?_of_starts he)).2
  | halt _ ih => exact ih hs

theorem Enters.ofInt_ne_neg_one {parent : Option Pid} {child : Int} (h : m.Enters m' parent child) :
    Int32.ofInt child ≠ -1 := by
  have hnumber : child = (m.processes.slots.length : Int) + 1 := h.number
  have hmax : child ≤ 2147483646 := h.bound
  exact KernelExam.ofInt_ne_neg_one (by omega) (by omega)

/-- `m'` is `m` with one more process: a child of `pid` that runs the program of that name
from its beginning, in its parent's directory and with fresh descriptors. -/
structure Begets (m : Machine) (pid child : Pid) (path : String) (args : List String)
    (m' : Machine) : Prop where
  highest : ∀ q ∈ m.pids, q < child
  unheard : ∀ start log, Run start log m → ∀ p q, Started log p q → q < child
  entry : ∃ p, m.processes.get? pid = some p ∧
    m'.processes.get? child = some ⟨some pid, p.cwd, .stdio, none⟩
  task : ∃ image, m.registry.lookup (Path.dropSlashes path) = some image ∧
    m'.task? child = some ⟨Path.dropSlashes path, args, image child args, []⟩
  entries : ∀ q, q ≠ child → m'.processes.get? q = m.processes.get? q
  tasks : ∀ q, q ≠ child → q ≠ pid → m'.task? q = m.task? q
  /-- Apart from the processes only the count of those alive is another. -/
  rest : m' = { m with
    processes := m'.processes, tasks := m'.tasks, referee := m.referee.started }

structure ExecStep (m : Machine) (pid : Pid) (t : Task) (path : String) (args : List String)
    (next : Word → Program Unit) : Prop where
  answered : (∃ a m', m.Takes pid (.answered (.exec path args) a) m' ∧ a ≠ -1) ↔
    m.Startable path args ∧ '\x00' ∉ path.toList ∧ ¬ m.Exhausted
  child : ∀ a m', m.Takes pid (.answered (.exec path args) a) m' → a ≠ -1 →
    m.Begets pid a.toInt path args m' ∧ m'.task? pid = some { t with body := next a }
  refused : (∃ m', m.Takes pid (.answered (.exec path args) (-1 : Word)) m') ↔
    ¬ m.Startable path args
  /-- A refusal leaves everything but its caller, who goes on, as it was. -/
  nobody : ∀ m', m.Takes pid (.answered (.exec path args) (-1 : Word)) m' →
    m' = m.setTask pid { t with body := next (-1) }
  broken : (∃ m', m.Takes pid (.ended .exception) m') ↔
    m.Startable path args ∧ ('\x00' ∈ path.toList ∨ m.Exhausted)
  /-- Unless the numbers were used up, a process has been entered that nothing runs. -/
  orphan : ¬ m.Exhausted → ∀ m', m.Takes pid (.ended .exception) m' →
    m'.Stillborn (m.processes.slots.length + 1)

theorem begets_withProgram (args : List String) (hm : m.Reachable) (ht : m.task? pid = some t)
    (ha : m.alive pid = true) {image : Image} {processes : ProcessTable} {child : Pid}
    (hi : m.registry.lookup (Path.dropSlashes path) = some image)
    (hs : m.processes.spawn (some pid) (m.startingCwd (some pid)) = .ok (processes, child))
    (t' : Task) :
    m.Begets pid child path args ((m.withProgram processes child path args image).setTask pid t') ∧
      ((m.withProgram processes child path args image).setTask pid t').task? pid = some t' := by
  have hcensus := hm.census
  obtain ⟨p, hp, -⟩ := (alive_iff m pid).mp ha
  rw [startingCwd_of_get? hp] at hs
  have hin := ProcessTable.admits_of_spawn hp hs
  have hlt := hin.lt
  have hplace : child = (m.tasks.length : Int) + 1 := by
    rw [hcensus.tasks]
    exact hin.number
  have htasks : (m.withProgram processes child path args image).tasks =
      m.tasks ++ [some ⟨Path.dropSlashes path, args, image child args, []⟩] := rfl
  have hcaller : (m.withProgram processes child path args image).task? pid = some t :=
    task?_append htasks ht
  refine ⟨?_, task?_setTask_self hcaller t'⟩
  constructor
  case highest =>
    intro q hq
    exact Int.lt_of_le_of_lt (hcensus.mem_pids.mp hq).2 hlt
  case unheard =>
    intro start log hr p q hstarted
    have hle : q ≤ (m.processes.slots.length : Int) := hr.started_le hstarted
    exact Int.lt_of_le_of_lt hle hlt
  case entry =>
    rw [setTask_processes]
    exact ⟨p, hp, (ProcessTable.get?_spawn hs child).trans (if_pos rfl)⟩
  case task =>
    rw [task?_setTask_of_ne _ _ _ _ hin.ne, hplace]
    exact ⟨image, hi, hplace ▸ task?_last htasks⟩
  case entries =>
    intro q hq
    rw [setTask_processes]
    exact (ProcessTable.get?_spawn hs q).trans (if_neg hq)
  case tasks =>
    intro q hq hne
    rw [task?_setTask_of_ne _ _ _ _ hne]
    exact task?_concat_of_ne htasks (hplace ▸ hq)
  case rest =>
    rw [setTask]
    split <;> rfl

/-- The only step that the caller can take, by what the call is like. -/
inductive Execs (m : Machine) (pid : Pid) (t : Task) (path : String) (args : List String)
    (next : Word → Program Unit) : Prop
  | started {a : Word} {m₁ : Machine} : m.Startable path args → '\x00' ∉ path.toList →
      ¬ m.Exhausted → a ≠ -1 → m.Begets pid a.toInt path args m₁ →
      m₁.task? pid = some { t with body := next a } →
      (∀ what m', m.Takes pid what m' ↔ what = .answered (.exec path args) a ∧ m' = m₁) →
      Execs m pid t path args next
  | refused : ¬ m.Startable path args →
      (∀ what m', m.Takes pid what m' ↔ what = .answered (.exec path args) (-1 : Word) ∧
        m' = m.setTask pid { t with body := next (-1) }) →
      Execs m pid t path args next
  | broken {m₁ : Machine} : m.Startable path args → ('\x00' ∈ path.toList ∨ m.Exhausted) →
      (¬ m.Exhausted → m₁.Stillborn (m.processes.slots.length + 1)) →
      (∀ what m', m.Takes pid what m' ↔ what = .ended .exception ∧ m' = m₁) →
      Execs m pid t path args next

theorem stillborn_withStillborn (hm : m.Reachable) (ha : m.alive pid = true)
    {processes : ProcessTable} {child : Pid} {cwd : String}
    (hs : m.processes.spawn (some pid) cwd = .ok (processes, child)) :
    ((m.withStillborn processes).finish pid .exception).Stillborn
      (m.processes.slots.length + 1) := by
  have hin : m.Enters (m.withStillborn processes) (some pid) child := enters_of_spawn hs none
  have hchild : child = (m.processes.slots.length : Int) + 1 := hin.number
  have hcaller : (m.withStillborn processes).alive pid = true := hin.alive_iff.mpr (Or.inr ha)
  have hne : child ≠ pid := Int.ne_of_gt (hin.parent_lt ha)
  rw [← hchild]
  constructor
  · exact (alive_finish .exception hcaller).mpr ⟨hne, hin.alive_iff.mpr (Or.inl rfl)⟩
  · show (m.withStillborn processes).task? child = none
    have htasks : (m.withStillborn processes).tasks = m.tasks ++ [none] := rfl
    rw [hchild, ← hm.census.tasks, task?_succ, htasks, List.getElem?_concat_length]
    rfl

theorem execs (hm : m.Reachable) (ha : m.alive pid = true) (hh : m.referee.halted = false)
    (ht : m.task? pid = some t) {next : Word → Program Unit}
    (hb : t.body = .call (.exec path args) next) : m.Execs pid t path args next := by
  by_cases hstart : m.Startable path args
  case neg =>
    apply Execs.refused hstart
    intro what m'
    exact takes_iff_of_answer ht hb hh (serve_exec_refused hstart)
  by_cases hfull : m.Exhausted
  case pos =>
    apply Execs.broken hstart (Or.inr hfull) (fun hroom => absurd hfull hroom)
    intro what m'
    exact takes_iff_of_fault ht hb hh (serve_exec_exhausted hstart hfull)
  by_cases hpath : '\x00' ∈ path.toList
  case pos =>
    obtain ⟨processes, child, f, hs, hserve⟩ := serve_exec_nameless hstart hpath hfull
    apply Execs.broken hstart (Or.inl hpath) (fun _ => stillborn_withStillborn hm ha hs)
    intro what m'
    exact takes_iff_of_fault ht hb hh hserve
  case neg =>
    obtain ⟨image, processes, child, hi, hs, hserve⟩ := serve_exec_started hstart hpath hfull
    have hin := enters_of_spawn hs none
    have hword := hin.toInt_ofInt
    obtain ⟨hbegets, hcaller⟩ := begets_withProgram args hm ht ha hi hs
      { t with body := next (Int32.ofInt child) }
    have hne : Int32.ofInt child ≠ -1 := hin.ofInt_ne_neg_one
    apply Execs.started hstart hpath hfull hne (hword.symm ▸ hbegets) hcaller
    intro what m'
    exact takes_iff_of_answer ht hb hh hserve

/-- An `exec` starts the program that it names, or nothing. -/
theorem exec_starts (hm : m.Reachable) (ha : m.alive pid = true) (hh : m.referee.halted = false)
    (ht : m.task? pid = some t) {next : Word → Program Unit}
    (hb : t.body = .call (.exec path args) next) : m.ExecStep pid t path args next := by
  cases execs hm ha hh ht hb with
  | started hstart hpath hroom hne hbegets hcaller only =>
    constructor
    case answered => exact iff_of_true ⟨_, _, (only _ _).mpr ⟨rfl, rfl⟩, hne⟩ ⟨hstart, hpath, hroom⟩
    case child =>
      intro a m' htake _
      obtain ⟨he, rfl⟩ := (only _ _).mp htake
      cases he
      exact ⟨hbegets, hcaller⟩
    case refused =>
      apply iff_of_false _ (fun h => h hstart)
      rintro ⟨m', htake⟩
      cases ((only _ _).mp htake).1
      exact hne rfl
    case nobody =>
      intro m' htake
      cases ((only _ _).mp htake).1
      exact absurd rfl hne
    case broken =>
      apply iff_of_false
      · rintro ⟨m', htake⟩
        cases ((only _ _).mp htake).1
      · rintro ⟨-, h | h⟩
        · exact hpath h
        · exact hroom h
    case orphan =>
      intro _ m' htake
      cases ((only _ _).mp htake).1
  | refused hstart only =>
    constructor
    case answered =>
      apply iff_of_false _ (fun h => hstart h.1)
      rintro ⟨a, m', htake, hne⟩
      cases ((only _ _).mp htake).1
      exact hne rfl
    case child =>
      intro a m' htake hne
      cases ((only _ _).mp htake).1
      exact absurd rfl hne
    case refused => exact iff_of_true ⟨_, (only _ _).mpr ⟨rfl, rfl⟩⟩ hstart
    case nobody =>
      intro m' htake
      exact ((only _ _).mp htake).2
    case broken =>
      apply iff_of_false _ (fun h => hstart h.1)
      rintro ⟨m', htake⟩
      cases ((only _ _).mp htake).1
    case orphan =>
      intro _ m' htake
      cases ((only _ _).mp htake).1
  | broken hstart hwhy hstill only =>
    constructor
    case answered =>
      apply iff_of_false
      · rintro ⟨a, m', htake, -⟩
        cases ((only _ _).mp htake).1
      · rintro ⟨-, hpath, hroom⟩
        exact hwhy.elim hpath hroom
    case child =>
      intro a m' htake _
      cases ((only _ _).mp htake).1
    case refused =>
      apply iff_of_false _ (fun h => h hstart)
      rintro ⟨m', htake⟩
      cases ((only _ _).mp htake).1
    case nobody =>
      intro m' htake
      cases ((only _ _).mp htake).1
    case broken => exact iff_of_true ⟨_, (only _ _).mpr ⟨rfl, rfl⟩⟩ ⟨hstart, hwhy⟩
    case orphan =>
      intro hroom m' htake
      obtain ⟨-, rfl⟩ := (only _ _).mp htake
      exact hstill hroom

def starter : Plan := Plan.empty.register "p" fun _ _ =>
  .call (.exec "//p" ["x"]) fun _ => .done ()

theorem exec_starts_starter :
    (∃ a m', (starter.build.boot "p" []).1.Takes 1 (.answered (.exec "//p" ["x"]) a) m' ∧
      (starter.build.boot "p" []).1.Begets 1 a.toInt "//p" ["x"] m') ∧
    ∃ m', (mumble.build.boot "p" []).1.Takes 1 (.ended .exception) m' ∧ m'.Stillborn 2 := by
  constructor
  · have hm : (starter.build.boot "p" []).1.Reachable :=
      .boot "p" [] (.build (.register "p" _ .empty))
    have hstep : (starter.build.boot "p" []).1.ExecStep 1 _ "//p" ["x"] _ :=
      exec_starts hm rfl rfl rfl rfl
    have hstart : (starter.build.boot "p" []).1.Startable "//p" ["x"] := ⟨⟨_, rfl⟩, by decide⟩
    have hroom : ¬ (starter.build.boot "p" []).1.Exhausted := Int.not_le.mpr (by decide)
    obtain ⟨a, m', htake, hne⟩ := hstep.answered.mpr ⟨hstart, by decide, hroom⟩
    exact ⟨a, m', htake, (hstep.child a m' htake hne).1⟩
  · have hm : (mumble.build.boot "p" []).1.Reachable :=
      .boot "p" [] (.build (.register "x\x00" _ (.register "p" _ .empty)))
    have hstep : (mumble.build.boot "p" []).1.ExecStep 1 _ "x\x00" [] _ :=
      exec_starts hm rfl rfl rfl rfl
    have hstart : (mumble.build.boot "p" []).1.Startable "x\x00" [] := ⟨⟨_, rfl⟩, by decide⟩
    have hroom : ¬ (mumble.build.boot "p" []).1.Exhausted := Int.not_le.mpr (by decide)
    obtain ⟨m', htake⟩ := hstep.broken.mpr ⟨hstart, Or.inl (by decide)⟩
    exact ⟨m', htake, hstep.orphan hroom m' htake⟩

end Machine

end KernelExam

import KernelExam.Proofs.Machine.Examination
import KernelExam.Proofs.Slots.Carriage

/-!
# Starting the shell once more

The booted program is named in slots, and a registration reads the name back. A name that
boots is short and has no zero in it, so each step on its way undoes the one before and a
restart finds the program that was booted.
-/

set_option autoImplicit false

namespace KernelExam

open Text

theorem nul_not_mem_repr (n : Int) : '\x00' ∉ (toString n).toList := by
  have hdigits : ∀ k : Nat, '\x00' ∉ k.repr.toList := by
    intro k hk
    rw [Nat.toList_repr] at hk
    exact absurd (Nat.isDigit_of_mem_toDigits (by decide) (by decide) hk) (by decide)
  rw [Int.toString_eq_repr, Int.repr_eq_if]
  split
  · exact hdigits _
  · rw [String.toList_append, List.mem_append, not_or]
    exact ⟨by decide, hdigits _⟩

theorem Machine.zero_mem_label (path : String) (pid : Pid) :
    0 ∈ label path pid ↔ '\x00' ∈ path.toList := by
  have hnumber := nul_not_mem_repr pid
  rw [label, zero_mem_utf8Bytes, String.toList_append, String.toList_append, List.mem_append,
    List.mem_append]
  constructor
  · rintro ((h | h) | h)
    · exact h
    · exact absurd h (by decide)
    · exact absurd h hnumber
  · intro h
    exact Or.inl (Or.inl h)

namespace Session

open Program

theorem replay_introduce_named {n : Word} {replies : List Reply} {s : Session}
    (h : (introduce n).replay replies = some s) :
    ∃ named after, replies = named ++ after ∧
      (stringArgument .shellProgram Slot.shellProgramWords).replay named = some s.shellProgram := by
  obtain ⟨named, after, shellProgram, rfl, hnamed, hload⟩ := replay_bind h
  obtain ⟨_, _, testId, -, -, hend⟩ := replay_bind hload
  obtain ⟨-, rfl⟩ := replay_done hend
  exact ⟨named, after, rfl, hnamed⟩

/-- Whoever opens the lock, a registration reads the name of the shell program. -/
theorem replay_register_named {init : LockInit} {replies : List Reply} {s : Session}
    (h : (register init).replay replies = some s) :
    ∃ before named after, replies = before ++ named ++ after ∧
      (stringArgument .shellProgram Slot.shellProgramWords).replay named = some s.shellProgram := by
  have hreferee : ∀ {replies}, (register .referee).replay replies = some s →
      ∃ before named after, replies = before ++ named ++ after ∧
        (stringArgument .shellProgram Slot.shellProgramWords).replay named =
          some s.shellProgram := by
    intro replies h
    rw [register_eq] at h
    obtain ⟨before, _, n, rfl, -, hrest⟩ := replay_bind h
    obtain ⟨named, after, rfl, hnamed⟩ := replay_introduce_named hrest
    exact ⟨before, named, after, (List.append_assoc ..).symm, hnamed⟩
  cases init with
  | referee => exact hreferee h
  | firstProcess =>
    rw [register_firstProcess] at h
    obtain ⟨n, _, rfl, hnext⟩ := replay_call h
    split at hnext
    · obtain ⟨a, _, rfl, hnext⟩ := replay_call hnext
      obtain ⟨before, named, after, rfl, hnamed⟩ := hreferee hnext
      exact ⟨_ :: _ :: before, named, after, rfl, hnamed⟩
    · obtain ⟨before, named, after, rfl, hnamed⟩ := hreferee hnext
      exact ⟨_ :: before, named, after, rfl, hnamed⟩

end Session

namespace Machine

variable {m m' : Machine} {parent : Option Pid} {path program : String} {args : List String}
  {processes : ProcessTable} {child : Pid} {image : Image}

def withProgram (m : Machine) (processes : ProcessTable) (child : Pid) (path : String)
    (args : List String) (image : Image) : Machine :=
  { m with
    processes
    referee := m.referee.started
    tasks := m.tasks ++ [some ⟨Path.dropSlashes path, args, image child args, []⟩] }

theorem launch_of_lookup (hi : m.registry.lookup (Path.dropSlashes path) = some image) :
    m.launch parent path args = match m.processes.spawn parent (m.startingCwd parent) with
      | .error f => (m, .error f)
      | .ok (processes, child) =>
        if 0 ∈ label path child then
          ({ m with processes, referee := m.referee.started, tasks := m.tasks ++ [none] },
            .error (.zeroInLabel (label path child)))
        else (m.withProgram processes child path args image, .ok (some child)) := by
  rw [launch, hi]
  rfl

theorem launch_eq (hi : m.registry.lookup (Path.dropSlashes path) = some image)
    (hs : m.processes.spawn parent (m.startingCwd parent) = .ok (processes, child))
    (hpath : '\x00' ∉ path.toList) :
    m.launch parent path args =
      (m.withProgram processes child path args image, .ok (some child)) := by
  have hlabel : 0 ∉ label path child := fun h => hpath ((zero_mem_label path child).mp h)
  rw [launch_of_lookup hi, hs]
  exact if_neg hlabel

theorem launch_crowded {f : Fault} (hi : m.registry.lookup (Path.dropSlashes path) = some image)
    (hs : m.processes.spawn parent (m.startingCwd parent) = .error f) :
    m.launch parent path args = (m, .error f) := by
  rw [launch_of_lookup hi, hs]

theorem launch_ok (h : m.launch parent path args = (m', .ok (some child))) :
    ∃ image processes, m.registry.lookup (Path.dropSlashes path) = some image ∧
      m.processes.spawn parent (m.startingCwd parent) = .ok (processes, child) ∧
      '\x00' ∉ path.toList ∧ m' = m.withProgram processes child path args image := by
  cases hi : m.registry.lookup (Path.dropSlashes path) with
  | none => simp [launch, hi] at h
  | some image =>
    cases hs : m.processes.spawn parent (m.startingCwd parent) with
    | error f =>
      rw [launch_crowded hi hs] at h
      cases h
    | ok made =>
      obtain ⟨processes, pid⟩ := made
      by_cases hpath : '\x00' ∈ path.toList
      · rw [launch_of_lookup hi, hs] at h
        dsimp only at h
        rw [if_pos ((zero_mem_label path pid).mpr hpath)] at h
        cases h
      · rw [launch_eq hi hs hpath] at h
        obtain ⟨rfl, hchild⟩ := Prod.mk.inj h
        obtain rfl := Option.some.inj (Except.ok.inj hchild)
        exact ⟨image, processes, rfl, rfl, hpath, rfl⟩

def named (m : Machine) (program : String) : Machine :=
  { m with
    booted := true
    referee := (m.referee.setText .shellProgram program Slot.shellProgramWords).1 }

theorem load_named (m : Machine) (program : String) {j : Word}
    (hj : ∀ k < Slot.shellProgramWords, j ≠ Slot.shellProgram.index + Int32.ofNat k) :
    (m.named program).referee.load j = m.referee.load j :=
  Referee.load_setText m.referee .shellProgram program hj

theorem permits_named (m : Machine) (program : String) :
    (m.named program).referee.permits = m.referee.permits := by
  obtain ⟨slots, hslots⟩ := m.referee.setText_eq .shellProgram program Slot.shellProgramWords
  rw [named, hslots]

/-- What a boot that works has made of the machine. -/
theorem boot_ok (h : m.boot program args = (m', .ok ())) :
    ∃ image processes child, m.registry.lookup (Path.dropSlashes program) = some image ∧
      m.processes.spawn none "/" = .ok (processes, child) ∧
      (utf8Bytes program).length < 4 * Slot.shellProgramWords ∧ '\x00' ∉ program.toList ∧
      m' = (m.named program).withProgram processes child program args image := by
  have htaken := Slot.shellProgram.setText_taken m.referee program Slot.shellProgramWords
    (by decide)
  rw [boot] at h
  split at h
  · cases h
  dsimp only at h
  rcases hset : m.referee.setText .shellProgram program Slot.shellProgramWords with
    ⟨referee, result⟩
  rw [hset] at h htaken
  obtain rfl : result = _ := htaken
  by_cases hfits : (utf8Bytes program).length < 4 * Slot.shellProgramWords
  · rw [decide_eq_true hfits] at h
    dsimp only at h
    rcases hl : ({ m with booted := true, referee } : Machine).launch none program args with
      ⟨m₁, f | _ | child⟩
    · rw [hl] at h
      cases h
    · rw [hl] at h
      cases h
    · rw [hl] at h
      obtain rfl : m₁ = m' := congrArg Prod.fst h
      obtain ⟨image, processes, hi, hs, hpath, rfl⟩ := launch_ok hl
      refine ⟨image, processes, child, hi, hs, hfits, hpath, ?_⟩
      rw [named, hset]
  · rw [decide_eq_false hfits] at h
    cases h

theorem boot_eq (hb : m.booted = false)
    (hi : m.registry.lookup (Path.dropSlashes program) = some image)
    (hs : m.processes.spawn none "/" = .ok (processes, child))
    (hfits : (utf8Bytes program).length < 4 * Slot.shellProgramWords)
    (hnul : '\x00' ∉ program.toList) :
    m.boot program args =
      ((m.named program).withProgram processes child program args image, .ok ()) := by
  have htaken := Slot.shellProgram.setText_taken m.referee program Slot.shellProgramWords
    (by decide)
  rw [decide_eq_true hfits] at htaken
  have hset : m.referee.setText .shellProgram program Slot.shellProgramWords =
      ((m.referee.setText .shellProgram program Slot.shellProgramWords).1, .ok true) :=
    Prod.ext rfl htaken
  have hlaunch : (m.named program).launch none program args =
      ((m.named program).withProgram processes child program args image, .ok (some child)) :=
    launch_eq hi hs hnul
  rw [named] at hlaunch ⊢
  simp only [boot, hb, Bool.false_eq_true, if_false]
  rw [hset]
  simp only [hlaunch]

section Exec

variable {pid : Pid} (hargs : argumentBytes args ≤ pageSize)
include hargs

theorem serve_exec_ok (hl : m.launch (some pid) path args = (m', .ok (some child))) :
    m.serve pid (.exec path args) = (m', .answer (Int32.ofInt child)) := by
  rw [serve, exec, if_neg (Nat.not_lt.mpr hargs), hl]

theorem serve_exec_error {f : Fault} (hl : m.launch (some pid) path args = (m', .error f)) :
    m.serve pid (.exec path args) = (m', .fault f) := by
  rw [serve, exec, if_neg (Nat.not_lt.mpr hargs), hl]

end Exec

/-- No number is left for another process. -/
def Exhausted (m : Machine) : Prop := ProcessTable.maxPid ≤ m.processes.slots.length

theorem spawn_of_not_exhausted (h : ¬ m.Exhausted) (parent : Option Pid) (cwd : String) :
    ∃ processes, m.processes.spawn parent cwd =
      .ok (processes, (m.processes.slots.length : Int) + 1) := by
  have hroom : ¬ ProcessTable.maxPid < (m.processes.slots.length : Int) + 1 :=
    fun hlt => h (Int.lt_add_one_iff.mp hlt)
  rw [ProcessTable.spawn]
  exact ⟨_, if_neg hroom⟩

theorem spawn_of_exhausted (h : m.Exhausted) (parent : Option Pid) (cwd : String) :
    m.processes.spawn parent cwd = .error .addOverflow := by
  have hfull : ProcessTable.maxPid < (m.processes.slots.length : Int) + 1 :=
    Int.lt_add_one_iff.mpr h
  rw [ProcessTable.spawn]
  exact if_pos hfull

/-- The next step of the process gives it a child that runs the program from its beginning. -/
structure Starts (m : Machine) (pid : Pid) (t : Task) (next : Word → Program Unit)
    (path : String) (image : Image) (m' : Machine) (child : Pid) : Prop where
  step : m.step pid = some m'
  unborn : m.task? child = none
  kin : m'.processes.kin? child = some (some pid, none)
  task : m'.task? child = some ⟨Path.dropSlashes path, [], image child [], []⟩
  caller : m'.task? pid = some { t with body := next (Int32.ofInt child) }

section Starts

variable {pid : Pid} {t : Task} {next : Word → Program Unit} (ha : m.alive pid = true)
  (hh : m.referee.halted = false) (ht : m.task? pid = some t)
  (hb : t.body = .call (.exec path []) next)
  (hi : m.registry.lookup (Path.dropSlashes path) = some image)
include ha hh ht hb hi

theorem starts (hplaces : m.tasks.length = m.processes.slots.length) (hroom : ¬ m.Exhausted)
    (hpath : '\x00' ∉ path.toList) : ∃ m' child, m.Starts pid t next path image m' child := by
  obtain ⟨processes, hs⟩ := spawn_of_not_exhausted hroom (some pid) (m.startingCwd (some pid))
  generalize hchild : (m.processes.slots.length : Int) + 1 = child at hs
  rw [← hplaces] at hchild
  have hargs : argumentBytes [] ≤ pageSize := by decide
  have hstep := step_of_call ha ht hb hh
  rw [serve_exec_ok hargs (launch_eq hi hs hpath)] at hstep
  have hin := enters_of_spawn hs (some ⟨Path.dropSlashes path, [], image child [], []⟩)
  have hnew : m.task? child = none := by
    rw [← hchild, task?_succ, List.getElem?_eq_none (Nat.le_refl _)]
    rfl
  have hne : child ≠ pid := by
    rintro rfl
    rw [ht] at hnew
    cases hnew
  have hlast : (m.withProgram processes child path [] image).task? child =
      some ⟨Path.dropSlashes path, [], image child [], []⟩ := by
    rw [← hchild]
    exact task?_last rfl
  have hcaller : (m.withProgram processes child path [] image).task? pid = some t :=
    task?_append rfl ht
  refine ⟨_, child, hstep, hnew, ?_, ?_, task?_setTask_self hcaller _⟩
  · rw [setTask_processes]
    exact (hin.kin child).trans (if_pos rfl)
  · rw [task?_setTask_of_ne _ _ _ _ hne]
    exact hlast

theorem breaks_of_exhausted (hfull : m.Exhausted) : m.step pid = some (m.finish pid .exception) := by
  have hargs : argumentBytes [] ≤ pageSize := by decide
  have hstep := step_of_call ha ht hb hh
  rw [serve_exec_error hargs (launch_crowded hi (spawn_of_exhausted hfull _ _))] at hstep
  exact hstep

end Starts

end Machine

theorem Referee.text_started (r : Referee) (i : Word) (words : Nat) :
    r.started.text i words = r.text i words :=
  text_congr i words fun _ _ => rfl

namespace Machine

/-- A restart starts the program that was booted, however its name is written and whatever the
other processes do, as long as the name is left in its slots. -/
theorem restart_starts_booted {plan : Plan} (hp : plan.Drawn) {program : String}
    {args : List String} {booted : Machine} (hb : plan.build.boot program args = (booted, .ok ())) :
    ∃ image, plan.registry.lookup (Path.dropSlashes program) = some image ∧
      booted.task? 1 = some ⟨Path.dropSlashes program, args, image 1 args, []⟩ ∧
      ∀ log m pid earlier replies later init s, booted.Run log m →
        Undisturbed log Slot.shellProgram.index Slot.shellProgramWords →
        repliesTo pid log = earlier ++ replies ++ later →
        (Session.register init).replay replies = some s →
        s.shellProgram = program ∧ ∀ t next, m.alive pid = true → m.referee.halted = false →
          m.task? pid = some t → t.body = s.restart.bind next →
          (¬ m.Exhausted → ∃ m' child, m.Starts pid t next program image m' child) ∧
            (m.Exhausted → m.step pid = some (m.finish pid .exception)) := by
  have hcensus := hp.fresh.census_boot program args
  rw [hb] at hcensus
  obtain ⟨image, processes, child, hi, hs, hfits, hnul, rfl⟩ := boot_ok hb
  obtain ⟨hchild, -, -⟩ := ProcessTable.spawn_ok hs
  obtain rfl : child = 1 := hchild
  refine ⟨image, hi, rfl, ?_⟩
  intro log m pid earlier replies later init s hr hquiet hreplies hreplay
  obtain ⟨t, htext, hobtains⟩ := Slot.shellProgram.obtains_stringArgument
    ((plan.build.named program).withProgram processes 1 program args image) Slot.shellProgramWords
    (by decide)
  have hname : t = program := by
    have hread := plan.build.referee.text_setText .shellProgram program hfits (by decide)
      (Nat.le_refl _) (by decide)
    rw [withProgram, named, Referee.text_started, hread,
      beforeNul_of_not_mem hnul] at htext
    exact (Except.ok.inj htext).symm
  have hshell : s.shellProgram = program := by
    obtain ⟨before, shell, after, rfl, hshell⟩ := Session.replay_register_named hreplay
    rw [← hname]
    refine hobtains.always log m pid (earlier ++ before) shell (after ++ later) _ hr hquiet ?_
      hshell
    rw [hreplies]
    simp only [List.append_assoc]
  refine ⟨hshell, fun t next ha hh ht hbody => ?_⟩
  have hexec : t.body = .call (.exec program []) next := by
    rw [hbody, Session.restart, hshell]
    rfl
  have him : m.registry.lookup (Path.dropSlashes program) = some image := by
    rw [hr.registry]
    exact hi
  exact ⟨fun hroom => starts ha hh ht hexec him (hcensus.run hr).tasks hroom hnul,
    breaks_of_exhausted ha hh ht hexec him⟩

def phoenix : Image := fun _ _ => (Session.register .referee).bind fun s =>
  s.restart.bind fun _ => .done ()

def nest : Plan := Plan.empty.register "sh" phoenix

def nestReplies : List Reply :=
  [⟨.ask Request.p.code lockId 0, (0 : Word)⟩,
    ⟨.ask Request.loadWord.code countSlot 0, (0 : Word)⟩,
    ⟨.ask Request.storeWord.code countSlot 1, (0 : Word)⟩,
    ⟨.ask Request.v.code lockId 0, (0 : Word)⟩,
    ⟨.ask Request.loadWord.code Slot.shellProgram.index 0, (1752379183 : Word)⟩,
    ⟨.ask Request.loadWord.code (Slot.shellProgram.index + 1) 0, (0 : Word)⟩,
    ⟨.ask Request.loadWord.code (Slot.shellProgram.index + 2) 0, (0 : Word)⟩,
    ⟨.ask Request.loadWord.code (Slot.shellProgram.index + 3) 0, (0 : Word)⟩,
    ⟨.ask Request.loadWord.code Slot.testId.index 0, (0 : Word)⟩]

theorem nest_run (booted : Machine) (hb : nest.build.boot "//sh" ["x"] = (booted, .ok ())) :
    ∃ m, booted.Run (nestReplies.map (Reply.event 1)) m ∧ m.alive 1 = true ∧
      m.referee.halted = false ∧ ¬ m.Exhausted ∧ ∃ t, m.task? 1 = some t ∧
        t.body = (Session.restart ⟨0, 0, "//sh"⟩).bind fun _ => .done () := by
  obtain rfl : (nest.build.boot "//sh" ["x"]).1 = booted := congrArg Prod.fst hb
  iterate 9 refine exists_run_cons_and rfl (.answered rfl rfl rfl rfl) ?_
  exact ⟨_, .start, rfl, rfl, Int.not_le.mpr (by decide), _, rfl, rfl⟩

theorem restart_starts_booted_nest : ∃ booted m t m' child,
    nest.build.boot "//sh" ["x"] = (booted, .ok ()) ∧
      booted.Run (nestReplies.map (Reply.event 1)) m ∧ m.task? 1 = some t ∧
      m.Starts 1 t (fun _ => .done ()) "//sh" phoenix m' child := by
  have hdrawn : nest.Drawn := .register "sh" phoenix .empty
  have hb : nest.build.boot "//sh" ["x"] = ((nest.build.boot "//sh" ["x"]).1, .ok ()) := by rfl
  obtain ⟨m, hr, ha, hh, hroom, t, ht, hbody⟩ := nest_run _ hb
  obtain ⟨image, hi, -, hrestart⟩ := restart_starts_booted hdrawn hb
  have hreplay : (Session.register .referee).replay nestReplies = some ⟨0, 0, "//sh"⟩ := by rfl
  have hquiet : Undisturbed (nestReplies.map (Reply.event 1)) Slot.shellProgram.index
      Slot.shellProgramWords := by decide
  obtain ⟨-, hstarts⟩ := hrestart _ m 1 [] nestReplies [] .referee _ hr hquiet
    (by rw [repliesTo_map_event, List.nil_append, List.append_nil]) hreplay
  obtain rfl : phoenix = image := Option.some.inj hi
  obtain ⟨m', child, hstarted⟩ := (hstarts t _ ha hh ht hbody).1 hroom
  exact ⟨_, m, t, m', child, hb, hr, ht, hstarted⟩

end Machine

end KernelExam

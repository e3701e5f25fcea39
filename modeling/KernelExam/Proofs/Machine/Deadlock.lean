import KernelExam.Proofs.Machine.Joining
import KernelExam.Proofs.Machine.Restart

/-!
# Who waits for whom

A join waits for a child, and a child has a larger number than its parent. A chain of
joins so climbs in the numbers and ends with somebody who waits for a permit or can go on.
One kind of process is not on any chain: one that was entered under a name with a zero in
it. Nothing runs it, its parent has broken down over it, and it stays to the end.
-/

set_option autoImplicit false

namespace KernelExam

theorem Path.mem_dropSlashes {c : Char} (hc : c ≠ '/') (path : String) :
    c ∈ (dropSlashes path).toList ↔ c ∈ path.toList := by
  rw [dropSlashes, String.toList_ofList]
  constructor
  · exact fun h => (List.dropWhile_sublist _).mem h
  · intro h
    rw [← List.takeWhile_append_dropWhile (p := fun x => decide (x = '/')) (l := path.toList),
      List.mem_append] at h
    rcases h with h | h
    · have hslash := List.mem_takeWhile_imp h
      exact absurd (of_decide_eq_true hslash) hc
    · exact h

/-- Every registered name can be part of a label. -/
def Speakable (registry : List (String × Image)) : Prop :=
  ∀ name image, registry.lookup name = some image → '\x00' ∉ name.toList

namespace Machine

def AwaitsPermit (m : Machine) (q : Pid) : Prop :=
  m.referee.halted = false ∧ ∃ (t : Task) (a0 a1 : Word) (next : Word → Program Unit),
    m.task? q = some t ∧ t.body = .call (.ask Request.p.code a0 a1) next ∧
      m.referee.permits a0 = 0

def AwaitsChild (m : Machine) (q child : Pid) : Prop :=
  m.referee.halted = false ∧ ∃ (t : Task) (w status : Word) (next : Word × Word → Program Unit),
    m.task? q = some t ∧ t.body = .call (.join w status) next ∧ w.toInt = child ∧
      m.processes.kin? child = some (some q, none)

/-- A process was entered, but nothing runs it. -/
def Stillborn (m : Machine) (q : Pid) : Prop := m.alive q = true ∧ m.task? q = none

variable {m m' : Machine} {pid q : Int} {c : Call} {what : Happening} {log : List Event}

theorem ask_blocked {request a0 a1 : Word} (h : (m.ask pid request a0 a1).2 = .blocked) :
    request = Request.p.code := by
  cases hr : Request.ofCode? request with
  | none =>
    simp only [ask, hr] at h
    cases h
  | some r =>
    simp only [ask, hr] at h
    cases r with
    | p => exact eq_code_of_ofCode? hr
    | v =>
      dsimp only at h
      split at h <;> cases h
    | fileExists =>
      dsimp only at h
      rw [existsInSlots] at h
      split at h
      · cases h
      · split at h <;> cases h
    | _ => cases h

theorem serve_blocked (h : (m.serve pid c).2 = .blocked) :
    (∃ a0 a1, c = .ask Request.p.code a0 a1) ∨ ∃ w status, c = .join w status := by
  rcases hs : m.serve pid c with ⟨m', r⟩
  rw [hs] at h
  obtain rfl : r = .blocked := h
  have hserved := served_of_serve hs
  generalize hr : (Reaction.blocked : Reaction c.Answer) = r at hserved
  cases hserved with
  | waits => exact Or.inr ⟨_, _, rfl⟩
  | launched _ _ hlast =>
    rcases hlast with ⟨-, rfl⟩ | ⟨-, f, rfl⟩
    · cases hr
    · cases hr
  | asked _ =>
    subst hr
    obtain rfl := ask_blocked (congrArg Prod.snd hs)
    exact Or.inl ⟨_, _, rfl⟩
  | _ => cases hr

theorem waits_iff :
    m.Waits q ↔ m.AwaitsPermit q ∨ ∃ child, m.AwaitsChild q child := by
  constructor
  · rintro ⟨t, c, next, ht, hb, hh, hs⟩
    rcases serve_blocked hs with ⟨a0, a1, rfl⟩ | ⟨w, status, rfl⟩
    · left
      refine ⟨hh, t, a0, a1, next, ht, hb, ?_⟩
      rw [serve_p_running m q a0 a1 hh] at hs
      split at hs
      · cases hs
      · omega
    · right
      refine ⟨w.toInt, hh, t, w, status, next, ht, hb, rfl, ?_⟩
      have hs : (m.join q w status).2 = .blocked := hs
      by_cases hchild : ∃ e, m.processes.kin? w.toInt = some (some q, e)
      · obtain ⟨_ | how, he⟩ := hchild
        · exact he
        · rw [join_ended m q status he] at hs
          cases hs
      · rw [join_stranger m q status (not_exists.mp hchild)] at hs
        cases hs
  · rintro (⟨hh, t, a0, a1, next, ht, hb, hpermits⟩ | ⟨child, hh, t, w, status, next, ht, hb, rfl, hk⟩)
    · refine ⟨t, .ask Request.p.code a0 a1, next, ht, hb, hh, ?_⟩
      rw [serve_p_running m q a0 a1 hh, if_neg (by omega)]
    · refine ⟨t, .join w status, next, ht, hb, hh, ?_⟩
      show (m.join q w status).2 = .blocked
      rw [join_living m q status hk]

theorem step_eq_none_iff (ha : m.alive q = true) :
    m.step q = none ↔ m.Waits q ∨ m.Stillborn q := by
  cases ht : m.task? q with
  | none =>
    refine iff_of_true ?_ (Or.inr ⟨ha, ht⟩)
    rw [step, if_pos ha, ht]
    rfl
  | some t =>
    have hno : ¬ m.Stillborn q := by
      rintro ⟨-, hnone⟩
      cases ht.symm.trans hnone
    rw [or_iff_left hno]
    constructor
    · intro hstep
      rw [step_of_task ha ht, advance] at hstep
      split at hstep
      all_goals try cases hstep
      rename_i c next hb
      split at hstep
      · cases hstep
      · rename_i hh
        split at hstep
        · cases hstep
        · rename_i hs
          exact ⟨t, c, next, ht, hb, by simpa using hh, congrArg Prod.snd hs⟩
        · cases hstep
    · rintro ⟨t', c, next, ht', hb, hh, hs⟩
      rw [step_of_call ha ht' hb hh]
      split
      · rename_i hs'
        cases hs.symm.trans (congrArg Prod.snd hs')
      · rfl
      · rename_i hs'
        cases hs.symm.trans (congrArg Prod.snd hs')

theorem none_notMem_launch (parent : Option Pid) (path : String) (args : List String)
    (hnames : Speakable m.registry) (hm : none ∉ m.tasks) :
    none ∉ (m.launch parent path args).1.tasks := by
  cases hi : m.registry.lookup (Path.dropSlashes path) with
  | none =>
    rw [launch, hi]
    exact hm
  | some image =>
    have hpath : '\x00' ∉ path.toList := fun h =>
      hnames _ image hi ((Path.mem_dropSlashes (by decide) path).mpr h)
    cases hs : m.processes.spawn parent (m.startingCwd parent) with
    | error f =>
      rw [launch_crowded hi hs]
      exact hm
    | ok made =>
      obtain ⟨processes, child⟩ := made
      rw [launch_eq hi hs hpath]
      simpa [withProgram] using hm

theorem none_notMem_serve (hnames : Speakable m.registry) (hm : none ∉ m.tasks)
    {r : Reaction c.Answer} (hs : m.serve pid c = (m', r)) : none ∉ m'.tasks := by
  by_cases hc : ∀ path args, c ≠ .exec path args
  · rw [(served_of_serve hs).tasks_eq hc]
    exact hm
  · obtain ⟨path, args, rfl⟩ : ∃ path args, c = .exec path args := by
      by_contra hnone
      exact hc fun path args he => hnone ⟨path, args, he⟩
    obtain rfl : (m.exec pid path args).1 = m' := congrArg Prod.fst hs
    rw [exec]
    split
    · exact hm
    · have hlaunch := none_notMem_launch (some pid) path args hnames hm
      split
      all_goals
        rename_i hl
        rw [hl] at hlaunch
        exact hlaunch

theorem none_notMem_setTask (hm : none ∉ m.tasks) (t : Task) : none ∉ (m.setTask pid t).tasks := by
  rw [setTask]
  split
  · intro h
    rcases List.mem_or_eq_of_mem_set h with h | h
    · exact hm h
    · cases h
  · exact hm

theorem Takes.none_notMem (hnames : Speakable m.registry) (hm : none ∉ m.tasks)
    (h : m.Takes pid what m') : none ∉ m'.tasks := by
  cases h with
  | answered _ _ _ hs => exact none_notMem_setTask (none_notMem_serve hnames hm hs) _
  | noted _ _ => exact none_notMem_setTask hm _
  | done | exit | crash | halted => exact hm
  | @faulted t c next served f _ _ _ hs =>
    have hserved : none ∉ served.tasks := none_notMem_serve hnames hm hs
    exact hserved

theorem Run.none_notMem {start : Machine} (hnames : Speakable start.registry)
    (hstart : none ∉ start.tasks) (h : start.Run log m) : none ∉ m.tasks := by
  induction h with
  | start => exact hstart
  | step hr _ ht ih =>
    rw [← hr.registry] at hnames
    exact ht.none_notMem hnames ih
  | halt _ ih => exact ih

/-- Whoever was told of a child has one that runs. -/
def Manned (log : List Event) (m : Machine) : Prop := ∀ p q : Int, Started log p q → m.task? q ≠ none

theorem Takes.task?_ne_none (h : m.Takes pid what m') (hq : m.task? q ≠ none) :
    m'.task? q ≠ none := by
  obtain ⟨t, ht⟩ := Option.ne_none_iff_exists'.mp hq
  by_cases hpid : q = pid
  · obtain ⟨-, t', -, ht', -⟩ := h.advances
    rw [hpid, ht']
    nofun
  · rw [h.task?_of_ne hpid ht]
    nofun

theorem task?_setTask_ne_none (hq : m.task? q ≠ none) (t : Task) :
    (m.setTask pid t).task? q ≠ none := by
  obtain ⟨t₀, ht⟩ := Option.ne_none_iff_exists'.mp hq
  by_cases hpid : q = pid
  · rw [← hpid, task?_setTask_self ht]
    nofun
  · rw [task?_setTask_of_ne m pid q t hpid, ht]
    nofun

theorem Takes.task?_of_starts {p : Int} (hc : m.Census) (h : m.Takes pid what m')
    (he : Event.Starts ⟨pid, what⟩ p q) : m'.task? q ≠ none := by
  cases h with
  | @answered t c next served a _ _ _ hs =>
    cases c with
    | exec path args =>
      obtain ⟨-, hne, rfl⟩ := he
      apply task?_setTask_ne_none
      have hserved := served_of_serve hs
      generalize hr : (Reaction.answer a : Reaction Word) = r at hserved
      cases hserved with
      | refused _ => exact absurd (Reaction.answer.inj hr) hne
      | crowded => cases hr
      | @launched _ _ image processes child last _ _ hspawn hlast =>
        rcases hlast with ⟨rfl, rfl⟩ | ⟨-, f, rfl⟩
        · obtain rfl := Reaction.answer.inj hr
          have hin := enters_of_spawn hspawn (some ⟨Path.dropSlashes path, args, image child args, []⟩)
          have hchild : child = (m.tasks.length : Int) + 1 := by
            rw [hc.tasks]
            exact hin.number
          rw [hin.toInt_ofInt, hchild, task?_last rfl]
          nofun
        · cases hr
    | _ => exact absurd he.2 id
  | _ => exact absurd he.2 id

theorem Manned.run {start : Machine} (hstart : start.Census) (h : start.Run log m) :
    Manned log m := by
  induction h with
  | start => exact fun p q ⟨e, he, _⟩ => absurd he (List.not_mem_nil)
  | step hr ha ht ih =>
    intro p q hpq
    rcases (started_concat ..).mp hpq with hpq | he
    · exact ht.task?_ne_none (ih p q hpq)
    · exact ht.task?_of_starts (hstart.run hr) he
  | halt _ ih => exact ih

theorem exists_awaitsPermit_or_step (hf : Families log m) (hmanned : Manned log m)
    (ha : m.alive q = true) (ht : m.task? q ≠ none) :
    (∃ p, m.alive p = true ∧ m.AwaitsPermit p) ∨ ∃ p m', m.step p = some m' := by
  -- the numbers on the chain grow, and the table ends somewhere
  induction hn : ((m.processes.slots.length : Int) - q).toNat using Nat.strong_induction_on
    generalizing q with
  | _ n ih =>
    cases hstep : m.step q with
    | some m' => exact Or.inr ⟨q, m', hstep⟩
    | none =>
      rcases (step_eq_none_iff ha).mp hstep with hwaits | ⟨-, hnone⟩
      · rcases waits_iff.mp hwaits with hpermit | ⟨child, -, t, w, status, next, -, -, rfl, hk⟩
        · exact Or.inl ⟨q, ha, hpermit⟩
        · have hlt := hf.older q w.toInt none hk
          have hle := (ProcessTable.le_length_of_kin? hk).2
          have hchild := (alive_iff_kin? m w.toInt).mpr ⟨_, hk⟩
          have hstarted := hf.child q w.toInt none hk ha
          exact ih _ (by omega) hchild (hmanned q w.toInt hstarted) rfl
      · exact absurd hnone ht

theorem Served.task?_eq {r : Reaction c.Answer} (h : m.Served pid c m' r)
    (hq : q ≤ (m.tasks.length : Int)) : m'.task? q = m.task? q := by
  cases hplace : ProcessTable.place? q with
  | none => rw [task?, task?, hplace, Option.bind_none, Option.bind_none]
  | some n =>
    obtain rfl := (ProcessTable.place?_eq_some_iff q n).mp hplace
    rw [task?_succ, task?_succ]
    rcases h.tasks with hs | ⟨last, hs, -⟩
    · rw [hs]
    · rw [hs, List.getElem?_append_left (by omega)]

theorem Takes.alive_of_ne (h : m.Takes pid what m') (ha : m.alive pid = true) (hq : q ≠ pid)
    (hlive : m.alive q = true) : m'.alive q = true := by
  cases h with
  | answered _ _ _ hs => rw [(sameKin_setTask ..).alive, (changes hs).alive hlive]
  | noted _ _ => rw [(sameKin_setTask ..).alive, hlive]
  | done | exit | crash | halted => exact (alive_finish _ ha).mpr ⟨hq, hlive⟩
  | faulted _ _ _ hs =>
    exact (alive_finish _ ((changes hs).alive ha)).mpr ⟨hq, (changes hs).alive hlive⟩

/-- Nothing becomes of a process that nothing runs. -/
theorem Takes.stillborn (hc : m.Census) (ha : m.alive pid = true) (h : m.Takes pid what m')
    (hq : m.Stillborn q) : pid ≠ q ∧ m'.Stillborn q := by
  obtain ⟨hlive, hnone⟩ := hq
  have hne : q ≠ pid := by
    rintro rfl
    obtain ⟨t, -, ht, -⟩ := h.advances
    cases ht.symm.trans hnone
  have hplace : q ≤ (m.tasks.length : Int) := by
    obtain ⟨parent, hk⟩ := (alive_iff_kin? m q).mp hlive
    rw [hc.tasks]
    exact (ProcessTable.le_length_of_kin? hk).2
  refine ⟨hne.symm, h.alive_of_ne ha hne hlive, ?_⟩
  cases h with
  | answered _ _ _ hs =>
    rw [task?_setTask_of_ne _ _ _ _ hne, (served_of_serve hs).task?_eq hplace, hnone]
  | noted _ _ => rw [task?_setTask_of_ne _ _ _ _ hne, hnone]
  | done | exit | crash | halted => exact hnone
  | faulted _ _ _ hs => exact ((served_of_serve hs).task?_eq hplace).trans hnone

theorem Run.stillborn (hc : m.Census) (h : m.Run log m') (hq : m.Stillborn q) :
    m'.Stillborn q ∧ ∀ e ∈ log, e.pid ≠ q := by
  induction h with
  | start => exact ⟨hq, fun e he => absurd he List.not_mem_nil⟩
  | step hr ha ht ih =>
    obtain ⟨hstill, hlog⟩ := ih
    obtain ⟨hne, hafter⟩ := ht.stillborn (hc.run hr) ha hstill
    refine ⟨hafter, fun e he => ?_⟩
    rcases List.mem_append.mp he with he | he
    · exact hlog e he
    · obtain rfl := List.mem_singleton.mp he
      exact hne
  | halt _ ih => exact ih

structure Unlocked (m : Machine) : Prop where
  /-- Who is alive and takes no step is in a P, in a join, or has nothing that runs it. -/
  waits : ∀ q, m.alive q = true →
    (m.step q = none ↔ m.AwaitsPermit q ∨ (∃ child, m.AwaitsChild q child) ∨ m.Stillborn q)
  permit : (∃ q, m.alive q = true) →
    (∀ q, m.alive q = true → m.AwaitsPermit q ∨ ∃ child, m.AwaitsChild q child) →
      ∃ q, m.alive q = true ∧ m.AwaitsPermit q
  progress : (∀ q, m.alive q = true → ¬ m.AwaitsPermit q) →
    (∃ q m', m.step q = some m') ∨ ∀ q, m.alive q = true → m.Stillborn q
  /-- Nobody is left to wait for a process that nothing runs, and it is there for good. -/
  orphan : ∀ q, m.Stillborn q → ∀ p e, m.processes.kin? q = some (some p, e) → m.alive p = false
  lasting : ∀ q, m.Stillborn q → ∀ log m', m.Run log m' →
    m'.Stillborn q ∧ ∀ e ∈ log, e.pid ≠ q
  /-- Without a zero in any name everybody has something that runs it. -/
  speakable : Speakable m.registry → ∀ q, ¬ m.Stillborn q

theorem Stillborn.none_mem (hc : m.Census) (h : m.Stillborn q) : none ∈ m.tasks := by
  obtain ⟨hlive, hnone⟩ := h
  obtain ⟨parent, hk⟩ := (alive_iff_kin? m q).mp hlive
  obtain ⟨hlow, hhigh⟩ := ProcessTable.le_length_of_kin? hk
  obtain ⟨n, rfl⟩ : ∃ n : Nat, q = n + 1 := ⟨(q - 1).toNat, by omega⟩
  have hlt : n < m.tasks.length := by
    rw [hc.tasks]
    omega
  rw [task?_succ, List.getElem?_eq_getElem hlt, Option.join_some] at hnone
  exact List.mem_of_getElem hnone

theorem unlocked (hc : m.Census) (hf : Families log m) (hmanned : Manned log m)
    (hspoken : Speakable m.registry → none ∉ m.tasks) : m.Unlocked where
  waits q ha := by
    rw [step_eq_none_iff ha, waits_iff, or_assoc]
  permit := by
    rintro ⟨q, ha⟩ hall
    have ht : m.task? q ≠ none := by
      rcases hall q ha with ⟨-, t, -, -, -, ht, -⟩ | ⟨child, -, t, -, -, -, ht, -⟩
      · exact ht ▸ nofun
      · exact ht ▸ nofun
    rcases exists_awaitsPermit_or_step hf hmanned ha ht with hpermit | ⟨p, m', hstep⟩
    · exact hpermit
    · have hp := ((step_eq_some_iff m m' p).mp hstep).1
      have hstuck := (step_eq_none_iff hp).mpr (Or.inl (waits_iff.mpr (hall p hp)))
      cases hstep.symm.trans hstuck
  progress hnobody := by
    by_cases hrun : ∃ q, m.alive q = true ∧ m.task? q ≠ none
    · obtain ⟨q, ha, ht⟩ := hrun
      rcases exists_awaitsPermit_or_step hf hmanned ha ht with ⟨p, hp, hpermit⟩ | hstep
      · exact absurd hpermit (hnobody p hp)
      · exact Or.inl hstep
    · exact Or.inr fun q ha => ⟨ha, of_not_not fun ht => hrun ⟨q, ha, ht⟩⟩
  orphan q hq p e hk := by
    rw [← Bool.not_eq_true]
    intro hp
    exact hmanned p q (hf.child p q e hk hp) hq.2
  lasting q hq log' m' hr := hr.stillborn hc hq
  speakable hnames q hq := hspoken hnames (hq.none_mem hc)

section Boot

variable (m : Machine) (program : String) (args : List String)

theorem boot_registry : (m.boot program args).1.registry = m.registry := by
  obtain ⟨booted, referee, -, hb | ⟨r, hl⟩⟩ := boot_launched m program args
  · rw [hb]
  · generalize (m.boot program args).1 = m' at hl
    cases hl <;> rfl

theorem none_notMem_boot (hnames : Speakable m.registry) (hm : none ∉ m.tasks) :
    none ∉ (m.boot program args).1.tasks := by
  rw [boot]
  split
  · exact hm
  · dsimp only
    split
    · exact hm
    · exact hm
    · rename_i referee _
      have hlaunch := none_notMem_launch (m := { m with booted := true, referee }) none program
        args hnames hm
      split
      all_goals
        rename_i hl
        rw [hl] at hlaunch
        exact hlaunch

end Boot

/-- In every run everybody that waits in joins waits, in the end, for somebody in a P or for
somebody that can go on, except where a name has a zero in it. -/
theorem joins_never_deadlock {plan : Plan} (hp : plan.Drawn) (program : String)
    (args : List String) (h : (plan.build.boot program args).1.Run log m) :
    m.Unlocked ∧ (Speakable plan.registry → (∀ q, m.alive q = true → ¬ m.AwaitsPermit q) →
      (∃ q m', m.step q = some m') ∨ ∀ q, m.alive q = false) := by
  have hcensus := hp.fresh.census_boot program args
  have hregistry : m.registry = plan.registry :=
    h.registry.trans (boot_registry plan.build program args)
  have hspoken : Speakable plan.registry → none ∉ m.tasks := by
    intro hnames
    refine Run.none_notMem ?_ (none_notMem_boot plan.build program args hnames List.not_mem_nil) h
    rw [boot_registry]
    exact hnames
  have hunlocked : m.Unlocked :=
    unlocked (hcensus.run h) ((families_boot (m := plan.build) rfl program args).run h)
      (.run hcensus h) (hregistry ▸ hspoken)
  refine ⟨hunlocked, fun hnames hnobody => ?_⟩
  rcases hunlocked.progress hnobody with hstep | hstill
  · exact Or.inl hstep
  · right
    intro q
    rw [← Bool.not_eq_true]
    exact fun hq => hunlocked.speakable (hregistry ▸ hnames) q (hstill q hq)

/-- A parent that joins its child, which is in a P. -/
def standstill : Plan := Plan.empty.register "p" fun _ args =>
  if args = [] then
    .call (.exec "p" ["child"]) fun _ => .call (.join 2 0) fun _ => .done ()
  else .call (.ask Request.p.code 3 0) fun _ => .done ()

theorem standstill_run : ∃ m, (standstill.build.boot "p" []).1.Run
    [⟨1, .answered (.exec "p" ["child"]) (2 : Word)⟩] m ∧ m.processes.slots.length = 2 ∧
      m.alive 1 = true ∧ m.AwaitsChild 1 2 ∧ m.AwaitsPermit 2 := by
  refine exists_run_cons_and rfl (.answered rfl rfl rfl rfl) ⟨_, .start, rfl, rfl, ?_, ?_⟩
  · exact ⟨rfl, _, _, _, _, rfl, rfl, rfl, rfl⟩
  · exact ⟨rfl, _, _, _, _, rfl, rfl, rfl⟩

theorem mumble_run : ∃ m, (mumble.build.boot "p" []).1.Run [⟨1, .ended .exception⟩] m ∧
    m.processes.slots.length = 2 ∧ m.alive 1 = false ∧ m.Stillborn 2 :=
  exists_run_cons_and rfl (.faulted rfl rfl rfl rfl) ⟨_, .start, rfl, rfl, rfl, rfl⟩

theorem eq_of_alive_of_length_two (hlength : m.processes.slots.length = 2) (ha : m.alive q = true) :
    q = 1 ∨ q = 2 := by
  obtain ⟨parent, hk⟩ := (alive_iff_kin? m q).mp ha
  have hle := ProcessTable.le_length_of_kin? hk
  omega

theorem joins_never_deadlock_standstill :
    (∃ m, (standstill.build.boot "p" []).1.Run [⟨1, .answered (.exec "p" ["child"]) (2 : Word)⟩] m ∧
      m.AwaitsChild 1 2 ∧ ∃ q, m.alive q = true ∧ m.AwaitsPermit q) ∧
    ∃ m, (mumble.build.boot "p" []).1.Run [⟨1, .ended .exception⟩] m ∧ m.Stillborn 2 ∧
      (∀ q, m.alive q = true → m.step q = none) ∧ ∀ q, m.alive q = true → ¬ m.AwaitsPermit q := by
  constructor
  · have hdrawn : standstill.Drawn := .register "p" _ .empty
    obtain ⟨m, hr, hlength, halive, hchild, hpermit⟩ := standstill_run
    obtain ⟨hunlocked, -⟩ := joins_never_deadlock hdrawn "p" [] hr
    refine ⟨m, hr, hchild, hunlocked.permit ⟨1, halive⟩ fun q ha => ?_⟩
    rcases eq_of_alive_of_length_two hlength ha with rfl | rfl
    · exact Or.inr ⟨2, hchild⟩
    · exact Or.inl hpermit
  · have hdrawn : mumble.Drawn := .register "x\x00" _ (.register "p" _ .empty)
    obtain ⟨m, hr, hlength, hdead, hstill⟩ := mumble_run
    obtain ⟨hunlocked, -⟩ := joins_never_deadlock hdrawn "p" [] hr
    have hsecond : ∀ q, m.alive q = true → q = 2 := by
      intro q ha
      refine (eq_of_alive_of_length_two hlength ha).resolve_left ?_
      rintro rfl
      cases ha.symm.trans hdead
    refine ⟨m, hr, hstill, fun q ha => ?_, fun q ha => ?_⟩
    · obtain rfl := hsecond q ha
      exact (hunlocked.waits 2 ha).mpr (Or.inr (Or.inr hstill))
    · obtain rfl := hsecond q ha
      rintro ⟨-, t, -, -, -, ht, -⟩
      cases ht.symm.trans hstill.2

end Machine

end KernelExam

import KernelExam.Proofs.Machine.Isolation
import KernelExam.Proofs.Machine.Joining
import KernelExam.Proofs.Machine.Examination

/-!
# The life of a process

Numbers are handed out one after the other, to children of processes that had theirs
before. A process is in the table from its start on; its end is written down once, takes
its descriptors away, and is there to be joined. After that its place stays empty.
-/

set_option autoImplicit false

namespace KernelExam.Machine

variable {m m' : Machine} {pid q : Int} {c : Call} {what : Happening} {log : List Event}

def entered (m m' : Machine) : List (Pid × Option Pid) :=
  (m'.processes.entries.filter fun (q, _) => (m.processes.get? q).isNone).map
    fun (q, p) => (q, p.parent)

/-- The processes that a step enters. -/
def births (m : Machine) (e : Event) : List (Pid × Option Pid) :=
  match m.step e.pid with
  | some m' => m.entered m'
  | none => []

theorem mem_entered (parent : Option Pid) : (q, parent) ∈ m.entered m' ↔
    m.processes.get? q = none ∧ ∃ p, m'.processes.get? q = some p ∧ p.parent = parent := by
  rw [entered, List.mem_map]
  constructor
  · rintro ⟨⟨q, p⟩, hmem, he⟩
    obtain ⟨hentry, hnew⟩ := List.mem_filter.mp hmem
    obtain ⟨rfl, rfl⟩ := Prod.mk.inj he
    exact ⟨Option.isNone_iff_eq_none.mp hnew, p, (mem_entries _ p).mp hentry, rfl⟩
  · rintro ⟨hnew, p, hp, rfl⟩
    exact ⟨(q, p), List.mem_filter.mpr ⟨(mem_entries _ p).mpr hp, by simpa using hnew⟩, rfl⟩

theorem pairwise_entered (m m' : Machine) :
    (m.entered m').Pairwise fun a b => a.1 < b.1 := by
  rw [entered, List.pairwise_map]
  exact (pairwise_entries m'.processes).filter _

theorem entered_eq_nil (h : ∀ q p, m'.processes.get? q = some p → m.processes.get? q ≠ none) :
    m.entered m' = [] := by
  rw [List.eq_nil_iff_forall_not_mem]
  rintro ⟨q, parent⟩ hmem
  obtain ⟨hnone, p, hp, -⟩ := (mem_entered parent).mp hmem
  exact h q p hp hnone

theorem entered_eq_singleton {p : ProcessState} (hp : m'.processes.get? q = some p)
    (hq : m.processes.get? q = none)
    (h : ∀ r p, m'.processes.get? r = some p → r ≠ q → m.processes.get? r ≠ none) :
    m.entered m' = [(q, p.parent)] := by
  have : Std.Irrefl fun a b : Pid × Option Pid => a.1 < b.1 := ⟨fun a => Int.lt_irrefl a.1⟩
  have : Std.Antisymm fun a b : Pid × Option Pid => a.1 < b.1 :=
    ⟨fun a b hab hba => absurd hba (Int.lt_asymm hab)⟩
  have hone : [(q, p.parent)].Pairwise fun a b : Pid × Option Pid => a.1 < b.1 :=
    List.pairwise_singleton ..
  refine (pairwise_entered m m').eq_of_mem_iff hone ?_
  rintro ⟨r, parent⟩
  rw [mem_entered, List.mem_singleton, Prod.mk.injEq]
  constructor
  · rintro ⟨hnone, p', hp', rfl⟩
    obtain rfl : r = q := by_contra fun hne => h r p' hp' hne hnone
    exact ⟨rfl, congrArg _ (Option.some.inj (hp'.symm.trans hp))⟩
  · rintro ⟨rfl, rfl⟩
    exact ⟨hq, p, hp, rfl⟩

section Step

theorem births_eq (ha : m.alive pid = true) (h : m.Takes pid what m') :
    m.births ⟨pid, what⟩ = m.entered m' := by
  have hstep : m.step pid = some m' := (step_eq_some_iff m m' pid).mpr ⟨ha, _, h⟩
  simp only [births, hstep]

/-- What a step does to the numbers that have been handed out: it hands out the next, to a child
of the process that takes it, or none. -/
inductive Hands (m : Machine) (pid : Pid) (m' : Machine) : Prop
  | none : m.entered m' = [] → m'.processes.slots.length = m.processes.slots.length →
      Hands m pid m'
  | next {child : Int} : child = m.processes.slots.length + 1 →
      m.entered m' = [(child, some pid)] →
      m'.processes.slots.length = m.processes.slots.length + 1 → Hands m pid m'

theorem hands_admits {child : Int} (h : m.processes.Admits pid child m'.processes)
    (hpid : m.processes.get? pid ≠ none) : m.Hands pid m' := by
  obtain ⟨p, -, hentered⟩ := h.entered
  refine .next h.number (entered_eq_singleton hentered h.fresh fun r p hr hne => ?_) h.length
  by_cases hr' : r = pid
  · exact hr' ▸ hpid
  · rw [← h.others r hr' hne, hr]
    nofun

theorem Isolated.hands (h : m.Isolated pid what m') : m.Hands pid m' := by
  obtain ⟨hspread, p, p', hp, hp', htouches⟩ := h
  have hpid : m.processes.get? pid ≠ none := hp ▸ nofun
  cases hspread with
  | within _ _ hw =>
    refine .none (entered_eq_nil fun r p hr => ?_) hw.length
    by_cases hr' : r = pid
    · exact hr' ▸ hpid
    · rw [← hw.others r hr', hr]
      nofun
  | started hin => exact hands_admits hin hpid
  | abandoned _ _ hin => exact hands_admits hin hpid
  | @joined child _ _ _ _ hout =>
    refine .none (entered_eq_nil fun r p hr => ?_) hout.length
    by_cases hr' : r = child.toInt
    · rw [hr', hout.gone] at hr
      cases hr
    · rw [← hout.others r hr', hr]
      nofun

theorem Isolated.length_le (h : m.Isolated pid what m') :
    m.processes.slots.length ≤ m'.processes.slots.length := by
  cases h.hands with
  | none _ hlength => exact hlength.ge
  | next _ _ hlength => omega

end Step

theorem kept_of_touches {p p' : ProcessState} {a : c.Answer} (h : c.Touches p p' a) :
    p'.parent = p.parent ∧ p'.termination = p.termination := by
  have hgrants : ∀ {fd : Word}, p.Grants fd p' → p'.parent = p.parent ∧
      p'.termination = p.termination := by
    rintro fd (⟨-, rfl⟩ | ⟨-, -, o, ds, rfl, -⟩) <;> exact ⟨rfl, rfl⟩
  have hseeks : ∀ {fd : Word}, p.Seeks fd p' → p'.parent = p.parent ∧
      p'.termination = p.termination := by
    rintro fd (rfl | ⟨d, n, ds, -, rfl, -⟩) <;> exact ⟨rfl, rfl⟩
  cases c with
  | create | openFile => exact hgrants h
  | read | write => exact hseeks h
  | close fd => rcases h with ⟨-, rfl⟩ | ⟨-, -, ds, rfl, -⟩ <;> exact ⟨rfl, rfl⟩
  | chdir path =>
    obtain ⟨cwd, rfl⟩ := h
    exact ⟨rfl, rfl⟩
  | _ =>
    obtain rfl : p' = p := h
    exact ⟨rfl, rfl⟩

theorem parent_of_touches {p p' : ProcessState} (h : what.Touches p p') : p'.parent = p.parent := by
  cases what with
  | noted _ => exact congrArg ProcessState.parent h
  | ended how =>
    obtain rfl : p' = { p with termination := some how, descriptors := .closed } := h
    rfl
  | answered c a => exact (kept_of_touches h).1

theorem closed_of_touches {p p' : ProcessState} (h : what.Touches p p')
    (hlive : p.termination = none) : p'.termination = none ∨ p'.descriptors = .closed := by
  cases what with
  | noted _ => exact Or.inl ((congrArg ProcessState.termination h).trans hlive)
  | ended how =>
    obtain rfl : p' = { p with termination := some how, descriptors := .closed } := h
    exact Or.inr rfl
  | answered c a => exact Or.inl ((kept_of_touches h).2.trans hlive)

theorem Isolated.entry {p : ProcessState} (h : m.Isolated pid what m')
    (hp : m'.processes.get? q = some p) :
    (∃ p₀, m.processes.get? q = some p₀ ∧ p.parent = p₀.parent) ∨ (q, p.parent) ∈ m.entered m' := by
  obtain ⟨hspread, p₁, p₁', hp₁, hp₁', htouches⟩ := h
  cases hold : m.processes.get? q with
  | none => exact Or.inr ((mem_entered _).mpr ⟨hold, p, hp, rfl⟩)
  | some p₀ =>
    refine Or.inl ⟨p₀, rfl, ?_⟩
    by_cases hq : q = pid
    · subst hq
      obtain rfl := Option.some.inj (hp₁'.symm.trans hp)
      obtain rfl := Option.some.inj (hp₁.symm.trans hold)
      exact parent_of_touches htouches
    · rcases hspread.entry hq hp with hsame | ⟨hnew, -⟩
      · obtain rfl := Option.some.inj (hold.symm.trans hsame)
        rfl
      · have hle := (ProcessTable.le_length_of_get? hold).2
        omega

/-- The numbers handed out so far. -/
structure Numbered (born : List (Pid × Option Pid)) (m : Machine) : Prop where
  numbers : born.map Prod.fst = (List.range m.processes.slots.length).map fun n => Int.ofNat (n + 1)
  parents : ∀ (q : Int) parent, (q, parent) ∈ born →
    q = 1 ∧ parent = none ∨ ∃ p : Int, parent = some p ∧ 1 ≤ p ∧ p < q
  recorded : ∀ q p, m.processes.get? q = some p → (q, p.parent) ∈ born

theorem Numbered.mem_iff {born : List (Pid × Option Pid)} (h : Numbered born m) :
    (∃ parent, (q, parent) ∈ born) ↔ 1 ≤ q ∧ q ≤ m.processes.slots.length := by
  have hmem : (∃ parent, (q, parent) ∈ born) ↔ q ∈ born.map Prod.fst := by simp
  rw [hmem, h.numbers, List.mem_map]
  constructor
  · rintro ⟨n, hn, rfl⟩
    have hlt := List.mem_range.mp hn
    exact ⟨Int.ofNat_le.mpr (Nat.succ_pos n), Int.ofNat_le.mpr hlt⟩
  · rintro ⟨hlow, hhigh⟩
    refine ⟨(q - 1).toNat, List.mem_range.mpr (by omega), ?_⟩
    show ((((q - 1).toNat + 1 : Nat)) : Int) = q
    omega

theorem Numbered.takes {born : List (Pid × Option Pid)} (h : Numbered born m) (hm : m.Fitting)
    (ha : m.alive pid = true) (ht : m.Takes pid what m') :
    Numbered (born ++ m.births ⟨pid, what⟩) m' := by
  have hisolated := ht.isolated hm ha
  rw [births_eq ha ht]
  have hrecorded : ∀ q p, m'.processes.get? q = some p → (q, p.parent) ∈ born ++ m.entered m' := by
    intro q p hp
    rw [List.mem_append]
    rcases hisolated.entry hp with ⟨p₀, hp₀, hparent⟩ | hnew
    · exact Or.inl (hparent ▸ h.recorded q p₀ hp₀)
    · exact Or.inr hnew
  cases hisolated.hands with
  | none hnil hlength =>
    refine ⟨?_, ?_, hrecorded⟩
    · rw [hnil, List.append_nil, h.numbers, hlength]
    · rw [hnil, List.append_nil]
      exact h.parents
  | @next child hchild hone hlength =>
    obtain ⟨p, hp, -⟩ := (alive_iff m pid).mp ha
    have hpid := ProcessTable.le_length_of_get? hp
    refine ⟨?_, ?_, hrecorded⟩
    · rw [hone, List.map_append, h.numbers, hlength, List.range_succ, List.map_append, hchild]
      rfl
    · intro q parent hmem
      rw [hone, List.mem_append, List.mem_singleton, Prod.mk.injEq] at hmem
      rcases hmem with hmem | ⟨rfl, rfl⟩
      · exact h.parents q parent hmem
      · exact Or.inr ⟨pid, rfl, hpid.1, by omega⟩

theorem numbered_empty (hm : m.processes = .empty) (hsame : m'.processes = m.processes) :
    Numbered (m.entered m') m' := by
  have hnone : ∀ q, m'.processes.get? q = none := fun q => hsame ▸ get?_empty hm q
  have hnil : m.entered m' = [] := entered_eq_nil fun q p hp => by
    rw [hnone] at hp
    cases hp
  rw [hnil]
  refine ⟨?_, nofun, fun q p hp => ?_⟩
  · rw [hsame, hm]
    rfl
  · cases (hnone q).symm.trans hp

theorem numbered_spawn (hm : m.processes = .empty) {cwd : String} {processes : ProcessTable}
    {child : Int} (hs : m.processes.spawn none cwd = .ok (processes, child))
    (hm' : m'.processes = processes) : Numbered (m.entered m') m' := by
  obtain ⟨hchild, -, hslots⟩ := ProcessTable.spawn_ok hs
  rw [hm] at hchild hslots
  obtain rfl : child = 1 := hchild
  have hself : m'.processes.get? 1 = some ⟨none, cwd, .stdio, none⟩ := by
    rw [hm', ProcessTable.get?_spawn hs, if_pos rfl]
  have hother : ∀ q p, m'.processes.get? q = some p → q = 1 := by
    intro q p hp
    by_contra hq
    rw [hm', ProcessTable.get?_spawn hs, if_neg hq, get?_empty hm] at hp
    cases hp
  have hone : m.entered m' = [(1, none)] :=
    entered_eq_singleton hself (get?_empty hm 1) fun r p hp hr => absurd (hother r p hp) hr
  rw [hone]
  refine ⟨?_, ?_, ?_⟩
  · rw [hm', hslots]
    rfl
  · intro q parent hmem
    exact Or.inl (Prod.mk.inj (List.mem_singleton.mp hmem))
  · intro q p hp
    obtain rfl := hother q p hp
    obtain rfl := Option.some.inj (hself.symm.trans hp)
    exact List.mem_singleton_self _

theorem numbered_boot (hm : m.processes = .empty) (program : String) (args : List String) :
    Numbered (m.entered (m.boot program args).1) (m.boot program args).1 := by
  obtain ⟨booted, referee, -, hb | ⟨r, hl⟩⟩ := boot_launched m program args
  · rw [hb]
    exact numbered_empty hm rfl
  · generalize (m.boot program args).1 = m' at hl
    cases hl with
    | unknown | crowded => exact numbered_empty hm rfl
    | started _ hs _ => exact numbered_spawn hm hs rfl

theorem Numbered.chronicle {first account : List (Pid × Option Pid)} {start : Machine}
    (hstart : start.Fitting) (h : Numbered first start)
    (hc : Chronicle births start log account m) : Numbered (first ++ account) m := by
  induction hc with
  | start =>
    rw [List.append_nil]
    exact h
  | step hc ha ht ih =>
    rw [← List.append_assoc]
    exact ih.takes (fitting_invariant.run hstart hc.run) ha ht
  | halt _ ih => exact ⟨ih.numbers, ih.parents, ih.recorded⟩

/-- A process whose time is over: it has ended, and may have been joined. -/
def Over (m : Machine) (q : Int) : Prop :=
  q ≤ (m.processes.slots.length : Int) ∧ ∀ p, m.processes.get? q = some p → p.termination ≠ none

theorem Over.takes (h : m.Over q) (ha : m.alive pid = true) (hi : m.Isolated pid what m') :
    pid ≠ q ∧ m'.Over q ∧
      (m'.processes.get? q = m.processes.get? q ∨ m'.processes.get? q = none) := by
  obtain ⟨hle, hended⟩ := h
  obtain ⟨p₀, hp₀, hlive⟩ := (alive_iff m pid).mp ha
  have hne : q ≠ pid := by
    rintro rfl
    exact hended p₀ hp₀ hlive
  have hlength := hi.length_le
  have hentry : m'.processes.get? q = m.processes.get? q ∨ m'.processes.get? q = none := by
    cases hold : m.processes.get? q with
    | some p =>
      rcases hi.others.kept hne hold with hsame | ⟨hnone, -⟩
      · exact Or.inl hsame
      · exact Or.inr hnone
    | none =>
      right
      by_contra hsome
      obtain ⟨p, hp⟩ := Option.ne_none_iff_exists'.mp hsome
      rcases hi.others.entry hne hp with hsame | ⟨hnew, -⟩
      · cases hold.symm.trans hsame
      · omega
  refine ⟨hne.symm, ⟨by omega, fun p hp => ?_⟩, hentry⟩
  rcases hentry with hsame | hnone
  · exact hended p (hsame ▸ hp)
  · cases hnone.symm.trans hp

theorem Over.run (h : m.Over q) (hm : m.Fitting) (hr : m.Run log m') :
    (∀ e ∈ log, e.pid ≠ q) ∧ m'.Over q ∧
      (m'.processes.get? q = m.processes.get? q ∨ m'.processes.get? q = none) := by
  induction hr with
  | start => exact ⟨fun e he => absurd he List.not_mem_nil, h, Or.inl rfl⟩
  | step hr ha ht ih =>
    obtain ⟨hlog, hover, hentry⟩ := ih
    obtain ⟨hne, hover', hentry'⟩ := hover.takes ha (ht.isolated (fitting_invariant.run hm hr) ha)
    refine ⟨fun e he => ?_, hover', ?_⟩
    · rcases List.mem_append.mp he with he | he
      · exact hlog e he
      · obtain rfl := List.mem_singleton.mp he
        exact hne
    · rcases hentry' with hsame | hnone
      · rw [hsame]
        exact hentry
      · exact Or.inr hnone
  | halt _ ih => exact ih

def Stripped (m : Machine) : Prop :=
  ∀ q p, m.processes.get? q = some p → p.termination = none ∨ p.descriptors = .closed

theorem Stripped.takes (h : m.Stripped) (ha : m.alive pid = true) (hi : m.Isolated pid what m') :
    m'.Stripped := by
  intro q p hp
  obtain ⟨p₀, hp₀, hlive⟩ := (alive_iff m pid).mp ha
  by_cases hq : q = pid
  · obtain ⟨p₁, p', hp₁, hp', htouches⟩ := hi.own
    obtain rfl := Option.some.inj (hp₀.symm.trans hp₁)
    obtain rfl := Option.some.inj (hp'.symm.trans (hq ▸ hp))
    exact closed_of_touches htouches hlive
  · rcases hi.others.entry hq hp with hold | ⟨-, -, hnone⟩
    · exact h q p hold
    · exact Or.inl hnone

theorem Stripped.run {start : Machine} (h : start.Stripped) (hm : start.Fitting)
    (hr : start.Run log m) : m.Stripped := by
  induction hr with
  | start => exact h
  | step hr ha ht ih => exact ih.takes ha (ht.isolated (fitting_invariant.run hm hr) ha)
  | halt _ ih => exact ih

theorem stripped_boot (hm : m.processes = .empty) (program : String) (args : List String) :
    (m.boot program args).1.Stripped := by
  have hnone := get?_empty hm
  obtain ⟨booted, referee, -, hb | ⟨r, hl⟩⟩ := boot_launched m program args
  · rw [hb]
    intro q p hp
    cases (hnone q).symm.trans hp
  · generalize (m.boot program args).1 = m' at hl
    cases hl with
    | unknown | crowded =>
      intro q p hp
      cases (hnone q).symm.trans hp
    | started _ hs _ =>
      intro q p hp
      dsimp only at hp
      rw [ProcessTable.get?_spawn hs] at hp
      split at hp
      · obtain rfl := Option.some.inj hp
        exact Or.inl rfl
      · cases (hnone q).symm.trans hp

theorem Takes.kin?_of_starts {p : Int} (h : m.Takes pid what m')
    (he : Event.Starts ⟨pid, what⟩ p q) : m'.processes.kin? q = some (some p, none) := by
  cases h with
  | @answered t c next served a _ _ _ hs =>
    cases c with
    | exec path args =>
      obtain ⟨rfl, hne, rfl⟩ := he
      rw [(sameKin_setTask ..).kin]
      generalize hr : (Reaction.answer a : Reaction Word) = r at hs
      cases changes hs with
      | nothing _ hexec _ => exact absurd (hexec path args rfl a hr.symm) hne
      | started hin _ =>
        obtain rfl := Reaction.answer.inj hr
        rw [hin.toInt_ofInt, hin.kin, if_pos rfl]
      | abandoned _ _ => cases hr
    | _ => exact absurd he.2 id
  | _ => exact absurd he.2 id

theorem Numbered.started {first account : List (Pid × Option Pid)} {start : Machine}
    (hstart : start.Fitting) (h : Numbered first start)
    (hc : Chronicle births start log account m) {p : Int} (hs : Started log p q) :
    (q, some p) ∈ first ++ account := by
  induction hc with
  | start =>
    obtain ⟨e, he, -⟩ := hs
    cases he
  | @step log account m m' pid what hc ha ht ih =>
    rcases (started_concat ..).mp hs with hs | he
    · rw [← List.append_assoc]
      exact List.mem_append_left _ (ih hs)
    · obtain ⟨p', hp', hparent, -⟩ := (ProcessTable.kin?_eq_some_iff ..).mp (ht.kin?_of_starts he)
      rw [← hparent]
      exact (h.chronicle hstart (.step hc ha ht)).recorded q p' hp'
  | halt _ ih => exact ih hs

/-- What holds of all processes at any time. `born` are the processes entered so far, each with
its parent, in the order in which they were entered. -/
structure Lifecycle (start : Machine) (born : List (Pid × Option Pid)) (log : List Event)
    (m : Machine) : Prop where
  numbers : born.map Prod.fst = (List.range born.length).map fun n => Int.ofNat (n + 1)
  parents : ∀ (q : Int) parent, (q, parent) ∈ born →
    q = 1 ∧ parent = none ∨ ∃ p : Int, parent = some p ∧ 1 ≤ p ∧ p < q
  recorded : ∀ q p, m.processes.get? q = some p → (q, p.parent) ∈ born
  started : ∀ p q, Started log p q → (q, some p) ∈ born
  running : ∀ q parent, (q, parent) ∈ born → (∀ how, ¬ Ended log q how) →
    ∃ p, m.processes.get? q = some p ∧ p.termination = none ∧
      p.descriptors.slots.countP Option.isSome ≤ 16
  ended : ∀ q p how, m.processes.get? q = some p → p.termination = some how →
    Ended log q how ∧ ∀ fd, p.descriptors.get? fd = none
  /-- Who has ended takes no step more, and its entry stays as it is until it is joined. -/
  final : ∀ q how, Ended log q how → ∀ log' m', m.Run log' m' → (∀ e ∈ log', e.pid ≠ q) ∧
    (m'.processes.get? q = m.processes.get? q ∨ m'.processes.get? q = none)
  halted : ∀ before q after, log = before ++ ⟨q, .ended .halted⟩ :: after →
    ∃ b, start.Run before b ∧ b.referee.halted = true
  stopped : ∀ q p, m.processes.get? q = some p → p.termination = some .halted →
    m.referee.halted = true

theorem get?_closed (fd : Word) : DescriptorTable.closed.get? fd = none := by
  rw [DescriptorTable.get?, Option.bind_eq_none_iff]
  intro n _
  rfl

theorem Endings.over (h : Endings log m) {how : Termination} (hd : Ended log q how) : m.Over q := by
  refine ⟨h.past q how hd, fun p hp hnone => ?_⟩
  have hk := (ProcessTable.kin?_eq_some_iff m.processes q p.parent none).mpr ⟨p, hp, rfl, hnone⟩
  cases (h.ended q p.parent none hk how).mpr hd

theorem Endings.present (h : Endings log m) (hlow : 1 ≤ q) (hhigh : q ≤ m.processes.slots.length)
    (hnot : ∀ how, ¬ Ended log q how) :
    ∃ p, m.processes.get? q = some p ∧ p.termination = none := by
  cases hp : m.processes.get? q with
  | none =>
    obtain ⟨how, hd⟩ := h.gone q hlow hhigh (by rw [ProcessTable.kin?, hp]; rfl)
    exact absurd hd (hnot how)
  | some p =>
    refine ⟨p, rfl, ?_⟩
    cases hend : p.termination with
    | none => rfl
    | some how =>
      have hk := (ProcessTable.kin?_eq_some_iff m.processes q p.parent _).mpr ⟨p, hp, rfl, hend⟩
      exact absurd ((h.ended q p.parent _ hk how).mp rfl) (hnot how)

theorem Takes.halted_of_ended (h : m.Takes pid (.ended .halted) m') : m.referee.halted = true := by
  cases h with
  | halted _ _ hh => exact hh

/-- In every run, and whatever the order of the steps. -/
theorem lifecycle {plan : Plan} (hp : plan.Drawn) (program : String) (args : List String)
    (h : (plan.build.boot program args).1.Run log m) :
    (∃ account, Chronicle births (plan.build.boot program args).1 log account m) ∧
    ∀ account, Chronicle births (plan.build.boot program args).1 log account m →
      Lifecycle (plan.build.boot program args).1
        (plan.build.entered (plan.build.boot program args).1 ++ account) log m := by
  refine ⟨h.exists_chronicle births, fun account hc => ?_⟩
  have hempty : plan.build.processes = .empty := rfl
  have hfitting : (plan.build.boot program args).1.Fitting :=
    fitting_invariant.reachable (.boot program args (.build hp))
  have hfits := fitting_invariant.run hfitting h
  have hfirst := numbered_boot hempty program args
  have hborn := hfirst.chronicle hfitting hc
  have hendings := (endings_boot hempty program args).run h
  have hstripped := (stripped_boot hempty program args).run hfitting h
  have hkin : ∀ {q p how}, m.processes.get? q = some p → p.termination = some how →
      Ended log q how := by
    intro q p how hget hend
    have hk := (ProcessTable.kin?_eq_some_iff m.processes q p.parent _).mpr ⟨p, hget, rfl, hend⟩
    exact (hendings.ended q p.parent _ hk how).mp rfl
  constructor
  · have hlength := congrArg List.length hborn.numbers
    rw [List.length_map, List.length_map, List.length_range] at hlength
    rw [hborn.numbers, hlength]
  · exact hborn.parents
  · exact hborn.recorded
  · exact fun p q hs => hfirst.started hfitting hc hs
  · intro q parent hmem hnot
    obtain ⟨hlow, hhigh⟩ := hborn.mem_iff.mp ⟨parent, hmem⟩
    obtain ⟨p, hget, hlive⟩ := hendings.present hlow hhigh hnot
    exact ⟨p, hget, hlive, Nat.le_trans List.countP_le_length (hfits q p hget)⟩
  · intro q p how hget hend
    refine ⟨hkin hget hend, fun fd => ?_⟩
    rcases hstripped q p hget with hnone | hclosed
    · cases hend.symm.trans hnone
    · rw [hclosed, get?_closed]
  · intro q how hd log' m' hr
    obtain ⟨hsilent, -, hentry⟩ := (hendings.over hd).run hfits hr
    exact ⟨hsilent, hentry⟩
  · intro before q after hlog
    obtain ⟨b, b', hbefore, -, ht, -⟩ := h.split hlog
    exact ⟨b, hbefore, ht.halted_of_ended⟩
  · exact fun q p hget hend => (hendings.stopped q (hkin hget hend)).1

def dynasty : Plan := Plan.empty.register "p" fun _ args =>
  if args = [] then
    .call (.exec "p" ["child"]) fun _ => .call (.join 2 0) fun _ => .call (.exec "p" ["child"]) fun _ =>
      .call (.join 3 0) fun _ => .done ()
  else .exit 7

def dynastyLog : List Event :=
  [⟨1, .answered (.exec "p" ["child"]) (2 : Word)⟩, ⟨2, .ended (.exited 7)⟩,
    ⟨1, .answered (.join 2 0) ((1 : Word), (7 : Word))⟩,
    ⟨1, .answered (.exec "p" ["child"]) (3 : Word)⟩]

theorem dynasty_chronicle : ∃ account m,
    Chronicle births (dynasty.build.boot "p" []).1 dynastyLog account m ∧
      account = [(2, some 1), (3, some 1)] ∧ m.processes.get? 2 = none := by
  refine ⟨_, _, .step (.step (.step (.step .start rfl (.answered rfl rfl rfl rfl)) rfl
    (.exit rfl rfl)) rfl (.answered rfl rfl rfl rfl)) rfl (.answered rfl rfl rfl rfl), ?_, ?_⟩
  · rfl
  · rfl

theorem lifecycle_dynasty : ∃ m, (dynasty.build.boot "p" []).1.Run dynastyLog m ∧
    Lifecycle (dynasty.build.boot "p" []).1 [(1, none), (2, some 1), (3, some 1)] dynastyLog m ∧
      m.processes.get? 2 = none := by
  have hdrawn : dynasty.Drawn := .register "p" _ .empty
  obtain ⟨account, m, hc, rfl, hgone⟩ := dynasty_chronicle
  obtain ⟨-, hall⟩ := lifecycle hdrawn "p" [] hc.run
  exact ⟨m, hc.run, hall _ hc, hgone⟩

end KernelExam.Machine

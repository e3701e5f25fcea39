import KernelExam.Proofs.Machine.Endings

/-!
# Joins tell the truth

The log of a run says who started whom and whose end a join has collected. The process
table agrees with it at any time: a child is in the table under its parent from its
start until it is joined.
-/

set_option autoImplicit false

namespace KernelExam

namespace Event

def Starts (e : Event) (p q : Pid) : Prop :=
  e.pid = p ∧ match e.what with
    | .answered (.exec _ _) a => a ≠ -1 ∧ a.toInt = q
    | _ => False

def Joins (e : Event) (q : Pid) : Prop :=
  match e.what with
  | .answered (.join w _) a => w.toInt = q ∧ a.1 ≠ -1
  | _ => False

end Event

def Started (log : List Event) (p q : Pid) : Prop := ∃ e ∈ log, e.Starts p q

def Joined (log : List Event) (q : Pid) : Prop := ∃ e ∈ log, e.Joins q

theorem started_concat (log : List Event) (e : Event) (p q : Pid) :
    Started (log ++ [e]) p q ↔ Started log p q ∨ e.Starts p q := exists_mem_concat log e

theorem joined_concat (log : List Event) (e : Event) (q : Pid) :
    Joined (log ++ [e]) q ↔ Joined log q ∨ e.Joins q := exists_mem_concat log e

namespace Machine

/-- The process table agrees with the log on who is whose child. -/
structure Families (log : List Event) (m : Machine) : Prop where
  started : ∀ p q : Int, Started log p q → p < q ∧ q ≤ m.processes.slots.length
  parent : ∀ p p' q : Int, Started log p q → Started log p' q → p = p'
  present : ∀ p q : Int, Started log p q → ¬ Joined log q →
    ∃ e, m.processes.kin? q = some (some p, e)
  /-- A child without a start in the log belongs to a process that broke down over it. -/
  child : ∀ (p q : Int) e, m.processes.kin? q = some (some p, e) → m.alive p = true → Started log p q
  older : ∀ (p q : Int) e, m.processes.kin? q = some (some p, e) → p < q
  joined : ∀ q : Int, Joined log q → q ≤ m.processes.slots.length ∧ m.processes.kin? q = none

variable {log : List Event} {m m' : Machine}

theorem Families.concat (h : Families log m) {e : Event} (hs : ∀ p q, ¬ e.Starts p q)
    (hj : ∀ q, ¬ e.Joins q) : Families (log ++ [e]) m := by
  have hstarted : ∀ p q, Started (log ++ [e]) p q ↔ Started log p q :=
    fun p q => (started_concat ..).trans (or_iff_left (hs p q))
  have hjoined : ∀ q, Joined (log ++ [e]) q ↔ Joined log q :=
    fun q => (joined_concat ..).trans (or_iff_left (hj q))
  refine ⟨?_, ?_, ?_, ?_, h.older, ?_⟩
  all_goals simp only [hstarted, hjoined]
  · exact h.started
  · exact h.parent
  · exact h.present
  · exact h.child
  · exact h.joined

theorem Families.sameKin (h : Families log m) (hs : m.SameKin m') : Families log m' := by
  constructor
  · rw [hs.length]
    exact h.started
  · exact h.parent
  · intro p q
    rw [hs.kin]
    exact h.present p q
  · intro p q e
    rw [hs.kin, hs.alive]
    exact h.child p q e
  · intro p q e
    rw [hs.kin]
    exact h.older p q e
  · intro q
    rw [hs.kin, hs.length]
    exact h.joined q

theorem Families.enters {log' : List Event} {parent : Option Int} {child : Int}
    (announced : Prop) (h : Families log m) (he : m.Enters m' parent child)
    (hstarted : ∀ p q, Started log' p q ↔ Started log p q ∨
      announced ∧ parent = some p ∧ q = child)
    (hjoined : ∀ q, Joined log' q ↔ Joined log q)
    (hparent : ∀ p, parent = some p → p < child ∧ (announced ∨ m'.alive p = false)) :
    Families log' m' := by
  have hnumber : child = (m.processes.slots.length : Int) + 1 := he.number
  have hlength := he.length
  have hold : ∀ q : Int, q ≤ m.processes.slots.length →
      m'.processes.kin? q = m.processes.kin? q := by
    intro q hq
    rw [he.kin, if_neg (by omega)]
  have hchild : m'.processes.kin? child = some (parent, none) := by
    rw [he.kin, if_pos rfl]
  have hcases : ∀ (q : Int) grand e, m'.processes.kin? q = some (grand, e) →
      q = child ∧ grand = parent ∨ m.processes.kin? q = some (grand, e) := by
    intro q grand e hk
    by_cases hq : q = child
    · rw [hq, hchild] at hk
      exact Or.inl ⟨hq, (Prod.mk.inj (Option.some.inj hk)).1.symm⟩
    · rw [he.kin, if_neg hq] at hk
      exact Or.inr hk
  have hnew : ∀ p, ¬ Started log p child := by
    intro p hs
    have hle := (h.started p child hs).2
    omega
  constructor
  · intro p q hs
    rcases (hstarted p q).mp hs with hs | ⟨-, hp, rfl⟩
    · obtain ⟨hlt, hle⟩ := h.started p q hs
      exact ⟨hlt, by omega⟩
    · exact ⟨(hparent p hp).1, by omega⟩
  · intro p p' q hs hs'
    rcases (hstarted p q).mp hs with hs | ⟨-, hp, rfl⟩
    · rcases (hstarted p' q).mp hs' with hs' | ⟨-, -, rfl⟩
      · exact h.parent p p' q hs hs'
      · exact absurd hs (hnew p)
    · rcases (hstarted p' q).mp hs' with hs' | ⟨-, hp', -⟩
      · exact absurd hs' (hnew p')
      · exact Option.some.inj (hp.symm.trans hp')
  · intro p q hs hj
    rcases (hstarted p q).mp hs with hs | ⟨-, hp, rfl⟩
    · rw [hold q (h.started p q hs).2]
      exact h.present p q hs fun hj' => hj ((hjoined q).mpr hj')
    · exact ⟨none, by rw [hchild, hp]⟩
  · intro p q e hk ha
    rcases hcases q _ _ hk with ⟨rfl, hp⟩ | hk
    · rcases (hparent p hp.symm).2 with hsaid | hdead
      · exact (hstarted p q).mpr (Or.inr ⟨hsaid, hp.symm, rfl⟩)
      · rw [hdead] at ha
        cases ha
    · have hlt := h.older p q e hk
      have hle : q ≤ (m.processes.slots.length : Int) := (ProcessTable.le_length_of_kin? hk).2
      have hne : p ≠ child := by omega
      exact (hstarted p q).mpr (Or.inl (h.child p q e hk ((he.alive_iff.mp ha).resolve_left hne)))
  · intro p q e hk
    rcases hcases q _ _ hk with ⟨rfl, hp⟩ | hk
    · exact (hparent p hp.symm).1
    · exact h.older p q e hk
  · intro q hj
    obtain ⟨hle, hnone⟩ := h.joined q ((hjoined q).mp hj)
    rw [hold q hle]
    exact ⟨by omega, hnone⟩

theorem Families.finish {pid : Pid} (h : Families log m) (how : Termination)
    (ha : m.alive pid = true) : Families (log ++ [⟨pid, .ended how⟩]) (m.finish pid how) := by
  obtain ⟨parent, hp⟩ := (alive_iff_kin? m pid).mp ha
  have hkin : ∀ q, (m.finish pid how).processes.kin? q =
      if q = pid then some (parent, some how) else m.processes.kin? q :=
    fun q => ProcessTable.kin?_terminate q how hp
  have hlength : (m.finish pid how).processes.slots.length = m.processes.slots.length :=
    ProcessTable.length_terminate ..
  have hparent : ∀ q grand e, (m.finish pid how).processes.kin? q = some (grand, e) →
      ∃ e', m.processes.kin? q = some (grand, e') := by
    intro q grand e hk
    rw [hkin] at hk
    by_cases hq : q = pid
    · rw [if_pos hq] at hk
      rw [hq, hp, (Prod.mk.inj (Option.some.inj hk)).1]
      exact ⟨none, rfl⟩
    · rw [if_neg hq] at hk
      exact ⟨e, hk⟩
  have hquiet : ∀ q, ¬ Event.Joins ⟨pid, .ended how⟩ q := fun _ he => he
  apply Families.concat _ (fun _ _ he => he.2) hquiet
  constructor
  · rw [hlength]
    exact h.started
  · exact h.parent
  · intro p q hs hj
    obtain ⟨e, hk⟩ := h.present p q hs hj
    rw [hkin]
    by_cases hq : q = pid
    · rw [hq, hp] at hk
      rw [if_pos hq, (Prod.mk.inj (Option.some.inj hk)).1]
      exact ⟨_, rfl⟩
    · rw [if_neg hq]
      exact ⟨e, hk⟩
  · intro p q e hk hap
    obtain ⟨e', hk⟩ := hparent q _ e hk
    exact h.child p q e' hk ((alive_finish how ha).mp hap).2
  · intro p q e hk
    obtain ⟨e', hk⟩ := hparent q _ e hk
    exact h.older p q e' hk
  · intro q hj
    obtain ⟨hle, hnone⟩ := h.joined q hj
    have hq : q ≠ pid := by
      rintro rfl
      rw [hp] at hnone
      cases hnone
    rw [hkin, if_neg hq, hlength]
    exact ⟨hle, hnone⟩

theorem Families.joins {pid : Pid} {w status : Word} {how : Termination} (h : Families log m)
    (hw : m.processes.kin? w.toInt = some (some pid, some how)) :
    Families (log ++ [⟨pid, .answered (.join w status) how.joined⟩])
      { m with processes := m.processes.reap w.toInt } := by
  have hcases : ∀ q k, (m.processes.reap w.toInt).kin? q = some k →
      m.processes.kin? q = some k := by
    intro q k hk
    rw [ProcessTable.kin?_reap] at hk
    split at hk
    · cases hk
    · exact hk
  have hlength : (m.processes.reap w.toInt).slots.length = m.processes.slots.length :=
    ProcessTable.length_put ..
  have hstarted : ∀ p q, Started (log ++ [⟨pid, .answered (.join w status) how.joined⟩]) p q ↔
      Started log p q :=
    fun p q => (started_concat ..).trans (or_iff_left fun he => he.2)
  have hjoined : ∀ q, Joined (log ++ [⟨pid, .answered (.join w status) how.joined⟩]) q ↔
      Joined log q ∨ w.toInt = q :=
    fun q => (joined_concat ..).trans (or_congr Iff.rfl (and_iff_left how.joined_ne))
  constructor
  all_goals simp only [hstarted, hjoined]
  · rw [hlength]
    exact h.started
  · exact h.parent
  · intro p q hs hj
    rw [not_or] at hj
    obtain ⟨e, hk⟩ := h.present p q hs hj.1
    refine ⟨e, ?_⟩
    rw [ProcessTable.kin?_reap, if_neg (Ne.symm hj.2)]
    exact hk
  · intro p q e hk ha
    rw [alive_reap hw] at ha
    exact h.child p q e (hcases q _ hk) ha
  · intro p q e hk
    exact h.older p q e (hcases q _ hk)
  · rintro q (hj | rfl)
    · obtain ⟨hle, hnone⟩ := h.joined q hj
      rw [hlength, ProcessTable.kin?_reap, hnone, ite_self]
      exact ⟨hle, rfl⟩
    · rw [hlength, ProcessTable.kin?_reap, if_pos rfl]
      exact ⟨(ProcessTable.le_length_of_kin? hw).2, rfl⟩

theorem Enters.starts_iff {pid child : Int} (h : m.Enters m' (some pid) child) {path : String}
    {args : List String} (p q : Int) :
    Event.Starts ⟨pid, .answered (.exec path args) (Int32.ofInt child)⟩ p q ↔
      some pid = some p ∧ q = child := by
  have hchild := h.toInt_ofInt
  have hnumber : child = (m.processes.slots.length : Int) + 1 := h.number
  have hne : Int32.ofInt child ≠ -1 := by
    intro he
    rw [he] at hchild
    have hneg : (-1 : Int32).toInt = -1 := by decide
    omega
  constructor
  · rintro ⟨hp, -, hq⟩
    rw [hchild] at hq
    exact ⟨congrArg some hp, hq.symm⟩
  · rintro ⟨hp, rfl⟩
    exact ⟨Option.some.inj hp, hne, hchild⟩

/-- One step keeps the table and the log in agreement. -/
theorem Families.takes {pid : Pid} {what : Happening} (h : Families log m)
    (ha : m.alive pid = true) (ht : m.Takes pid what m') :
    Families (log ++ [⟨pid, what⟩]) m' := by
  cases ht with
  | done _ _ => exact h.finish _ ha
  | exit _ _ => exact h.finish _ ha
  | crash _ _ => exact h.finish _ ha
  | halted _ _ _ => exact h.finish _ ha
  | @noted t n next _ _ =>
    have hquiet : ∀ q, ¬ Event.Joins ⟨pid, .noted n⟩ q := fun _ he => he
    exact (h.concat (fun _ _ he => he.2) hquiet).sameKin (sameKin_setTask ..)
  | @answered t c next m₁ a _ _ _ hs =>
    refine Families.sameKin ?_ (sameKin_setTask ..)
    generalize hr : (Reaction.answer a : Reaction c.Answer) = r at hs
    cases changes hs with
    | nothing hkin hexec hjoin =>
      refine (h.concat ?_ ?_).sameKin hkin
      · rintro p q ⟨-, hstart⟩
        cases c with
        | exec path args => exact hstart.1 (hexec path args rfl a hr.symm)
        | _ => exact hstart
      · intro q hj
        cases c with
        | join w status =>
          rw [hjoin w status rfl a hr.symm] at hj
          exact hj.2 rfl
        | _ => exact hj
    | @started path args _ child hin _ =>
      obtain rfl := Reaction.answer.inj hr
      refine h.enters True hin ?_ ?_ ?_
      · intro p q
        rw [started_concat, hin.starts_iff, true_and]
      · exact fun q => (joined_concat ..).trans (or_iff_left fun he => he)
      · rintro p ⟨⟩
        exact ⟨hin.parent_lt ha, Or.inl trivial⟩
    | abandoned _ _ => cases hr
    | joined hk =>
      obtain rfl := Reaction.answer.inj hr
      exact h.joins hk
  | @faulted t c next m₁ f _ _ _ hs =>
    generalize hr : (Reaction.fault f : Reaction c.Answer) = r at hs
    cases changes hs with
    | nothing hkin _ _ =>
      apply (h.sameKin hkin).finish
      rw [hkin.alive, ha]
    | started _ _ => cases hr
    | joined _ => cases hr
    | @abandoned path args _ child f' hin _ =>
      have hdead : (m₁.finish pid .exception).alive pid = false := by
        rw [← Bool.not_eq_true, alive_finish _ (hin.alive_iff.mpr (Or.inr ha))]
        exact fun h => h.1 rfl
      refine (h.finish .exception ha).enters False (hin.finish ha) ?_ (fun _ => Iff.rfl) ?_
      · intro p q
        rw [false_and, or_false]
      · rintro p ⟨⟩
        exact ⟨hin.parent_lt ha, Or.inr hdead⟩

theorem Families.run {start : Machine} (h : Families [] start) (hr : start.Run log m) :
    Families log m := by
  induction hr with
  | start => exact h
  | step _ ha ht ih => exact ih.takes ha ht
  | halt _ ih => exact ih.sameKin ⟨fun _ => rfl, rfl, rfl, rfl⟩

structure Recorded (log : List Event) (m : Machine) : Prop where
  families : Families log m
  endings : Endings log m

theorem Recorded.run {start : Machine} (h : Recorded [] start) (hr : start.Run log m) :
    Recorded log m := ⟨h.families.run hr, h.endings.run hr⟩

theorem families_boot (hm : m.processes = .empty) (program : String) (args : List String) :
    Families [] (m.boot program args).1 := by
  have hnone : Families [] m := by
    have hkin := kin?_empty hm
    constructor <;> simp [hkin, Started, Joined]
  rcases m.boot_cases program args with ⟨hsame, -⟩ | ⟨child, slots, hin, -⟩
  · exact hnone.sameKin hsame
  · exact hnone.enters False hin (by simp) (fun _ => Iff.rfl) nofun

theorem recorded_boot (hm : m.processes = .empty) (program : String) (args : List String) :
    Recorded [] (m.boot program args).1 :=
  ⟨families_boot hm program args, endings_boot hm program args⟩

end Machine

/-- Process `q` is `p` itself, its parent, another child of its parent, a child of a
child, or nobody that was ever started. -/
inductive Stranger (log : List Event) (p : Pid) : Pid → Prop
  | self : Stranger log p p
  | parent {q : Pid} : Started log q p → Stranger log p q
  | sibling {r q : Pid} : Started log r p → Started log r q → Stranger log p q
  | grandchild {r q : Pid} : Started log p r → Started log r q → Stranger log p q
  | unknown {q : Pid} : (∀ r, ¬ Started log r q) → Stranger log p q

/-- What a join answers after that log. -/
structure Truthful (log : List Event) (p : Pid) (w status : Word) (a : Word × Word) : Prop where
  refused : a.1 = -1 → a.2 = status ∧ (¬ Started log p w.toInt ∨ Joined log w.toInt)
  child : a.1 ≠ -1 → Started log p w.toInt ∧ ¬ Joined log w.toInt
  ended : a.1 ≠ -1 → ∃ how, Ended log w.toInt how
  exited : a.1 ≠ -1 → ∀ s, a = (1, s) ↔ Ended log w.toInt (.exited s)
  died : a.1 ≠ -1 → (a = (0, -1) ↔ Ended log w.toInt .exception)

namespace Machine

inductive Closes (m : Machine) (pid : Pid) : Program Unit → Termination → Prop
  | returned : Closes m pid (.done ()) (.exited 0)
  | exited (s : Word) : Closes m pid (.exit s) (.exited s)
  | crashed : Closes m pid .crash .exception
  | faulted {c : Call} {next : c.Answer → Program Unit} {m' : Machine} {f : Fault} :
      m.referee.halted = false → m.serve pid c = (m', .fault f) →
      Closes m pid (.call c next) .exception
  | halted {c : Call} {next : c.Answer → Program Unit} : m.referee.halted = true →
      Closes m pid (.call c next) .halted

structure JoinStep (log : List Event) (m : Machine) (p : Pid) (t : Task) (w status : Word)
    (next : Word × Word → Program Unit) : Prop where
  halted : m.referee.halted = true → m.step p = some (m.finish p .halted)
  refused : m.referee.halted = false → ¬ Started log p w.toInt ∨ Joined log w.toInt →
    m.step p = some (m.setTask p { t with body := next (-1, status) })
  stranger : m.referee.halted = false → Stranger log p w.toInt →
    m.step p = some (m.setTask p { t with body := next (-1, status) })
  waits : m.referee.halted = false → Started log p w.toInt → ¬ Joined log w.toInt →
    (∀ how, ¬ Ended log w.toInt how) → m.step p = none
  collects : m.referee.halted = false → Started log p w.toInt → ¬ Joined log w.toInt →
    ∀ how, Ended log w.toInt how → how ≠ .halted ∧
      m.step p = some ({ m with processes := m.processes.reap w.toInt }.setTask p
        { t with body := next how.joined })

variable {log : List Event} {m m' : Machine} {p q : Pid}

theorem Families.not_started_of_stranger (h : Families log m) (hs : Stranger log p q) :
    ¬ Started log p q := by
  intro hpq
  have hself : ∀ r, ¬ Started log r r := fun r hr => absurd (h.started r r hr).1 (Int.lt_irrefl r)
  cases hs with
  | self => exact hself p hpq
  | parent hqp => exact Int.lt_asymm (h.started p q hpq).1 (h.started q p hqp).1
  | @sibling r _ hrp hrq =>
    obtain rfl := h.parent p r q hpq hrq
    exact hself p hrp
  | @grandchild r _ hpr hrq =>
    obtain rfl := h.parent p r q hpq hrq
    exact hself p hpr
  | unknown hnone => exact hnone p hpq

theorem Families.not_kin (h : Families log m) (ha : m.alive p = true)
    (hq : ¬ Started log p q ∨ Joined log q) (e : Option Termination) :
    m.processes.kin? q ≠ some (some p, e) := by
  intro hk
  rcases hq with hq | hq
  · exact hq (h.child p q e hk ha)
  · rw [(h.joined q hq).2] at hk
    cases hk

theorem step_join {t : Task} {w status : Word} {next : Word × Word → Program Unit}
    {r : Reaction (Word × Word)} (ha : m.alive p = true) (ht : m.task? p = some t)
    (hb : t.body = .call (.join w status) next) (hh : m.referee.halted = false)
    (hj : m.join p w status = (m', r)) :
    m.step p = match r with
      | .answer a => some (m'.setTask p { t with body := next a })
      | .blocked => none
      | .fault _ => some (m'.finish p .exception) := by
  rw [step_of_task ha ht, advance, hb]
  simp only [hh, Bool.false_eq_true, if_false, serve, hj]
  cases r <;> rfl

theorem Recorded.joinStep (h : Recorded log m) {t : Task} {w status : Word}
    {next : Word × Word → Program Unit} (ha : m.alive p = true) (ht : m.task? p = some t)
    (hb : t.body = .call (.join w status) next) : JoinStep log m p t w status next := by
  have hkin : Started log p w.toInt → ¬ Joined log w.toInt → ∃ e,
      m.processes.kin? w.toInt = some (some p, e) ∧ ∀ how, e = some how ↔ Ended log w.toInt how := by
    intro hs hj
    obtain ⟨e, he⟩ := h.families.present p _ hs hj
    exact ⟨e, he, h.endings.ended _ _ e he⟩
  have hrefused : m.referee.halted = false → ¬ Started log p w.toInt ∨ Joined log w.toInt →
      m.step p = some (m.setTask p { t with body := next (-1, status) }) :=
    fun hh hq => step_join ha ht hb hh (join_stranger m p status (h.families.not_kin ha hq))
  refine ⟨?_, hrefused, ?_, ?_, ?_⟩
  · intro hh
    rw [step_of_task ha ht, advance, hb]
    exact if_pos hh
  · exact fun hh hs => hrefused hh (Or.inl (h.families.not_started_of_stranger hs))
  · intro hh hs hj hnone
    obtain ⟨e, he, hend⟩ := hkin hs hj
    cases e with
    | none => exact step_join ha ht hb hh (join_living m p status he)
    | some how => exact absurd ((hend how).mp rfl) (hnone how)
  · intro hh hs hj how hd
    obtain ⟨e, he, hend⟩ := hkin hs hj
    obtain rfl := (hend how).mpr hd
    refine ⟨?_, step_join ha ht hb hh (join_ended m p status he)⟩
    rintro rfl
    rw [(h.endings.stopped _ hd).1] at hh
    cases hh

theorem joined_eq_iff {how : Termination} (hh : how ≠ .halted) (s : Word) :
    (how.joined = (1, s) ↔ how = .exited s) ∧ (how.joined = (0, -1) ↔ how = .exception) := by
  cases how with
  | exited status => simp [Termination.joined]
  | exception => simp [Termination.joined]
  | halted => contradiction

theorem Recorded.truthful (h : Recorded log m) {w status : Word} {a : Word × Word}
    (ha : m.alive p = true) (ht : m.Takes p (.answered (.join w status) a) m') :
    Truthful log p w status a := by
  have hjoin : m.referee.halted = false ∧ ∃ m₁, m.join p w status = (m₁, .answer a) := by
    cases ht with
    | answered _ _ hh hs => exact ⟨hh, _, hs⟩
  obtain ⟨hh, m₁, hjoin⟩ := hjoin
  by_cases hq : ¬ Started log p w.toInt ∨ Joined log w.toInt
  · rw [join_stranger m p status (h.families.not_kin ha hq)] at hjoin
    obtain rfl := Reaction.answer.inj (Prod.mk.inj hjoin).2
    exact ⟨fun _ => ⟨rfl, hq⟩, fun hne => absurd rfl hne, fun hne => absurd rfl hne,
      fun hne => absurd rfl hne, fun hne => absurd rfl hne⟩
  · rw [not_or, not_not] at hq
    obtain ⟨e, he⟩ := h.families.present p _ hq.1 hq.2
    have hend := h.endings.ended _ _ e he
    cases e with
    | none =>
      rw [join_living m p status he] at hjoin
      cases (Prod.mk.inj hjoin).2
    | some how =>
      rw [join_ended m p status he] at hjoin
      obtain rfl := Reaction.answer.inj (Prod.mk.inj hjoin).2
      have hrunning : how ≠ .halted := by
        rintro rfl
        rw [(h.endings.stopped _ ((hend _).mp rfl)).1] at hh
        cases hh
      refine ⟨fun hm => absurd hm how.joined_ne, fun _ => hq, fun _ => ⟨how, (hend how).mp rfl⟩,
        fun _ s => ?_, fun _ => ?_⟩
      · rw [(joined_eq_iff hrunning s).1, ← hend, Option.some.injEq]
      · rw [(joined_eq_iff hrunning 0).2, ← hend, Option.some.injEq]

theorem Takes.closes {how : Termination} (h : m.Takes p (.ended how) m') :
    ∃ t, m.task? p = some t ∧ m.Closes p t.body how := by
  cases h with
  | done ht hb => exact ⟨_, ht, hb ▸ .returned⟩
  | exit ht hb => exact ⟨_, ht, hb ▸ .exited _⟩
  | crash ht hb => exact ⟨_, ht, hb ▸ .crashed⟩
  | halted ht hb hh => exact ⟨_, ht, hb ▸ .halted hh⟩
  | faulted ht hb hh hs => exact ⟨_, ht, hb ▸ .faulted hh hs⟩

/-- Every termination is joined at most once, by the parent, and as it was; who is no
parent, and who comes late, is refused at once. -/
theorem joins_truthful (plan : Plan) (program : String) (args : List String)
    (h : (plan.build.boot program args).1.Run log m) :
    (∀ before p w status a after,
      log = before ++ ⟨p, .answered (.join w status) a⟩ :: after → Truthful before p w status a) ∧
    (∀ before e between p w status a after, e.Joins w.toInt →
      log = before ++ e :: between ++ ⟨p, .answered (.join w status) a⟩ :: after →
        a = (-1, status)) ∧
    (∀ before q how after, log = before ++ ⟨q, .ended how⟩ :: after →
      ∃ b t, (plan.build.boot program args).1.Run before b ∧ b.task? q = some t ∧
        b.Closes q t.body how) ∧
    ∀ p t w status next, m.alive p = true → m.task? p = some t →
      t.body = .call (.join w status) next → JoinStep log m p t w status next := by
  have hboot := recorded_boot (m := plan.build) rfl program args
  have hjoin : ∀ before p w status a after,
      log = before ++ ⟨p, .answered (.join w status) a⟩ :: after → Truthful before p w status a := by
    intro before p w status a after hlog
    obtain ⟨b, b', hbefore, ha, htake, -⟩ := h.split hlog
    exact (hboot.run hbefore).truthful ha htake
  refine ⟨hjoin, ?_, ?_, ?_⟩
  · intro before e between p w status a after he hlog
    have hjoined : Joined (before ++ e :: between) w.toInt := ⟨e, by simp, he⟩
    have htrue := hjoin _ p w status a after hlog
    have hcode : a.1 = -1 := by
      by_contra hne
      exact (htrue.child hne).2 hjoined
    exact Prod.ext hcode (htrue.refused hcode).1
  · intro before q how after hlog
    obtain ⟨b, b', hbefore, -, htake, -⟩ := h.split hlog
    obtain ⟨t, ht, hclose⟩ := htake.closes
    exact ⟨b, t, hbefore, ht, hclose⟩
  · exact fun p t w status next => (hboot.run h).joinStep

def family : Machine := ((Plan.empty.register "p" fun _ args =>
  if args = [] then
    .call (.exec "p" ["child"]) fun _ => .call (.join 2 0) fun _ => .call (.join 2 0) fun _ => .exit 0
  else .exit 7).build.boot "p" []).1

def familyLog : List Event :=
  [⟨1, .answered (.exec "p" ["child"]) (2 : Word)⟩, ⟨2, .ended (.exited 7)⟩,
    ⟨1, .answered (.join 2 0) ((1 : Word), (7 : Word))⟩,
    ⟨1, .answered (.join 2 0) ((-1 : Word), (0 : Word))⟩]

theorem family_run : ∃ m', family.Run familyLog m' := by
  refine exists_run_cons rfl (.answered rfl rfl rfl rfl) ?_
  refine exists_run_cons rfl (.exit rfl rfl) ?_
  refine exists_run_cons rfl (.answered rfl rfl rfl rfl) ?_
  refine exists_run_cons rfl (.answered rfl rfl rfl rfl) ?_
  exact ⟨_, .start⟩

theorem joins_truthful_family : ∃ m', family.Run familyLog m' ∧
    Truthful (familyLog.take 2) 1 2 0 (1, 7) ∧ Started (familyLog.take 2) 1 2 ∧
    Truthful (familyLog.take 3) 1 2 0 (-1, 0) ∧ Joined (familyLog.take 3) 2 := by
  obtain ⟨m', hr⟩ := family_run
  obtain ⟨hjoin, -⟩ := joins_truthful _ "p" [] hr
  have hfirst := hjoin (familyLog.take 2) 1 2 0 (1, 7) (familyLog.drop 3) rfl
  have hsecond := hjoin (familyLog.take 3) 1 2 0 (-1, 0) [] rfl
  have hone : (1 : Word) ≠ -1 := by decide
  refine ⟨m', hr, hfirst, (hfirst.child hone).1, hsecond, ?_⟩
  have hthird : (familyLog.take 3)[2]? = some ⟨1, .answered (.join 2 0) ((1 : Word), (7 : Word))⟩ := rfl
  exact ⟨_, List.mem_of_getElem? hthird, rfl, hone⟩

end Machine

end KernelExam

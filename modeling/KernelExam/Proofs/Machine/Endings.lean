import KernelExam.Proofs.Machine.Kinship

/-!
# How processes ended

The log of a run says who came to which end. The process table agrees with it for as
long as a process has its entry, and an entry is only taken out after its end.
-/

set_option autoImplicit false

namespace KernelExam

def Event.Ends (e : Event) (q : Pid) (how : Termination) : Prop := e = ⟨q, .ended how⟩

def Ended (log : List Event) (q : Pid) (how : Termination) : Prop := ∃ e ∈ log, e.Ends q how

theorem exists_mem_concat {P : Event → Prop} (log : List Event) (e : Event) :
    (∃ x ∈ log ++ [e], P x) ↔ (∃ x ∈ log, P x) ∨ P e := by
  simp only [List.mem_append, List.mem_singleton, or_and_right, exists_or, exists_eq_left]

theorem ended_concat (log : List Event) (e : Event) (q : Pid) (how : Termination) :
    Ended (log ++ [e]) q how ↔ Ended log q how ∨ e.Ends q how := exists_mem_concat log e

theorem ended_append (first second : List Event) (q : Pid) (how : Termination) :
    Ended (first ++ second) q how ↔ Ended first q how ∨ Ended second q how := by
  simp only [Ended, List.mem_append, or_and_right, exists_or]

theorem not_ends_answered {pid q : Pid} {c : Call} {a : c.Answer} {how : Termination} :
    ¬ Event.Ends ⟨pid, .answered c a⟩ q how := nofun

theorem not_ends_noted {pid q : Pid} {n : Note} {how : Termination} :
    ¬ Event.Ends ⟨pid, .noted n⟩ q how := nofun

namespace Machine

/-- The process table agrees with the log on who ended, and how. -/
structure Endings (log : List Event) (m : Machine) : Prop where
  past : ∀ (q : Int) how, Ended log q how → q ≤ m.processes.slots.length
  ended : ∀ (q : Int) parent e, m.processes.kin? q = some (parent, e) → ∀ how,
    e = some how ↔ Ended log q how
  once : ∀ q how how', Ended log q how → Ended log q how' → how = how'
  /-- Only who has ended is taken out of the table. -/
  gone : ∀ q : Int, 1 ≤ q → q ≤ m.processes.slots.length → m.processes.kin? q = none →
    ∃ how, Ended log q how
  /-- Only a halted machine puts an end to a process, and nobody joins that one. -/
  stopped : ∀ q, Ended log q .halted →
    m.referee.halted = true ∧ ∃ parent, m.processes.kin? q = some (parent, some .halted)

variable {log : List Event} {m m' : Machine} {pid : Int}

theorem Endings.concat (h : Endings log m) {e : Event} (he : ∀ q how, ¬ e.Ends q how) :
    Endings (log ++ [e]) m := by
  have hended : ∀ q how, Ended (log ++ [e]) q how ↔ Ended log q how :=
    fun q how => (ended_concat ..).trans (or_iff_left (he q how))
  constructor
  all_goals simp only [hended]
  · exact h.past
  · exact h.ended
  · exact h.once
  · exact h.gone
  · exact h.stopped

theorem Endings.sameKin (h : Endings log m) (hs : m.SameKin m')
    (hh : m.referee.halted = true → m'.referee.halted = true) : Endings log m' := by
  constructor
  · rw [hs.length]
    exact h.past
  · intro q
    rw [hs.kin]
    exact h.ended q
  · exact h.once
  · intro q
    rw [hs.kin, hs.length]
    exact h.gone q
  · intro q hd
    obtain ⟨hhalted, hk⟩ := h.stopped q hd
    rw [hs.kin]
    exact ⟨hh hhalted, hk⟩

theorem Endings.enters {parent : Option Int} {child : Int} (h : Endings log m)
    (he : m.Enters m' parent child)
    (hh : m.referee.halted = true → m'.referee.halted = true) : Endings log m' := by
  have hnumber : child = (m.processes.slots.length : Int) + 1 := he.number
  have hlength := he.length
  have hnew : ∀ how, ¬ Ended log child how := by
    intro how hd
    have hle := h.past child how hd
    omega
  constructor
  · intro q how hd
    have hle := h.past q how hd
    omega
  · intro q grand e hk how
    rw [he.kin] at hk
    by_cases hq : q = child
    · rw [if_pos hq] at hk
      obtain rfl := (Prod.mk.inj (Option.some.inj hk)).2
      rw [hq]
      exact iff_of_false nofun (hnew how)
    · rw [if_neg hq] at hk
      exact h.ended q grand e hk how
  · exact h.once
  · intro q hlow hhigh hk
    rw [he.kin] at hk
    by_cases hq : q = child
    · rw [if_pos hq] at hk
      cases hk
    · rw [if_neg hq] at hk
      exact h.gone q hlow (by omega) hk
  · intro q hd
    obtain ⟨hhalted, hk⟩ := h.stopped q hd
    have hq : q ≠ child := fun hq => hnew .halted (hq ▸ hd)
    rw [he.kin, if_neg hq]
    exact ⟨hh hhalted, hk⟩

theorem Endings.reap {q : Int} {parent : Option Pid} {how : Termination} (h : Endings log m)
    (hh : m.referee.halted = false) (hk : m.processes.kin? q = some (parent, some how)) :
    Endings log { m with processes := m.processes.reap q } := by
  have hkin : ∀ p, (m.processes.reap q).kin? p = if p = q then none else m.processes.kin? p :=
    fun p => m.processes.kin?_reap q p
  have hlength : (m.processes.reap q).slots.length = m.processes.slots.length :=
    ProcessTable.length_put ..
  constructor
  · rw [hlength]
    exact h.past
  · intro p grand e hk
    rw [hkin] at hk
    split at hk
    · cases hk
    · exact h.ended p grand e hk
  · exact h.once
  · intro p hlow hhigh hnone
    rw [hlength] at hhigh
    by_cases hp : p = q
    · rw [hp]
      exact ⟨how, (h.ended q parent _ hk how).mp rfl⟩
    · rw [hkin, if_neg hp] at hnone
      exact h.gone p hlow hhigh hnone
  · intro p hd
    rw [(h.stopped p hd).1] at hh
    cases hh

theorem Endings.finish {how : Termination} (h : Endings log m) (ha : m.alive pid = true)
    (hh : how = .halted → m.referee.halted = true) :
    Endings (log ++ [⟨pid, .ended how⟩]) (m.finish pid how) := by
  obtain ⟨parent, hp⟩ := (alive_iff_kin? m pid).mp ha
  have hkin : ∀ q, (m.finish pid how).processes.kin? q =
      if q = pid then some (parent, some how) else m.processes.kin? q :=
    fun q => ProcessTable.kin?_terminate q how hp
  have hlength : (m.finish pid how).processes.slots.length = m.processes.slots.length :=
    ProcessTable.length_terminate ..
  have hnot : ∀ how', ¬ Ended log pid how' := by
    intro how' hd
    cases (h.ended pid parent none hp how').mpr hd
  have hself : ∀ how', Ended (log ++ [⟨pid, .ended how⟩]) pid how' ↔ how = how' := by
    intro how'
    rw [ended_concat, or_iff_right (hnot how')]
    constructor
    · rintro ⟨⟩
      rfl
    · rintro rfl
      rfl
  have hother : ∀ q how', q ≠ pid →
      (Ended (log ++ [⟨pid, .ended how⟩]) q how' ↔ Ended log q how') := by
    intro q how' hq
    rw [ended_concat, or_iff_left]
    rintro ⟨⟩
    exact hq rfl
  constructor
  · intro q how' hd
    rw [hlength]
    by_cases hq : q = pid
    · rw [hq]
      exact (ProcessTable.le_length_of_kin? hp).2
    · exact h.past q how' ((hother q how' hq).mp hd)
  · intro q grand e hk how'
    rw [hkin] at hk
    by_cases hq : q = pid
    · rw [if_pos hq] at hk
      obtain rfl := (Prod.mk.inj (Option.some.inj hk)).2
      rw [hq, hself, Option.some.injEq]
    · rw [if_neg hq] at hk
      rw [hother q how' hq]
      exact h.ended q grand e hk how'
  · intro q how₁ how₂ h₁ h₂
    by_cases hq : q = pid
    · rw [hq, hself] at h₁ h₂
      exact h₁.symm.trans h₂
    · rw [hother _ _ hq] at h₁ h₂
      exact h.once q how₁ how₂ h₁ h₂
  · intro q hlow hhigh hnone
    rw [hlength] at hhigh
    rw [hkin] at hnone
    by_cases hq : q = pid
    · rw [if_pos hq] at hnone
      cases hnone
    · rw [if_neg hq] at hnone
      obtain ⟨how', hd⟩ := h.gone q hlow hhigh hnone
      exact ⟨how', (hother q how' hq).mpr hd⟩
  · intro q hd
    by_cases hq : q = pid
    · rw [hq, hself] at hd
      rw [hkin, if_pos hq, hd]
      exact ⟨hh hd, parent, rfl⟩
    · rw [hkin, if_neg hq]
      exact h.stopped q ((hother q _ hq).mp hd)

/-- One step keeps the table and the log in agreement. -/
theorem Endings.takes {what : Happening} (h : Endings log m) (ha : m.alive pid = true)
    (ht : m.Takes pid what m') : Endings (log ++ [⟨pid, what⟩]) m' := by
  cases ht with
  | done _ _ => exact h.finish ha nofun
  | exit _ _ => exact h.finish ha nofun
  | crash _ _ => exact h.finish ha nofun
  | halted _ _ hh => exact h.finish ha fun _ => hh
  | noted _ _ =>
    apply (h.concat fun _ _ => not_ends_noted).sameKin (sameKin_setTask ..)
    rw [setTask_referee]
    exact id
  | @answered t c next m₁ a _ _ hh hs =>
    have hserved : Endings log m₁ := by
      generalize (Reaction.answer a : Reaction c.Answer) = r at hs
      cases changes hs with
      | nothing hkin _ _ => exact h.sameKin hkin (by rw [hh]; nofun)
      | started hin _ => exact h.enters hin (by rw [hh]; nofun)
      | abandoned hin _ => exact h.enters hin (by rw [hh]; nofun)
      | joined hk => exact h.reap hh hk
    apply (hserved.concat fun _ _ => not_ends_answered).sameKin (sameKin_setTask ..)
    rw [setTask_referee]
    exact id
  | @faulted t c next m₁ f _ _ hh hs =>
    have hc := changes hs
    have halive := hc.alive ha
    generalize (Reaction.fault f : Reaction c.Answer) = r at hc
    cases hc with
    | nothing hkin _ _ => exact (h.sameKin hkin (by rw [hh]; nofun)).finish halive nofun
    | started hin _ => exact (h.enters hin (by rw [hh]; nofun)).finish halive nofun
    | abandoned hin _ => exact (h.enters hin (by rw [hh]; nofun)).finish halive nofun
    | joined hk => exact (h.reap hh hk).finish halive nofun

theorem Endings.run {start : Machine} (h : Endings [] start) (hr : start.Run log m) :
    Endings log m := by
  induction hr with
  | start => exact h
  | step _ ha ht ih => exact ih.takes ha ht
  | halt _ ih => exact ih.sameKin ⟨fun _ => rfl, rfl, rfl, rfl⟩ fun _ => rfl

theorem kin?_empty (hm : m.processes = .empty) (q : Int) : m.processes.kin? q = none := by
  by_contra hq
  obtain ⟨k, hk⟩ := Option.ne_none_iff_exists'.mp hq
  obtain ⟨hlow, hhigh⟩ := ProcessTable.le_length_of_kin? hk
  have hlength : m.processes.slots.length = 0 := by
    rw [hm]
    rfl
  omega

theorem get?_empty (hm : m.processes = .empty) (q : Int) : m.processes.get? q = none :=
  Option.map_eq_none_iff.mp (kin?_empty hm q)

theorem endings_boot (hm : m.processes = .empty) (program : String) (args : List String) :
    Endings [] (m.boot program args).1 := by
  have hnone : Endings [] m := by
    have hlength : m.processes.slots.length = 0 := by
      rw [hm]
      rfl
    constructor <;> simp [kin?_empty hm, Ended]
    omega
  rcases m.boot_cases program args with ⟨hsame, slots, hr⟩ | ⟨child, slots, hin, hr⟩
  · apply hnone.sameKin hsame
    rw [hr]
    intro hh
    exact hh
  · apply hnone.enters hin
    rw [hr]
    intro hh
    exact hh

end Machine

end KernelExam

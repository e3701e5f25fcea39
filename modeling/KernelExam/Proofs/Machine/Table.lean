import KernelExam.Machine.State

/-!
# Looking up processes and tasks

What every change of the process table and of the task list leaves at each
process number. Numbers below 1 name no place and lie outside of every change.
-/

set_option autoImplicit false

namespace KernelExam

namespace ProcessTable

variable (t : ProcessTable) (pid q : Int)

theorem place?_def : place? pid = if 1 ≤ pid then some (pid - 1).toNat else none := rfl

theorem place?_eq_some_iff (n : Nat) : place? pid = some n ↔ pid = n + 1 := by
  rw [place?_def]
  constructor
  · intro h
    split at h
    · have hn : (pid - 1).toNat = n := Option.some.inj h
      omega
    · cases h
  · intro h
    rw [if_pos (by omega)]
    congr 1
    omega

theorem place?_eq_none_iff : place? pid = none ↔ pid < 1 := by
  rw [place?_def]
  split
  · simpa
  · simpa using by omega

theorem get?_eq_some_iff (p : ProcessState) :
    t.get? pid = some p ↔ ∃ n : Nat, pid = n + 1 ∧ t.slots[n]? = some (some p) := by
  rw [get?, Option.bind_eq_some_iff]
  refine exists_congr fun n => ?_
  rw [place?_eq_some_iff, Option.join_eq_some_iff]

theorem get?_succ (n : Nat) : t.get? ((n : Int) + 1) = (t.slots[n]?).join := by
  rw [get?, (place?_eq_some_iff _ n).mpr rfl]
  rfl

theorem get?_of_nonpos (h : pid < 1) : t.get? pid = none := by
  rw [get?, (place?_eq_none_iff pid).mpr h]
  rfl

theorem get?_put_self {t : ProcessTable} {pid : Int} {p : ProcessState} (h : t.get? pid = some p)
    (p' : Option ProcessState) : (t.put pid p').get? pid = p' := by
  obtain ⟨n, rfl, hn⟩ := (get?_eq_some_iff t pid p).mp h
  have hlt : n < t.slots.length := (List.getElem?_eq_some_iff.mp hn).1
  rw [put, (place?_eq_some_iff _ n).mpr rfl, get?_succ, List.getElem?_set_self hlt]
  rfl

theorem get?_put_of_ne (p' : Option ProcessState) (h : q ≠ pid) :
    (t.put pid p').get? q = t.get? q := by
  cases hp : place? pid with
  | none => rw [put, hp]
  | some n =>
    obtain rfl := (place?_eq_some_iff pid n).mp hp
    rw [put, hp]
    cases hq : place? q with
    | none =>
      have hlow := (place?_eq_none_iff q).mp hq
      rw [get?_of_nonpos _ q hlow, get?_of_nonpos t q hlow]
    | some k =>
      obtain rfl := (place?_eq_some_iff q k).mp hq
      have hne : n ≠ k := by
        rintro rfl
        exact h rfl
      rw [get?_succ, get?_succ, List.getElem?_set_ne hne]

theorem get?_modify (f : ProcessState → ProcessState) :
    (t.modify pid f).get? q = if q = pid then (t.get? q).map f else t.get? q := by
  rw [modify]
  cases h : t.get? pid with
  | none =>
    by_cases hq : q = pid
    · rw [if_pos hq, hq, h]
      rfl
    · rw [if_neg hq]
  | some p =>
    by_cases hq : q = pid
    · rw [if_pos hq, hq, h]
      exact get?_put_self h _
    · rw [if_neg hq]
      exact get?_put_of_ne t pid q _ hq

theorem modify_id : t.modify pid id = t := by
  rw [modify]
  cases h : t.get? pid with
  | none => rfl
  | some p =>
    obtain ⟨n, rfl, hn⟩ := (get?_eq_some_iff t pid p).mp h
    obtain ⟨hlt, hget⟩ := List.getElem?_eq_some_iff.mp hn
    simp only [put, (place?_eq_some_iff _ n).mpr rfl, id_eq, ← hget, List.set_getElem_self]

theorem modify_of_get? {t : ProcessTable} {pid : Pid} {p : ProcessState} (h : t.get? pid = some p)
    (f : ProcessState → ProcessState) : t.modify pid f = t.put pid (some (f p)) := by
  rw [modify, h]

theorem modify_self {t : ProcessTable} {pid : Pid} {p : ProcessState} (h : t.get? pid = some p)
    {f : ProcessState → ProcessState} (hf : f p = p) : t.modify pid f = t := by
  rw [modify_of_get? h, hf]
  exact (modify_of_get? h id).symm.trans (t.modify_id pid)

theorem modify_modify (f g : ProcessState → ProcessState) :
    (t.modify pid f).modify pid g = t.modify pid fun p => g (f p) := by
  cases hp : t.get? pid with
  | none =>
    have hnone : t.modify pid f = t := by rw [modify, hp]
    rw [hnone, modify, modify, hp]
  | some p =>
    have hmid : (t.modify pid f).get? pid = some (f p) := by
      rw [get?_modify, if_pos rfl, hp]
      rfl
    obtain ⟨n, rfl, -⟩ := (get?_eq_some_iff t pid p).mp hp
    rw [modify_of_get? hmid, modify_of_get? hp, modify_of_get? hp]
    simp only [put, (place?_eq_some_iff _ n).mpr rfl, List.set_set]

theorem get?_reap : (t.reap pid).get? q = if q = pid then none else t.get? q := by
  rw [reap]
  by_cases hq : q = pid
  · rw [if_pos hq, hq]
    cases h : t.get? pid with
    | none =>
      cases hp : place? pid with
      | none => rw [put, hp]; exact h
      | some n =>
        obtain rfl := (place?_eq_some_iff pid n).mp hp
        rw [put, hp, get?_succ, List.getElem?_set]
        split
        · split <;> rfl
        · contradiction
    | some p => exact get?_put_self h none
  · rw [if_neg hq]
    exact get?_put_of_ne t pid q none hq

/-- How a process looks once it has come to an end; only its first end counts. -/
def ended (how : Termination) (p : ProcessState) : ProcessState :=
  if p.termination.isSome then p
  else { p with termination := some how, descriptors := .closed }

theorem get?_terminate (how : Termination) :
    (t.terminate pid how).1.get? q =
      if q = pid then (t.get? q).map (ended how) else t.get? q := by
  rw [terminate]
  cases h : t.get? pid with
  | none =>
    by_cases hq : q = pid
    · rw [if_pos hq, hq, h]
      rfl
    · rw [if_neg hq]
  | some p =>
    by_cases hp : p.termination.isSome
    · simp only [if_pos hp]
      by_cases hq : q = pid
      · rw [if_pos hq, hq, h, Option.map_some, ended, if_pos hp]
      · rw [if_neg hq]
    · simp only [if_neg hp]
      by_cases hq : q = pid
      · rw [if_pos hq, hq, h, get?_put_self h, Option.map_some, ended, if_neg hp]
      · rw [if_neg hq]
        exact get?_put_of_ne t pid q _ hq

theorem termination_ended (how : Termination) (p : ProcessState) :
    (ended how p).termination.isSome := by
  rw [ended]
  split
  · assumption
  · rfl

theorem spawn_ok {t t' : ProcessTable} {parent : Option Pid} {cwd : String} {child : Int}
    (h : t.spawn parent cwd = .ok (t', child)) :
    child = t.slots.length + 1 ∧ child ≤ maxPid ∧
      t'.slots = t.slots ++ [some ⟨parent, cwd, .stdio, none⟩] := by
  rw [spawn] at h
  split at h
  · cases h
  · rename_i hle
    obtain ⟨rfl, rfl⟩ := Prod.mk.inj (Except.ok.inj h)
    exact ⟨rfl, Int.not_lt.mp hle, rfl⟩

theorem get?_spawn {t t' : ProcessTable} {parent : Option Pid} {cwd : String} {child : Int}
    (h : t.spawn parent cwd = .ok (t', child)) (q : Int) :
    t'.get? q = if q = child then some ⟨parent, cwd, .stdio, none⟩ else t.get? q := by
  obtain ⟨rfl, -, hs⟩ := spawn_ok h
  cases hq : place? q with
  | none =>
    have hlow := (place?_eq_none_iff q).mp hq
    rw [if_neg (by omega), get?_of_nonpos t' q hlow, get?_of_nonpos t q hlow]
  | some n =>
    obtain rfl := (place?_eq_some_iff q n).mp hq
    rw [get?_succ, get?_succ, hs]
    rcases Nat.lt_trichotomy n t.slots.length with hn | rfl | hn
    · rw [List.getElem?_append_left hn, if_neg (by omega)]
    · rw [List.getElem?_concat_length, if_pos rfl]
      rfl
    · rw [List.getElem?_eq_none (by rw [List.length_append, List.length_singleton]; omega),
        List.getElem?_eq_none (by omega), if_neg (by omega)]

theorem mem_slots_iff (p : ProcessState) : some p ∈ t.slots ↔ ∃ pid, t.get? pid = some p := by
  rw [List.mem_iff_getElem?]
  constructor
  · rintro ⟨n, hn⟩
    exact ⟨n + 1, (get?_eq_some_iff t _ p).mpr ⟨n, rfl, hn⟩⟩
  · rintro ⟨pid, hp⟩
    obtain ⟨n, -, hn⟩ := (get?_eq_some_iff t pid p).mp hp
    exact ⟨n, hn⟩

theorem le_length_of_get? {t : ProcessTable} {pid : Int} {p : ProcessState}
    (h : t.get? pid = some p) : 1 ≤ pid ∧ pid ≤ t.slots.length := by
  obtain ⟨n, rfl, hn⟩ := (get?_eq_some_iff t pid p).mp h
  have hlt := (List.getElem?_eq_some_iff.mp hn).1
  omega

def Each (t : ProcessTable) (P : DescriptorTable → Prop) : Prop :=
  ∀ pid p, t.get? pid = some p → P p.descriptors

section Each

variable {t t' : ProcessTable} {P Q : DescriptorTable → Prop} {pid : Int}

theorem Each.imp (h : t.Each P) (hPQ : ∀ ds, P ds → Q ds) : t.Each Q :=
  fun q p hq => hPQ _ (h q p hq)

theorem Each.modify (h : t.Each P) {f : ProcessState → ProcessState}
    (hf : ∀ p, t.get? pid = some p → P (f p).descriptors) : (t.modify pid f).Each P := by
  intro q p hq
  rw [get?_modify] at hq
  split at hq
  · rename_i hpid
    obtain ⟨p₀, hp₀, rfl⟩ := Option.map_eq_some_iff.mp hq
    exact hf p₀ (hpid ▸ hp₀)
  · exact h q p hq

theorem Each.spawn (h : t.Each P) {parent : Option Pid} {cwd : String} {child : Int}
    (hs : t.spawn parent cwd = .ok (t', child)) (hP : P .stdio) : t'.Each P := by
  intro q p hq
  rw [get?_spawn hs] at hq
  split at hq
  · obtain rfl := Option.some.inj hq
    exact hP
  · exact h q p hq

theorem Each.reap (h : t.Each P) : (t.reap pid).Each P := by
  intro q p hq
  rw [get?_reap] at hq
  split at hq
  · cases hq
  · exact h q p hq

theorem Each.terminate (h : t.Each P) (how : Termination) (hP : P .closed) :
    (t.terminate pid how).1.Each P := by
  intro q p hq
  rw [get?_terminate] at hq
  split at hq
  · obtain ⟨p₀, hp₀, rfl⟩ := Option.map_eq_some_iff.mp hq
    rw [ended]
    split
    · exact h q p₀ hp₀
    · exact hP
  · exact h q p hq

theorem each_empty : empty.Each P := by
  intro pid p hp
  obtain ⟨n, -, hn⟩ := (get?_eq_some_iff _ pid p).mp hp
  cases hn

end Each

end ProcessTable

namespace Machine

variable (m : Machine) (pid q : Int)

theorem alive_iff : m.alive pid = true ↔ ∃ p, m.processes.get? pid = some p ∧
    p.termination = none := by
  rw [alive]
  cases m.processes.get? pid with
  | none => simp
  | some p => simp

theorem descriptor?_eq_get? {m : Machine} {pid : Int} {p : ProcessState}
    (hp : m.processes.get? pid = some p) (fd : Word) :
    m.descriptor? pid fd = p.descriptors.get? fd := by
  rw [descriptor?, hp]
  rfl

theorem task?_succ (n : Nat) : m.task? ((n : Int) + 1) = (m.tasks[n]?).join := by
  rw [task?, (ProcessTable.place?_eq_some_iff _ n).mpr rfl]
  rfl

theorem task?_eq_some_iff (t : Task) :
    m.task? pid = some t ↔ ∃ n : Nat, pid = n + 1 ∧ m.tasks[n]? = some (some t) := by
  rw [task?, Option.bind_eq_some_iff]
  refine exists_congr fun n => ?_
  rw [ProcessTable.place?_eq_some_iff, Option.join_eq_some_iff]

theorem task?_setTask_self {m : Machine} {pid : Int} {t : Task} (h : m.task? pid = some t)
    (t' : Task) : (m.setTask pid t').task? pid = some t' := by
  obtain ⟨n, rfl, hn⟩ := (task?_eq_some_iff m pid t).mp h
  have hlt : n < m.tasks.length := (List.getElem?_eq_some_iff.mp hn).1
  rw [setTask, (ProcessTable.place?_eq_some_iff _ n).mpr rfl, task?_succ]
  show ((m.tasks.set n (some t'))[n]?).join = some t'
  rw [List.getElem?_set_self hlt]
  rfl

theorem task?_setTask_of_ne (t' : Task) (h : q ≠ pid) :
    (m.setTask pid t').task? q = m.task? q := by
  cases hp : ProcessTable.place? pid with
  | none => rw [setTask, hp]
  | some n =>
    obtain rfl := (ProcessTable.place?_eq_some_iff pid n).mp hp
    rw [setTask, hp]
    cases hq : ProcessTable.place? q with
    | none => rw [task?, task?, hq]; rfl
    | some k =>
      obtain rfl := (ProcessTable.place?_eq_some_iff q k).mp hq
      have hne : n ≠ k := by
        rintro rfl
        exact h rfl
      rw [task?_succ, task?_succ]
      show ((m.tasks.set n (some t'))[k]?).join = (m.tasks[k]?).join
      rw [List.getElem?_set_ne hne]

theorem task?_setTask_cases {m : Machine} {pid q : Int} {t₀ t t' : Task}
    (h₀ : m.task? pid = some t₀) (h : (m.setTask pid t').task? q = some t) :
    q = pid ∧ t = t' ∨ q ≠ pid ∧ m.task? q = some t := by
  by_cases hq : q = pid
  · subst hq
    rw [task?_setTask_self h₀] at h
    exact Or.inl ⟨rfl, (Option.some.inj h).symm⟩
  · rw [task?_setTask_of_ne m pid q t' hq] at h
    exact Or.inr ⟨hq, h⟩

theorem task?_concat {m m' : Machine} {pid : Int} {last : Option Task} {t : Task}
    (hm : m'.tasks = m.tasks ++ [last]) (h : m'.task? pid = some t) :
    m.task? pid = some t ∨ last = some t := by
  obtain ⟨n, rfl, hn⟩ := (task?_eq_some_iff m' pid t).mp h
  rw [hm] at hn
  rcases Nat.lt_or_ge n m.tasks.length with hlt | hge
  · rw [List.getElem?_append_left hlt] at hn
    exact Or.inl ((task?_eq_some_iff m _ t).mpr ⟨n, rfl, hn⟩)
  · rw [List.getElem?_append_right hge, List.getElem?_singleton] at hn
    split at hn
    · exact Or.inr (Option.some.inj hn)
    · cases hn

theorem task?_concat_of_ne {m m' : Machine} {q : Int} {last : Option Task}
    (hm : m'.tasks = m.tasks ++ [last]) (hq : q ≠ m.tasks.length + 1) : m'.task? q = m.task? q := by
  cases hplace : ProcessTable.place? q with
  | none => rw [task?, task?, hplace]; rfl
  | some k =>
    obtain rfl := (ProcessTable.place?_eq_some_iff q k).mp hplace
    rw [task?_succ, task?_succ, hm]
    rcases Nat.lt_or_ge k m.tasks.length with hlt | hge
    · rw [List.getElem?_append_left hlt]
    · rw [List.getElem?_eq_none hge,
        List.getElem?_eq_none (by rw [List.length_append, List.length_singleton]; omega)]

theorem task?_append {m m' : Machine} {last : Option Task} (hm : m'.tasks = m.tasks ++ [last])
    {q : Int} {t : Task} (h : m.task? q = some t) : m'.task? q = some t := by
  obtain ⟨k, rfl, hk⟩ := (task?_eq_some_iff m q t).mp h
  rw [task?_succ, hm, List.getElem?_append_left (List.getElem?_eq_some_iff.mp hk).1, hk]
  rfl

theorem task?_last {m m' : Machine} {t : Task} (hm : m'.tasks = m.tasks ++ [some t]) :
    m'.task? ((m.tasks.length : Int) + 1) = some t := by
  rw [task?_succ, hm, List.getElem?_concat_length]
  rfl

theorem setTask_processes (t : Task) : (m.setTask pid t).processes = m.processes := by
  rw [setTask]
  split <;> rfl

theorem setTask_files (t : Task) : (m.setTask pid t).files = m.files := by
  rw [setTask]
  split <;> rfl

theorem setTask_referee (t : Task) : (m.setTask pid t).referee = m.referee := by
  rw [setTask]
  split <;> rfl

theorem setTask_stdin (t : Task) : (m.setTask pid t).stdin = m.stdin := by
  rw [setTask]
  split <;> rfl

theorem setTask_stdout (t : Task) : (m.setTask pid t).stdout = m.stdout := by
  rw [setTask]
  split <;> rfl

theorem setTask_registry (t : Task) : (m.setTask pid t).registry = m.registry := by
  rw [setTask]
  split <;> rfl

end Machine

end KernelExam

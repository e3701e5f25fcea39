import KernelExam.Proofs.Machine.Kinship
import Mathlib.Data.Finset.Card
import Mathlib.Data.List.Sort
import Mathlib.Data.List.TakeWhile

/-!
# Counting the living

The referee counts who is alive without a look at the process table. The count is
right at any time, as every start adds one and every end takes one away.
-/

set_option autoImplicit false

namespace KernelExam.Machine

def living (m : Machine) : Finset Int :=
  ((Finset.range m.processes.slots.length).image fun n : Nat => (n : Int) + 1).filter (m.alive · = true)

variable {m m' : Machine} {pid q : Int} {c : Call} {r : Reaction c.Answer}

theorem mem_living : q ∈ m.living ↔ m.alive q = true := by
  rw [living, Finset.mem_filter, Finset.mem_image, and_iff_right_iff_imp]
  intro ha
  obtain ⟨parent, hk⟩ := (alive_iff_kin? m q).mp ha
  obtain ⟨hlow, hhigh⟩ := ProcessTable.le_length_of_kin? hk
  refine ⟨(q - 1).toNat, Finset.mem_range.mpr ?_, ?_⟩
  · omega
  · omega

theorem living_eq_empty_iff : m.living = ∅ ↔ ∀ q, m.alive q = false := by
  rw [Finset.eq_empty_iff_forall_notMem]
  apply forall_congr'
  intro q
  rw [mem_living, Bool.not_eq_true]

theorem SameKin.living (h : m.SameKin m') : m'.living = m.living := by
  ext q
  rw [mem_living, mem_living, h.alive]

theorem Enters.living {parent : Option Pid} {child : Int} (h : m.Enters m' parent child) :
    m'.living = insert child m.living := by
  ext q
  rw [Finset.mem_insert, mem_living, mem_living, h.alive_iff]

theorem living_finish (how : Termination) (ha : m.alive pid = true) :
    (m.finish pid how).living = m.living.erase pid := by
  ext q
  rw [Finset.mem_erase, mem_living, mem_living, alive_finish how ha]

/-- The referee's count is right, and every process has its place among the tasks. -/
structure Census (m : Machine) : Prop where
  live : m.referee.live = m.living.card
  tasks : m.tasks.length = m.processes.slots.length

theorem Census.sameKin (h : m.Census) (hs : m.SameKin m') : m'.Census := by
  constructor
  · rw [hs.live, hs.living, h.live]
  · rw [hs.tasks, hs.length, h.tasks]

theorem Census.enters {parent : Option Pid} {child : Int} (h : m.Census)
    (hin : m.Enters m' parent child) (hr : m'.referee = m.referee.started) : m'.Census := by
  have hnew : child ∉ m.living := fun hmem => hin.not_alive (mem_living.mp hmem)
  constructor
  · rw [hr, hin.living, Finset.card_insert_of_notMem hnew, ← h.live]
    rfl
  · rw [hin.tasks, hin.length, h.tasks]

theorem Census.changes (h : m.Census) (hc : m.Changes pid c m' r) : m'.Census := by
  cases hc with
  | nothing hs _ _ => exact h.sameKin hs
  | started hin hr => exact h.enters hin hr
  | abandoned hin hr => exact h.enters hin hr
  | @joined w status how hk =>
    have hliving : ({ m with processes := m.processes.reap w.toInt } : Machine).living =
        m.living := by
      ext q
      rw [mem_living, mem_living, alive_reap hk]
    constructor
    · rw [hliving]
      exact h.live
    · exact h.tasks.trans (ProcessTable.length_put ..).symm

theorem Census.finish (h : m.Census) (how : Termination) (ha : m.alive pid = true) :
    (m.finish pid how).Census := by
  constructor
  · rw [living_finish how ha, Finset.card_erase_of_mem (mem_living.mpr ha), ← h.live]
    rfl
  · exact h.tasks.trans (ProcessTable.length_terminate ..).symm

/-- One step keeps the count right. -/
theorem Census.takes {what : Happening} (h : m.Census) (ha : m.alive pid = true)
    (ht : m.Takes pid what m') : m'.Census := by
  cases ht with
  | answered _ _ _ hs => exact (h.changes (Machine.changes hs)).sameKin (sameKin_setTask ..)
  | noted _ _ => exact h.sameKin (sameKin_setTask ..)
  | done _ _ => exact h.finish _ ha
  | exit _ _ => exact h.finish _ ha
  | crash _ _ => exact h.finish _ ha
  | halted _ _ _ => exact h.finish _ ha
  | faulted _ _ _ hs =>
    have hc := Machine.changes hs
    exact (h.changes hc).finish _ (hc.alive ha)

theorem Census.run {log : List Event} (h : m.Census) (hr : m.Run log m') : m'.Census := by
  induction hr with
  | start => exact h
  | step _ ha ht ih => exact ih.takes ha ht
  | halt _ ih => exact ⟨ih.live, ih.tasks⟩

theorem Census.idle_iff (h : m.Census) : m.referee.idle = true ↔ ∀ q, m.alive q = false := by
  rw [← living_eq_empty_iff, ← Finset.card_eq_zero, ← h.live, Referee.idle, decide_eq_true_iff]

theorem Census.mem_pids (h : m.Census) : q ∈ m.pids ↔ 1 ≤ q ∧ q ≤ m.processes.slots.length := by
  rw [pids, List.mem_map, ← h.tasks]
  constructor
  · rintro ⟨n, hn, rfl⟩
    have hlt := List.mem_range.mp hn
    constructor
    · exact Int.ofNat_le.mpr (Nat.succ_pos n)
    · exact Int.ofNat_le.mpr hlt
  · rintro ⟨hlow, hhigh⟩
    refine ⟨(q - 1).toNat, List.mem_range.mpr (by omega), ?_⟩
    show ((((q - 1).toNat + 1 : Nat)) : Int) = q
    omega

theorem Census.mem_pids_of_alive (h : m.Census) (ha : m.alive q = true) : q ∈ m.pids := by
  obtain ⟨parent, hk⟩ := (alive_iff_kin? m q).mp ha
  exact h.mem_pids.mpr (ProcessTable.le_length_of_kin? hk)

theorem card_living_le (m : Machine) : m.living.card ≤ m.processes.slots.length := by
  refine (Finset.card_filter_le ..).trans (Finset.card_image_le.trans ?_)
  rw [Finset.card_range]

theorem mem_pids_or_drop (hq : q ∈ m'.pids) :
    q ∈ m.pids ∨ q ∈ m'.pids.drop m.tasks.length := by
  rw [← List.take_append_drop m.tasks.length m'.pids, List.mem_append] at hq
  rcases hq with hq | hq
  · left
    rw [pids, ← List.map_take, List.take_range] at hq
    obtain ⟨i, hi, rfl⟩ := List.mem_map.mp hq
    have hlt := List.mem_range.mp hi
    exact List.mem_map.mpr ⟨i, List.mem_range.mpr (by omega), rfl⟩
  · exact Or.inr hq

theorem step_of_not_alive (ha : ¬ m.alive q = true) : m.step q = none := by
  rw [step, if_neg ha]

theorem Census.rest_of_queue (h : m.Census) {queue : List Pid} (hqueue : ∀ q ∈ m.pids, q ∈ queue)
    (hwait : ∀ q ∈ queue, m.step q = none) (q : Pid) : m.step q = none := by
  by_cases ha : m.alive q = true
  · exact hwait q (hqueue q (h.mem_pids_of_alive ha))
  · exact step_of_not_alive ha

theorem mem_requeued {waiting rest : List Pid} (hqueue : ∀ q ∈ m.pids, q ∈ waiting ++ pid :: rest)
    (hq : q ∈ m'.pids) : q ∈ rest ++ waiting ++ m'.pids.drop m.tasks.length ++ [pid] := by
  rcases mem_pids_or_drop hq with hold | hnew
  · have hmem := hqueue q hold
    simp only [List.mem_append, List.mem_cons, List.not_mem_nil, or_false] at hmem ⊢
    tauto
  · simp only [List.mem_append]
    exact Or.inl (Or.inr hnew)

/-- Giving turns goes on until it has to stop, until nobody can go on, or for as many steps as
there are turns. -/
theorem Census.runUntil (h : m.Census) (stop : Machine → Bool) {queue : List Pid}
    (hqueue : ∀ q ∈ m.pids, q ∈ queue) (turns : Nat) :
    ∃ log m', Machine.runUntil stop turns queue m = m' ∧ m.Steps log m' ∧
      (stop m' = true ∨ (∀ q, m'.step q = none) ∨ turns ≤ log.length) := by
  induction turns generalizing m queue with
  | zero => exact ⟨[], m, rfl, .start, Or.inr (Or.inr (Nat.le_refl 0))⟩
  | succ turns ih =>
    rw [Machine.runUntil]
    by_cases hstop : stop m = true
    · rw [if_pos hstop]
      exact ⟨[], m, rfl, .start, Or.inl hstop⟩
    · rw [if_neg hstop, List.span_eq_takeWhile_dropWhile]
      have hsplit := List.takeWhile_append_dropWhile (p := fun q => (m.step q).isNone) (l := queue)
      have hfirst := List.head?_dropWhile_not (fun q => (m.step q).isNone) queue
      generalize queue.takeWhile (fun q => (m.step q).isNone) = waiting at hsplit
      generalize hready : queue.dropWhile (fun q => (m.step q).isNone) = ready at hsplit hfirst
      cases ready with
      | nil =>
        refine ⟨[], m, rfl, .start, Or.inr (Or.inl (h.rest_of_queue hqueue fun q hq => ?_))⟩
        exact Option.isNone_iff_eq_none.mp (List.dropWhile_eq_nil_iff.mp hready q hq)
      | cons pid rest =>
        obtain ⟨m₁, hm₁⟩ := Option.isSome_iff_exists.mp (Option.isNone_eq_false_iff.mp hfirst)
        obtain ⟨first, hturn, hpos⟩ := steps_turn_succ hstop hm₁ 127
        rw [← hsplit] at hqueue
        obtain ⟨second, m', hrun, hrest, hend⟩ :=
          ih (h.run hturn.run) fun _ hq => mem_requeued hqueue hq
        refine ⟨first ++ second, m', hrun, hturn.trans hrest, hend.imp_right (Or.imp_right ?_)⟩
        intro hle
        rw [List.length_append]
        omega

theorem pairwise_pids (m : Machine) : m.pids.Pairwise (· < ·) := by
  rw [pids, List.pairwise_map]
  apply List.Pairwise.imp _ List.pairwise_lt_range
  intro a b hab
  exact Int.ofNat_lt.mpr (Nat.succ_lt_succ hab)

theorem mem_entries (t : ProcessTable) (p : ProcessState) :
    (q, p) ∈ t.entries ↔ t.get? q = some p := by
  rw [ProcessTable.get?_eq_some_iff, ProcessTable.entries, List.mem_filterMap]
  constructor
  · rintro ⟨⟨slot, n⟩, hmem, hslot⟩
    obtain ⟨hle, hget⟩ := List.mk_mem_zipIdx_iff_le_and_getElem?_sub.mp hmem
    obtain ⟨p', rfl, he⟩ := Option.map_eq_some_iff.mp hslot
    obtain ⟨rfl, rfl⟩ := Prod.mk.inj he
    refine ⟨n - 1, ?_, hget⟩
    omega
  · rintro ⟨n, rfl, hget⟩
    refine ⟨(some p, n + 1), List.mk_mem_zipIdx_iff_le_and_getElem?_sub.mpr ⟨?_, hget⟩, rfl⟩
    exact Nat.le_add_left 1 n

theorem pairwise_entries (t : ProcessTable) :
    t.entries.Pairwise fun a b => a.1 < b.1 := by
  rw [ProcessTable.entries, List.pairwise_filterMap]
  have hsnd : (t.slots.zipIdx 1).Pairwise fun a b => a.2 < b.2 := by
    rw [← List.pairwise_map (f := Prod.snd), List.zipIdx_map_snd]
    exact List.pairwise_lt_range'
  apply hsnd.imp
  rintro ⟨slot, n⟩ ⟨slot', n'⟩ hlt a ha b hb
  obtain ⟨p, -, rfl⟩ := Option.map_eq_some_iff.mp ha
  obtain ⟨p', -, rfl⟩ := Option.map_eq_some_iff.mp hb
  exact Int.ofNat_lt.mpr hlt

theorem mem_haltedPids :
    q ∈ m.haltedPids ↔ ∃ parent, m.processes.kin? q = some (parent, some .halted) := by
  rw [haltedPids, List.mem_map]
  constructor
  · rintro ⟨⟨q, p⟩, hmem, rfl⟩
    obtain ⟨hentry, hhalted⟩ := List.mem_filter.mp hmem
    have hget := (mem_entries m.processes p).mp hentry
    exact ⟨p.parent, (ProcessTable.kin?_eq_some_iff ..).mpr ⟨p, hget, rfl, by simpa using hhalted⟩⟩
  · rintro ⟨parent, hk⟩
    obtain ⟨p, hget, -, hhalted⟩ := (ProcessTable.kin?_eq_some_iff ..).mp hk
    have hentry := (mem_entries m.processes p).mpr hget
    exact ⟨(q, p), List.mem_filter.mpr ⟨hentry, by simpa using hhalted⟩, rfl⟩

theorem pairwise_haltedPids (m : Machine) : m.haltedPids.Pairwise (· < ·) := by
  rw [haltedPids, List.pairwise_map]
  exact (pairwise_entries m.processes).filter _

end KernelExam.Machine

import KernelExam.Proofs.History
import KernelExam.WaitingRoom

/-!
# Permits in a waiting room

The permits of a semaphore are what it was last set to, and one more for each V since
then, and one less for each P that passed. Setting permits wakes nobody, so a P can sleep
on a semaphore that has permits, and in no other way.
-/

set_option autoImplicit false

namespace KernelExam

namespace WaitingRoom

inductive Move where
  | enter (id : Word)
  | look (n : Nat)
  | v (id : Word)
  | setPermits (id : Word) (n : UInt32)
  | halt
  | report (o : Outcome) (pid : Pid)
  | started
  | ended
  | store (i value : Word)
  | checkpoint (value : Word)
  deriving DecidableEq

/-- What came of a move, as far as semaphores and sleepers go. -/
inductive Incident where
  | entered (id : Word)
  | passed (id : Word)
  | stopped (id : Word)
  | slept (id : Word)
  | released (id : Word)
  | overflowed (id : Word)
  | set (id : Word) (n : Nat)
  | halted
  | woken
  | aside
  deriving DecidableEq, Repr

def Incident.ofTurn (id : Word) : Referee.Turn → Incident
  | .taken _ => .passed id
  | .halted => .stopped id
  | .blocked => .slept id

def Incident.Wakes : Incident → Prop
  | .released _ | .halted | .woken => True
  | _ => False

def Incident.setTo? (id : Word) : Incident → Option Nat
  | .set j n => if j = id then some n else none
  | _ => none

def Incident.Concerns (id : Word) (e : Incident) : Prop :=
  e = .passed id ∨ e = .released id ∨ ∃ n, e = .set id n

def move (w : WaitingRoom) : Move → WaitingRoom × Incident
  | .enter id => (w.enter id 1, .entered id)
  | .look n => (w.look n, match w.awake[n]? with
    | some id => .ofTurn id (w.referee.p id)
    | none => .aside)
  | .v id => match w.v id with
    | .ok w' => (w', .released id)
    | .error _ => (w, .overflowed id)
  | .setPermits id n => (w.setPermits id n.toNat, .set id n.toNat)
  | .halt => (w.halt, .halted)
  | .report o pid => match w.report o pid with
    | (w', true) => (w', .woken)
    | (w', false) => (w', .aside)
  | .started => ({ w with referee := w.referee.started }, .aside)
  | .ended => (w.ended, .woken)
  | .store i value => ({ w with referee := w.referee.store i value }, .aside)
  | .checkpoint value => ({ w with referee := w.referee.checkpoint value }, .aside)

def moveAll : WaitingRoom → List Move → WaitingRoom
  | w, [] => w
  | w, mv :: moves => moveAll (w.move mv).1 moves

def incidents : WaitingRoom → List Move → List Incident
  | _, [] => []
  | w, mv :: moves => (w.move mv).2 :: incidents (w.move mv).1 moves

theorem moveAll_append (w : WaitingRoom) (first second : List Move) :
    w.moveAll (first ++ second) = (w.moveAll first).moveAll second := by
  induction first generalizing w with
  | nil => rfl
  | cons mv first ih => exact ih (w.move mv).1

theorem moveAll_concat (w : WaitingRoom) (moves : List Move) (mv : Move) :
    w.moveAll (moves ++ [mv]) = ((w.moveAll moves).move mv).1 := by
  rw [moveAll_append]
  rfl

theorem incidents_concat (w : WaitingRoom) (moves : List Move) (mv : Move) :
    w.incidents (moves ++ [mv]) = w.incidents moves ++ [((w.moveAll moves).move mv).2] := by
  induction moves generalizing w with
  | nil => rfl
  | cons first moves ih => exact congrArg ((w.move first).2 :: ·) (ih (w.move first).1)

inductive Moved (w : WaitingRoom) : WaitingRoom → Incident → Prop
  | entered (id : Word) : Moved w (w.enter id 1) (.entered id)
  | passed {n : Nat} {id : Word} : w.awake[n]? = some id → w.referee.halted = false →
      0 < w.referee.permits id →
      Moved w
        { w with
          referee := w.referee.setPermits id (w.referee.permits id - 1)
          awake := w.awake.eraseIdx n
          returned := w.returned ++ [(id, .passed)] } (.passed id)
  | stopped {n : Nat} {id : Word} : w.awake[n]? = some id → w.referee.halted = true →
      Moved w
        { w with awake := w.awake.eraseIdx n, returned := w.returned ++ [(id, .halted)] }
        (.stopped id)
  | slept {n : Nat} {id : Word} : w.awake[n]? = some id → w.referee.halted = false →
      w.referee.permits id = 0 →
      Moved w { w with awake := w.awake.eraseIdx n, asleep := w.asleep ++ [id] } (.slept id)
  | released {id : Word} : w.referee.permits id < Referee.maxPermits →
      Moved w
        { w with referee := w.referee.setPermits id (w.referee.permits id + 1) }.wake (.released id)
  | overflowed {id : Word} : Referee.maxPermits ≤ w.referee.permits id → Moved w w (.overflowed id)
  | set (id : Word) {n : Nat} : n ≤ Referee.maxPermits → Moved w (w.setPermits id n) (.set id n)
  | halted : Moved w w.halt .halted
  | woken {referee : Referee} : referee.permits = w.referee.permits →
      referee.halted = w.referee.halted → Moved w { w with referee }.wake .woken
  | aside {referee : Referee} : referee.permits = w.referee.permits →
      referee.halted = w.referee.halted → Moved w { w with referee } .aside

theorem moved_look (w : WaitingRoom) (n : Nat) :
    w.Moved (w.move (.look n)).1 (w.move (.look n)).2 := by
  cases hn : w.awake[n]? with
  | none =>
    simp only [move, look, hn]
    exact .aside rfl rfl
  | some id =>
    by_cases hh : w.referee.halted
    · simp only [move, look, hn, Referee.p, if_pos hh]
      exact .stopped hn hh
    · have hrun : w.referee.halted = false := by simpa using hh
      by_cases hp : 0 < w.referee.permits id
      · simp only [move, look, hn, Referee.p, if_neg hh, if_pos hp]
        exact .passed hn hrun hp
      · simp only [move, look, hn, Referee.p, if_neg hh, if_neg hp]
        exact .slept hn hrun (by omega)

theorem moved (w : WaitingRoom) (mv : Move) : w.Moved (w.move mv).1 (w.move mv).2 := by
  cases mv with
  | enter id => exact .entered id
  | look n => exact w.moved_look n
  | v id =>
    by_cases hv : w.referee.permits id < Referee.maxPermits
    · simp only [move, v, Referee.v, if_pos hv]
      exact .released hv
    · simp only [move, v, Referee.v, if_neg hv]
      exact .overflowed (Nat.le_of_not_lt hv)
  | setPermits id n => exact .set id (Nat.le_of_lt_succ n.toNat_lt)
  | halt => exact .halted
  | report o pid =>
    cases ho : w.referee.outcome with
    | none =>
      simp only [move, report, Referee.report, ho]
      exact .woken rfl rfl
    | some first =>
      simp only [move, report, Referee.report, ho]
      exact .aside rfl rfl
  | ended => exact .woken rfl rfl
  | started | store | checkpoint => exact .aside rfl rfl

def Incident.settle (id : Word) (n : Nat) : Incident → Nat
  | .passed j => if j = id then n - 1 else n
  | .released j => if j = id then n + 1 else n
  | .set j k => if j = id then k else n
  | _ => n

theorem Incident.settle_of_setTo? {id : Word} {e : Incident} {k : Nat}
    (h : e.setTo? id = some k) (n : Nat) : e.settle id n = k := by
  cases e with
  | set j k' =>
    rw [setTo?] at h
    split at h
    · rename_i hj
      rw [settle, if_pos hj]
      exact Option.some.inj h
    · cases h
  | _ => cases h

variable {w w' : WaitingRoom} {e : Incident}

theorem Moved.permits (h : w.Moved w' e) (id : Word) :
    w'.referee.permits id = e.settle id (w.referee.permits id) := by
  cases h with
  | @passed n j _ _ _ | @released j _ | @set j n _ =>
    by_cases hj : j = id
    · subst hj
      simp [wake, setPermits, Referee.permits_setPermits, Incident.settle]
    · simp [wake, setPermits, Referee.permits_setPermits, Incident.settle, hj, Ne.symm hj]
  | woken hp _ | aside hp _ => exact congrFun hp id
  | entered | stopped | slept | overflowed | halted => rfl

theorem Moved.passed_of (h : w.Moved w' e) {id : Word} (he : e = .passed id) :
    0 < w.referee.permits id ∧ w.referee.halted = false := by
  cases h with
  | passed _ hh hp =>
    cases he
    exact ⟨hp, hh⟩
  | _ => cases he

theorem Moved.balance (h : w.Moved w' e) {id : Word} (hn : e.setTo? id = none) :
    w'.referee.permits id + [e].count (.passed id) =
      w.referee.permits id + [e].count (.released id) := by
  rw [h.permits]
  cases e with
  | passed j =>
    by_cases hj : j = id
    · subst hj
      have hpos := (h.passed_of rfl).1
      simp [Incident.settle]
      omega
    · simp [Incident.settle, hj]
  | released j =>
    by_cases hj : j = id
    · subst hj
      simp [Incident.settle]
    · simp [Incident.settle, hj]
  | set j n =>
    have hj : j ≠ id := by simpa [Incident.setTo?] using hn
    simp [Incident.settle, hj]
  | _ => simp [Incident.settle]

/-- What a semaphore was last set to, zero at first, and what has happened since then. -/
def account (id : Word) (log : List Incident) : Nat × List Incident :=
  sinceLast (Incident.setTo? id) 0 log

theorem conserved (moves : List Move) (id : Word) :
    (fresh.moveAll moves).referee.permits id +
        (account id (fresh.incidents moves)).2.count (.passed id) =
      (account id (fresh.incidents moves)).1 +
        (account id (fresh.incidents moves)).2.count (.released id) := by
  induction moves using List.reverseRecOn with
  | nil => rfl
  | append_singleton moves mv ih =>
    have h := (fresh.moveAll moves).moved mv
    rw [moveAll_concat, incidents_concat]
    cases he : ((fresh.moveAll moves).move mv).2.setTo? id with
    | some n =>
      have hset : (account id (fresh.incidents moves ++ [((fresh.moveAll moves).move mv).2])) =
          (n, []) := sinceLast_concat_of_some he ..
      rw [hset, h.permits, Incident.settle_of_setTo? he]
      rfl
    | none =>
      have hkeep : (account id (fresh.incidents moves ++ [((fresh.moveAll moves).move mv).2])) =
          ((account id (fresh.incidents moves)).1, (account id (fresh.incidents moves)).2 ++
            [((fresh.moveAll moves).move mv).2]) := sinceLast_concat_of_none he ..
      have hstep := h.balance he
      rw [hkeep, List.count_append, List.count_append]
      omega

theorem Moved.bounded (h : w.Moved w' e) {id : Word}
    (hb : w.referee.permits id ≤ Referee.maxPermits) :
    w'.referee.permits id ≤ Referee.maxPermits := by
  rw [h.permits]
  cases h with
  | @passed n j _ _ _ =>
    simp only [Incident.settle]
    split <;> omega
  | @released j hlt =>
    simp only [Incident.settle]
    split
    · rename_i hj
      rw [← hj]
      exact hlt
    · exact hb
  | @set j n hn =>
    simp only [Incident.settle]
    split
    · exact hn
    · exact hb
  | _ => exact hb

theorem bounded (moves : List Move) (id : Word) :
    (fresh.moveAll moves).referee.permits id ≤ Referee.maxPermits := by
  induction moves using List.reverseRecOn with
  | nil => exact Nat.zero_le _
  | append_singleton moves mv ih =>
    rw [moveAll_concat]
    exact ((fresh.moveAll moves).moved mv).bounded ih

theorem Moved.others (h : w.Moved w' e) {id : Word} (he : ¬ e.Concerns id) :
    w'.referee.permits id = w.referee.permits id := by
  rw [h.permits]
  cases e with
  | passed j =>
    have hj : j ≠ id := fun hj => he (Or.inl (hj ▸ rfl))
    exact if_neg hj
  | released j =>
    have hj : j ≠ id := fun hj => he (Or.inr (Or.inl (hj ▸ rfl)))
    exact if_neg hj
  | set j n =>
    have hj : j ≠ id := fun hj => he (Or.inr (Or.inr ⟨n, hj ▸ rfl⟩))
    exact if_neg hj
  | _ => rfl

/-- A P slept on a semaphore when it was set, and nobody has been woken since. -/
def Missed (id : Word) (moves : List Move) : Prop :=
  ∃ before n rest, moves = before ++ .setPermits id n :: rest ∧
    id ∈ (fresh.moveAll before).asleep ∧ 0 < n ∧
    ∀ e ∈ ((fresh.moveAll before).setPermits id n.toNat).incidents rest, ¬ e.Wakes

theorem Missed.concat {id : Word} {moves : List Move} {mv : Move} (h : Missed id moves)
    (hw : ¬ ((fresh.moveAll moves).move mv).2.Wakes) : Missed id (moves ++ [mv]) := by
  obtain ⟨before, n, rest, rfl, hid, hn, hrest⟩ := h
  refine ⟨before, n, rest ++ [mv], by simp, hid, hn, ?_⟩
  rw [moveAll_append] at hw
  rw [incidents_concat]
  intro e he
  rcases List.mem_append.mp he with he | he
  · exact hrest e he
  · obtain rfl := List.mem_singleton.mp he
    exact hw

theorem Moved.asleep (h : w.Moved w' e) {id : Word} (hid : id ∈ w'.asleep) :
    ¬ e.Wakes ∧ (id ∈ w.asleep ∨ e = .slept id ∧ w.referee.permits id = 0) := by
  cases h with
  | @slept n j _ _ hp =>
    rcases List.mem_append.mp hid with hid | hid
    · exact ⟨nofun, Or.inl hid⟩
    · obtain rfl := List.mem_singleton.mp hid
      exact ⟨nofun, Or.inr ⟨rfl, hp⟩⟩
  | released _ | halted | woken _ _ => simp [wake, halt] at hid
  | _ => exact ⟨nofun, Or.inl hid⟩

theorem setPermits_of_set {mv : Move} {id : Word} {k : Nat} (h : (w.move mv).2 = .set id k) :
    ∃ n : UInt32, mv = .setPermits id n ∧ k = n.toNat := by
  cases mv with
  | setPermits j n =>
    cases h
    exact ⟨n, rfl, rfl⟩
  | look n =>
    simp only [move] at h
    split at h
    · rename_i j _
      cases ht : w.referee.p j <;> rw [ht] at h <;> cases h
    · cases h
  | v j =>
    simp only [move] at h
    split at h <;> cases h
  | report o pid =>
    simp only [move] at h
    split at h <;> cases h
  | _ => cases h

theorem asleep_cases (moves : List Move) {id : Word} (hid : id ∈ (fresh.moveAll moves).asleep) :
    (fresh.moveAll moves).referee.permits id = 0 ∨ Missed id moves := by
  induction moves using List.reverseRecOn with
  | nil => cases hid
  | append_singleton moves mv ih =>
    rw [moveAll_concat] at hid ⊢
    have h := (fresh.moveAll moves).moved mv
    obtain ⟨hwakes, hold | ⟨he, hzero⟩⟩ := h.asleep hid
    · rcases ih hold with hzero | hmissed
      · rw [h.permits, hzero]
        cases he : ((fresh.moveAll moves).move mv).2 with
        | set j k =>
          by_cases hj : j = id
          · subst hj
            obtain ⟨n, rfl, rfl⟩ := setPermits_of_set he
            rcases Nat.eq_zero_or_pos n.toNat with hn | hn
            · exact Or.inl (by simp [Incident.settle, hn])
            · exact Or.inr ⟨moves, n, [], rfl, hold, UInt32.lt_iff_toNat_lt.mpr hn, nofun⟩
          · exact Or.inl (if_neg hj)
        | released j =>
          rw [he] at hwakes
          exact absurd trivial hwakes
        | passed j => exact Or.inl (ite_self 0)
        | _ => exact Or.inl rfl
      · exact Or.inr (hmissed.concat hwakes)
    · left
      rw [h.permits, he]
      exact hzero

theorem Moved.stays_halted (h : w.Moved w' e) (hh : w.referee.halted = true) (hs : w.asleep = []) :
    w'.referee.halted = true ∧ w'.asleep = [] := by
  cases h with
  | passed _ hrun _ | slept _ hrun _ =>
    rw [hh] at hrun
    cases hrun
  | halted => exact ⟨rfl, rfl⟩
  | woken _ hsame => exact ⟨hsame.trans hh, rfl⟩
  | released _ => exact ⟨hh, rfl⟩
  | aside _ hsame => exact ⟨hsame.trans hh, hs⟩
  | _ => exact ⟨hh, hs⟩

theorem halted_of_halt (moves : List Move) (h : .halt ∈ moves) :
    (fresh.moveAll moves).referee.halted = true ∧ (fresh.moveAll moves).asleep = [] := by
  induction moves using List.reverseRecOn with
  | nil => cases h
  | append_singleton moves mv ih =>
    rw [moveAll_concat]
    rcases List.mem_append.mp h with h | h
    · obtain ⟨hh, hs⟩ := ih h
      exact ((fresh.moveAll moves).moved mv).stays_halted hh hs
    · obtain rfl := List.mem_singleton.mp h
      exact ⟨rfl, rfl⟩

/-- What holds of the semaphores after some moves. -/
structure Accounted (moves : List Move) : Prop where
  conserved : ∀ id, (fresh.moveAll moves).referee.permits id +
      (account id (fresh.incidents moves)).2.count (.passed id) =
    (account id (fresh.incidents moves)).1 +
      (account id (fresh.incidents moves)).2.count (.released id)
  covered : ∀ id, (account id (fresh.incidents moves)).2.count (.passed id) ≤
    (account id (fresh.incidents moves)).1 +
      (account id (fresh.incidents moves)).2.count (.released id)
  passing : ∀ id mv, ((fresh.moveAll moves).move mv).2 = .passed id →
    0 < (fresh.moveAll moves).referee.permits id ∧ (fresh.moveAll moves).referee.halted = false
  others : ∀ id mv, ¬ ((fresh.moveAll moves).move mv).2.Concerns id →
    ((fresh.moveAll moves).move mv).1.referee.permits id = (fresh.moveAll moves).referee.permits id
  asleep : ∀ id ∈ (fresh.moveAll moves).asleep,
    (fresh.moveAll moves).referee.permits id = 0 ∨ Missed id moves
  /-- Nobody sleeps in a halted room, and every P that looks is stopped. -/
  halted : .halt ∈ moves → (fresh.moveAll moves).referee.halted = true ∧
    (fresh.moveAll moves).asleep = [] ∧
    ∀ n id, (fresh.moveAll moves).awake[n]? = some id →
      (fresh.moveAll moves).move (.look n) =
        ({ fresh.moveAll moves with
            awake := (fresh.moveAll moves).awake.eraseIdx n
            returned := (fresh.moveAll moves).returned ++ [(id, .halted)] }, .stopped id)
  bounded : ∀ id, (fresh.moveAll moves).referee.permits id ≤ Referee.maxPermits
  overfull : ∀ id, (fresh.moveAll moves).referee.permits id = Referee.maxPermits →
    (fresh.moveAll moves).move (.v id) = (fresh.moveAll moves, .overflowed id)

theorem accounted (moves : List Move) : Accounted moves where
  conserved := conserved moves
  covered id := by
    have h := conserved moves id
    omega
  passing _ mv h := ((fresh.moveAll moves).moved mv).passed_of h
  others _ mv h := ((fresh.moveAll moves).moved mv).others h
  asleep _ h := asleep_cases moves h
  halted h := by
    obtain ⟨hh, hs⟩ := halted_of_halt moves h
    refine ⟨hh, hs, fun n id hn => ?_⟩
    simp only [move, look, hn, Referee.p, if_pos hh]
    rfl
  bounded := bounded moves
  overfull id h := by
    have hv : ¬ (fresh.moveAll moves).referee.permits id < Referee.maxPermits := by omega
    simp only [move, v, Referee.v, if_neg hv]
    rfl

end WaitingRoom

end KernelExam

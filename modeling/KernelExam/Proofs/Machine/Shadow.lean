import KernelExam.Proofs.Machine.Kinship
import KernelExam.Proofs.Machine.Frame
import KernelExam.Proofs.Machine.Locality

/-!
# Machines that a caller cannot tell apart

Of two machines the second may be ahead of the first: a process has taken its number
already, or has left. A civil call asks for none of it. It has the same answer on both
machines and the second stays ahead of the first, unless the call waits on the first
for a process that has left on the second.
-/

set_option autoImplicit false

namespace KernelExam

def Slot.isParameter (i : Word) : Bool := 0 ≤ i && i < Slot.random.index

def Slot.isConstant (i : Word) : Bool :=
  Slot.random.index ≤ i && i ≤ Slot.testId.index && i != Slot.processCount.index

theorem Slot.ne_processCount {i : Word} (h : Slot.isParameter i = true ∨ Slot.isConstant i = true) :
    i ≠ Slot.processCount.index := by
  rintro rfl
  revert h
  decide

theorem Slot.ne_of_isConstant {i j : Word} (hi : Slot.isConstant i = true)
    (hj : Slot.isParameter j = true) : i ≠ j := by
  rintro rfl
  simp only [isConstant, isParameter, Bool.and_eq_true, decide_eq_true_eq] at hi hj
  exact absurd hj.2 (Int32.not_lt.mpr hi.1.1)

/-- Calls that leave the process count, the process lock and the constant slots alone. -/
def Call.civil : Call → Bool
  | .ask request a0 a1 => match Request.ofCode? request with
    | some .loadWord | some .storeWord => Slot.isParameter a0
    | some .p | some .v => a0 != Semaphore.processLock.id
    | some .fileExists => 0 ≤ a0.toInt && a0.toInt + a1.toInt ≤ Slot.parameters
    | some .done | some .fail | some .checkpoint | none => true
  | _ => true

inductive Leaving : Option ProcessState → Option ProcessState → Prop
  | same (o : Option ProcessState) : Leaving o o
  | left {p : ProcessState} (status : Word) : p.termination = none → p.cwd = "/" →
      Leaving (some p) (some (ProcessTable.ended (.exited status) p))

/-- The second referee may be ahead with the process count and the process lock. -/
structure Referee.Shadows (x y : Referee) : Prop where
  outcome : y.outcome = x.outcome
  checkpoints : y.checkpoints = x.checkpoints
  halted : y.halted = x.halted
  slots : ∀ i, i ≠ Slot.processCount.index → y.slots i = x.slots i
  permits : ∀ id, id ≠ Semaphore.processLock.id → y.permits id = x.permits id

structure Referee.Spares (x x' : Referee) : Prop where
  count : x'.slots Slot.processCount.index = x.slots Slot.processCount.index
  lock : x'.permits Semaphore.processLock.id = x.permits Semaphore.processLock.id
  constants : ∀ i, Slot.isConstant i = true → x'.slots i = x.slots i

theorem Referee.Spares.refl (x : Referee) : x.Spares x := ⟨rfl, rfl, fun _ _ => rfl⟩

namespace Machine

structure Shadows (m n : Machine) : Prop where
  registry : n.registry = m.registry
  files : n.files = m.files
  stdin : n.stdin = m.stdin
  stdout : n.stdout = m.stdout
  booted : n.booted = m.booted
  referee : m.referee.Shadows n.referee
  started : n.processes.slots.length = m.processes.slots.length
  tasks : m.tasks.length = m.processes.slots.length ∧ n.tasks.length = m.processes.slots.length
  entries : ∀ q, Leaving (m.processes.get? q) (n.processes.get? q)

/-- What becomes of the two machines in a call of `r`: its own entry and those of the dead and
of the newborn are the same on both, and the other entries stay as they are. -/
structure Parallel (r : Int) (m n m' n' : Machine) : Prop where
  shadows : m'.Shadows n'
  own : n'.processes.get? r = m'.processes.get? r
  living : ∀ q, m.alive q = true → m'.alive q = true
  others : ∀ q, q ≠ r → m.alive q = true →
    m'.processes.get? q = m.processes.get? q ∧ n'.processes.get? q = n.processes.get? q
  rest : ∀ q, m.alive q = false → n'.processes.get? q = m'.processes.get? q
  kept : ∀ q t, (m.task? q = some t → m'.task? q = some t) ∧
    (n.task? q = some t → n'.task? q = some t)
  born : ∀ q, m.alive q = false → m'.alive q = true →
    ∃ t, m'.task? q = some t ∧ n'.task? q = some t
  spared : m.referee.Spares m'.referee ∧ n.referee.Spares n'.referee

variable {m n : Machine} {r : Int} {p : ProcessState}

theorem Shadows.eq_recast (h : m.Shadows n) : n = m.recast n.processes n.tasks n.referee := by
  obtain ⟨hregistry, hfiles, hstdin, hstdout, hbooted, -⟩ := h
  cases n
  dsimp only at hregistry hfiles hstdin hstdout hbooted
  subst hregistry hfiles hstdin hstdout hbooted
  rfl

theorem Shadows.get?_of_dead (h : m.Shadows n) {q : Int} (hq : m.alive q = false) :
    n.processes.get? q = m.processes.get? q := by
  have hentry := h.entries q
  generalize ho : m.processes.get? q = o at hentry
  generalize ho' : n.processes.get? q = o' at hentry
  cases hentry with
  | same _ => rfl
  | left status hlive _ =>
    have ha := (alive_iff m q).mpr ⟨_, ho, hlive⟩
    rw [hq] at ha
    cases ha

theorem alive_bear {d : Deed} (hd : d.Harmless) (m : Machine) (r q : Int) :
    (m.bear r d).alive q = m.alive q := by
  rw [Bool.eq_iff_iff, alive_iff, alive_iff]
  have hget : (m.bear r d).processes.get? q =
      if q = r then (m.processes.get? q).map d.change else m.processes.get? q :=
    ProcessTable.get?_modify ..
  rw [hget]
  split
  · constructor
    · rintro ⟨p, hp, hlive⟩
      obtain ⟨p₀, hp₀, rfl⟩ := Option.map_eq_some_iff.mp hp
      exact ⟨p₀, hp₀, (hd p₀).2 ▸ hlive⟩
    · rintro ⟨p₀, hp₀, hlive⟩
      exact ⟨d.change p₀, by rw [hp₀]; rfl, (hd p₀).2.trans hlive⟩
  · exact Iff.rfl

theorem Shadows.bear (h : m.Shadows n) (hown : n.processes.get? r = m.processes.get? r) {d : Deed}
    (hd : d.Harmless) : Parallel r m n (m.bear r d) (n.bear r d) := by
  have hget : ∀ (m : Machine) q, (m.bear r d).processes.get? q =
      if q = r then (m.processes.get? q).map d.change else m.processes.get? q :=
    fun m q => ProcessTable.get?_modify ..
  have hlength : ∀ m : Machine, (m.bear r d).processes.slots.length = m.processes.slots.length :=
    fun m => ProcessTable.length_modify ..
  have hsame : (n.bear r d).processes.get? r = (m.bear r d).processes.get? r := by
    rw [hget, hget, hown]
  constructor
  · refine { h with files := rfl, stdin := rfl, stdout := rfl, started := ?_, tasks := ?_, entries := ?_ }
    · rw [hlength, hlength, h.started]
    · rw [hlength]
      exact h.tasks
    · intro q
      by_cases hq : q = r
      · rw [hq, hsame]
        exact .same _
      · rw [hget, hget, if_neg hq, if_neg hq]
        exact h.entries q
  · exact hsame
  · intro q hq
    rw [alive_bear hd, hq]
  · intro q hq _
    rw [hget, hget, if_neg hq, if_neg hq]
    exact ⟨rfl, rfl⟩
  · intro q hq
    rw [hget, hget, h.get?_of_dead hq]
  · exact fun q t => ⟨id, id⟩
  · intro q hq hq'
    rw [alive_bear hd, hq] at hq'
    cases hq'
  · exact ⟨.refl _, .refl _⟩

theorem Shadows.with_referee (h : m.Shadows n) (hown : n.processes.get? r = m.processes.get? r)
    {x y : Referee} (hxy : x.Shadows y) (hx : m.referee.Spares x) (hy : n.referee.Spares y) :
    Parallel r m n { m with referee := x } { n with referee := y } := by
  refine ⟨{ h with referee := hxy }, hown, fun _ hq => hq, fun _ _ _ => ⟨rfl, rfl⟩,
    fun q hq => h.get?_of_dead hq, fun _ _ => ⟨id, id⟩, ?_, hx, hy⟩
  intro q hq hq'
  cases hq.symm.trans hq'

theorem Shadows.unchanged (h : m.Shadows n) (hown : n.processes.get? r = m.processes.get? r) :
    Parallel r m n m n := h.with_referee hown h.referee (.refl _) (.refl _)

end Machine

namespace Referee.Shadows

variable {x y : Referee}

theorem bytesUntilNul (h : x.Shadows y) (i : Word) (k : Nat) (hlow : 0 ≤ i.toInt)
    (hhigh : i.toInt + k ≤ Slot.parameters) : y.bytesUntilNul i k = x.bytesUntilNul i k := by
  induction k generalizing i with
  | zero => rfl
  | succ k ih =>
    have hi : i ≠ Slot.processCount.index := by
      rintro rfl
      have hcount : Slot.processCount.index.toInt = 14 := by decide
      have hparameters : Slot.parameters = 9 := rfl
      omega
    have hload : y.load i = x.load i := h.slots i hi
    have hnext : (i + 1).toInt = i.toInt + 1 := by
      have hparameters : Slot.parameters = 9 := rfl
      have hone : (1 : Word).toInt = 1 := by decide
      rw [Int32.toInt_add, hone, Int.bmod_eq_of_le]
      · omega
      · omega
    rw [Referee.bytesUntilNul, Referee.bytesUntilNul, hload, ih (i + 1)]
    · omega
    · rw [hnext]
      omega

theorem text (h : x.Shadows y) (i : Word) (k : Nat) (hlow : 0 ≤ i.toInt)
    (hhigh : i.toInt + k ≤ Slot.parameters) : y.text i k = x.text i k := by
  rw [Referee.text, Referee.text, h.bytesUntilNul i k hlow hhigh]

theorem setPermits (h : x.Shadows y) (id : Word) (k : Nat) :
    (x.setPermits id k).Shadows (y.setPermits id k) := by
  refine { h with permits := ?_ }
  intro other hother
  rw [permits_setPermits, permits_setPermits, h.permits other hother]

theorem store (h : x.Shadows y) (i w : Word) : (x.store i w).Shadows (y.store i w) := by
  refine { h with slots := ?_ }
  intro j hj
  show (y.store i w).load j = (x.store i w).load j
  rw [load_store, load_store]
  show (if j = i then w else y.slots j) = if j = i then w else x.slots j
  rw [h.slots j hj]

end Referee.Shadows

namespace Referee

theorem spares_setPermits (x : Referee) {id : Word} (hid : id ≠ Semaphore.processLock.id) (k : Nat) :
    x.Spares (x.setPermits id k) :=
  ⟨rfl, by rw [permits_setPermits, if_neg (Ne.symm hid)], fun _ _ => rfl⟩

theorem spares_store (x : Referee) {i : Word} (hi : Slot.isParameter i = true) (w : Word) :
    x.Spares (x.store i w) := by
  refine ⟨if_neg ?_, rfl, fun j hj => if_neg ?_⟩
  · exact (Slot.ne_processCount (.inl hi)).symm
  · exact Slot.ne_of_isConstant hj hi

end Referee

namespace Machine

variable {m n : Machine} {r : Int} {p : ProcessState}

def Agree {α : Type} (r : Int) (m n : Machine) (x y : Machine × Reaction α) : Prop :=
  y.2 = x.2 ∧ ∀ a, x.2 = .answer a → Parallel r m n x.1 y.1

theorem Agree.intro {α : Type} {m' n' : Machine} {x y : Reaction α} (h : y = x)
    (hparallel : Parallel r m n m' n') : Agree r m n (m', x) (n', y) :=
  ⟨h, fun _ _ => hparallel⟩

theorem Shadows.fileExists (h : m.Shadows n) (path : String) : n.fileExists path = m.fileExists path := by
  rw [Machine.fileExists, Machine.fileExists, h.files]

theorem Shadows.report (h : m.Shadows n) (hown : n.processes.get? r = m.processes.get? r)
    (o : Outcome) : Parallel r m n (m.report o r) (n.report o r) := by
  have hsame := h.referee.outcome
  rw [Machine.report, Machine.report, Referee.report, Referee.report, hsame]
  cases m.referee.outcome with
  | some made => exact h.unchanged hown
  | none =>
    have hxy : ({ m.referee with outcome := some (o, r), halted := true } : Referee).Shadows
        { n.referee with outcome := some (o, r), halted := true } :=
      { h.referee with outcome := rfl, halted := rfl }
    exact h.with_referee hown hxy ⟨rfl, rfl, fun _ _ => rfl⟩ ⟨rfl, rfl, fun _ _ => rfl⟩

theorem Shadows.ask (h : m.Shadows n) (hown : n.processes.get? r = m.processes.get? r)
    {request a0 a1 : Word} (hc : (Call.ask request a0 a1).civil = true) :
    Agree r m n (m.ask r request a0 a1) (n.ask r request a0 a1) := by
  rw [Call.civil] at hc
  cases hr : Request.ofCode? request with
  | none =>
    simp only [Machine.ask, hr]
    exact .intro rfl (h.unchanged hown)
  | some q =>
    simp only [hr] at hc
    simp only [Machine.ask, hr]
    cases q with
    | checkpoint =>
      have hxy : (m.referee.checkpoint a0).Shadows (n.referee.checkpoint a0) :=
        { h.referee with checkpoints := congrArg (· ++ [a0]) h.referee.checkpoints }
      exact .intro rfl (h.with_referee hown hxy ⟨rfl, rfl, fun _ _ => rfl⟩ ⟨rfl, rfl, fun _ _ => rfl⟩)
    | fileExists =>
      simp only [Bool.and_eq_true, decide_eq_true_eq] at hc
      simp only [existsInSlots]
      by_cases hneg : a1 < 0
      · simp only [if_pos hneg]
        exact .intro rfl (h.unchanged hown)
      · simp only [if_neg hneg]
        have hwords : 0 ≤ a1.toInt := by
          rw [Int32.not_lt, Int32.le_iff_toInt_le] at hneg
          exact hneg
        rw [h.referee.text a0 _ hc.1 (by omega)]
        cases m.referee.text a0 a1.toInt.toNat with
        | error f => exact .intro rfl (h.unchanged hown)
        | ok name =>
          simp only [h.fileExists]
          exact .intro rfl (h.unchanged hown)
    | fail => exact .intro rfl (h.report hown .fail)
    | done => exact .intro rfl (h.report hown .done)
    | loadWord =>
      refine .intro ?_ (h.unchanged hown)
      show Reaction.answer (n.referee.slots a0) = Reaction.answer (m.referee.slots a0)
      rw [h.referee.slots a0 (Slot.ne_processCount (.inl hc))]
    | storeWord =>
      exact .intro rfl (h.with_referee hown (h.referee.store a0 a1) (m.referee.spares_store hc a1)
        (n.referee.spares_store hc a1))
    | v =>
      have hid : a0 ≠ Semaphore.processLock.id := by simpa using hc
      simp only [Referee.v, h.referee.permits a0 hid]
      by_cases hv : m.referee.permits a0 < Referee.maxPermits
      · simp only [if_pos hv]
        exact .intro rfl (h.with_referee hown (h.referee.setPermits a0 _)
          (m.referee.spares_setPermits hid _) (n.referee.spares_setPermits hid _))
      · simp only [if_neg hv]
        exact .intro rfl (h.unchanged hown)
    | p =>
      have hid : a0 ≠ Semaphore.processLock.id := by simpa using hc
      simp only [Referee.p, h.referee.permits a0 hid, h.referee.halted]
      by_cases hh : m.referee.halted
      · simp only [if_pos hh]
        exact .intro rfl (h.unchanged hown)
      · by_cases hp : 0 < m.referee.permits a0
        · simp only [if_neg hh, if_pos hp]
          exact .intro rfl (h.with_referee hown (h.referee.setPermits a0 _)
            (m.referee.spares_setPermits hid _) (n.referee.spares_setPermits hid _))
        · simp only [if_neg hh, if_neg hp]
          exact .intro rfl (h.unchanged hown)

theorem Shadows.reap (h : m.Shadows n) (hown : n.processes.get? r = m.processes.get? r)
    {child : Int} {p : ProcessState} {how : Termination} (hp : m.processes.get? child = some p)
    (hend : p.termination = some how) :
    Parallel r m n { m with processes := m.processes.reap child }
      { n with processes := n.processes.reap child } := by
  have hdead : ∀ q, m.alive q = true → q ≠ child := by
    rintro q hq rfl
    obtain ⟨p', hp', hlive⟩ := (alive_iff m q).mp hq
    obtain rfl := Option.some.inj (hp.symm.trans hp')
    cases hend.symm.trans hlive
  have hlength : ∀ t : ProcessTable, (t.reap child).slots.length = t.slots.length :=
    fun t => ProcessTable.length_put ..
  have hkin : m.processes.kin? child = some (p.parent, some how) :=
    (ProcessTable.kin?_eq_some_iff ..).mpr ⟨p, hp, rfl, hend⟩
  constructor
  · refine { h with started := ?_, tasks := ?_, entries := ?_ }
    · show (n.processes.reap child).slots.length = (m.processes.reap child).slots.length
      rw [hlength, hlength, h.started]
    · show m.tasks.length = (m.processes.reap child).slots.length ∧
        n.tasks.length = (m.processes.reap child).slots.length
      rw [hlength]
      exact h.tasks
    · intro q
      dsimp only
      rw [ProcessTable.get?_reap, ProcessTable.get?_reap]
      split
      · exact .same none
      · exact h.entries q
  · dsimp only
    rw [ProcessTable.get?_reap, ProcessTable.get?_reap, hown]
  · intro q hq
    rw [alive_reap hkin, hq]
  · intro q _ hq
    dsimp only
    rw [ProcessTable.get?_reap, ProcessTable.get?_reap, if_neg (hdead q hq), if_neg (hdead q hq)]
    exact ⟨rfl, rfl⟩
  · intro q hq
    dsimp only
    rw [ProcessTable.get?_reap, ProcessTable.get?_reap, h.get?_of_dead hq]
  · exact fun _ _ => ⟨id, id⟩
  · intro q hq hq'
    rw [alive_reap hkin, hq] at hq'
    cases hq'
  · exact ⟨.refl _, .refl _⟩

def Outstripped (m n : Machine) : Prop :=
  ∃ q, m.alive q = true ∧ n.processes.get? q ≠ m.processes.get? q

theorem Shadows.join (h : m.Shadows n) (hown : n.processes.get? r = m.processes.get? r)
    (child status : Word) : ((m.join r child status).2 = .blocked ∧ Outstripped m n) ∨
      Agree r m n (m.join r child status) (n.join r child status) := by
  have hentry := h.entries child.toInt
  generalize ho : m.processes.get? child.toInt = o at hentry
  generalize ho' : n.processes.get? child.toInt = o' at hentry
  cases hentry with
  | @left p how hlive hcwd =>
    by_cases hparent : p.parent = some r
    · left
      simp only [Machine.join, ho, if_pos hparent, hlive]
      refine ⟨trivial, child.toInt, (alive_iff ..).mpr ⟨p, ho, hlive⟩, ?_⟩
      rw [ho, ho']
      intro heq
      have hended := ProcessTable.termination_ended (.exited how) p
      rw [Option.some.inj heq, hlive] at hended
      cases hended
    · right
      have hparent' : (ProcessTable.ended (.exited how) p).parent ≠ some r := by
        rw [ProcessTable.ended]
        split <;> exact hparent
      simp only [Machine.join, ho, ho', if_neg hparent, if_neg hparent']
      exact .intro rfl (h.unchanged hown)
  | same _ =>
    right
    cases o with
    | none =>
      simp only [Machine.join, ho, ho']
      exact .intro rfl (h.unchanged hown)
    | some p =>
      by_cases hparent : p.parent = some r
      · simp only [Machine.join, ho, ho', if_pos hparent]
        rcases hend : p.termination with _ | code | _ | _
        · exact .intro rfl (h.unchanged hown)
        · exact .intro rfl (h.reap hown ho hend)
        · exact .intro rfl (h.reap hown ho hend)
        · exact .intro rfl (h.reap hown ho hend)
      · simp only [Machine.join, ho, ho', if_neg hparent]
        exact .intro rfl (h.unchanged hown)

theorem inUse_iff (m : Machine) (path : String) : m.inUse path = true ↔
    ∃ q p, m.processes.get? q = some p ∧ p.termination = none ∧ p.cwd = path := by
  rw [inUse, List.any_eq_true]
  constructor
  · rintro ⟨_ | p, hmem, hp⟩
    · cases hp
    · obtain ⟨q, hq⟩ := (ProcessTable.mem_slots_iff _ p).mp hmem
      simp only [Option.any_some, Bool.and_eq_true, Option.isNone_iff_eq_none,
        decide_eq_true_eq] at hp
      exact ⟨q, p, hq, hp⟩
  · rintro ⟨q, p, hq, hlive, hcwd⟩
    exact ⟨some p, (ProcessTable.mem_slots_iff _ p).mpr ⟨q, hq⟩, by simp [hlive, hcwd]⟩

theorem Shadows.inUse (h : m.Shadows n) {path : String} (hroot : path ≠ "/") :
    n.inUse path = m.inUse path := by
  rw [Bool.eq_iff_iff, inUse_iff, inUse_iff]
  constructor
  · rintro ⟨q, p, hq, hlive, hcwd⟩
    have hentry := h.entries q
    rw [hq] at hentry
    generalize ho : m.processes.get? q = o at hentry
    cases hentry with
    | same _ => exact ⟨q, p, ho, hlive, hcwd⟩
    | @left p₀ status _ _ =>
      have hended := ProcessTable.termination_ended (.exited status) p₀
      rw [hlive] at hended
      cases hended
  · rintro ⟨q, p, hq, hlive, hcwd⟩
    have hentry := h.entries q
    rw [hq] at hentry
    generalize ho : n.processes.get? q = o at hentry
    cases hentry with
    | same _ => exact ⟨q, p, ho, hlive, hcwd⟩
    | left status _ hcwd' => exact absurd (hcwd.symm.trans hcwd') hroot

theorem rmdir_of_inUse {q : String} (h : m.inUse q = true) : m.rmdir q = (m, .error .inUse) := by
  rw [Machine.rmdir, if_pos h]

theorem rmdir_of_free {q : String} (h : m.inUse q = false) :
    m.rmdir q = ({ m with files := (m.files.rmdir q).1 }, (m.files.rmdir q).2) := by
  simp only [Machine.rmdir, h, Bool.false_eq_true, if_false]

theorem rmdir_root (m : Machine) : ∃ e, m.rmdir "/" = (m, .error e) := by
  cases huse : m.inUse "/" with
  | true => exact ⟨_, rmdir_of_inUse huse⟩
  | false =>
    have hroot : m.files.rmdir "/" = (m.files, .error .invalidPath) := rfl
    rw [rmdir_of_free huse, hroot]
    exact ⟨_, rfl⟩

theorem Shadows.with_files (h : m.Shadows n) (hown : n.processes.get? r = m.processes.get? r)
    (files : FileSystem) : Parallel r m n { m with files } { n with files } := by
  have hn : ({ n with files, stdin := m.stdin, stdout := m.stdout } : Machine) =
      { n with files } := by
    rw [← h.stdin, ← h.stdout]
  have hbear := h.bear hown (d := ⟨files, m.stdin, m.stdout, id⟩) fun _ => ⟨rfl, rfl⟩
  rw [bear_id, bear_id, hn] at hbear
  exact hbear

theorem Shadows.rmdir (h : m.Shadows n) (hown : n.processes.get? r = m.processes.get? r)
    (path : String) : Agree r m n (m.onPath r path m.rmdir) (n.onPath r path n.rmdir) := by
  have hresolve : n.resolve r path = m.resolve r path := by
    rw [resolve, resolve, hown]
  rw [onPath, onPath, hresolve]
  cases m.resolve r path with
  | none => exact .intro rfl (h.unchanged hown)
  | some q =>
    by_cases hroot : q = "/"
    · obtain ⟨e, hm⟩ := m.rmdir_root
      obtain ⟨e', hn⟩ := n.rmdir_root
      simp only [hroot, hm, hn]
      exact .intro rfl (h.unchanged hown)
    · have huse := h.inUse hroot
      cases hm : m.inUse q with
      | true =>
        rw [hm] at huse
        simp only [rmdir_of_inUse hm, rmdir_of_inUse huse]
        exact .intro rfl (h.unchanged hown)
      | false =>
        rw [hm] at huse
        simp only [rmdir_of_free hm, rmdir_of_free huse, h.files]
        rcases m.files.rmdir q with ⟨files, e | _⟩
        · exact .intro rfl (h.with_files hown files)
        · exact .intro rfl (h.with_files hown files)

theorem spawn_beside {t u : ProcessTable} (h : u.slots.length = t.slots.length)
    (parent : Option Pid) (cwd : String) :
    (∃ f, t.spawn parent cwd = .error f ∧ u.spawn parent cwd = .error f) ∨
      ∃ t' u' child, t.spawn parent cwd = .ok (t', child) ∧ u.spawn parent cwd = .ok (u', child) := by
  rw [ProcessTable.spawn, ProcessTable.spawn, h]
  split
  · exact Or.inl ⟨_, rfl, rfl⟩
  · exact Or.inr ⟨_, _, _, rfl, rfl⟩

theorem Shadows.spawn (h : m.Shadows n) (hown : n.processes.get? r = m.processes.get? r)
    {parent : Option Pid} {cwd : String} {t u : ProcessTable} {child : Int}
    (hm : m.processes.spawn parent cwd = .ok (t, child))
    (hn : n.processes.spawn parent cwd = .ok (u, child)) (task : Task) :
    Parallel r m n
      { m with processes := t, referee := m.referee.started, tasks := m.tasks ++ [some task] }
      { n with processes := u, referee := n.referee.started, tasks := n.tasks ++ [some task] } := by
  obtain ⟨hchild, -, hslots⟩ := ProcessTable.spawn_ok hm
  obtain ⟨-, -, hslots'⟩ := ProcessTable.spawn_ok hn
  have henters := enters_of_spawn hm (some task)
  have hnew : ∀ q, m.alive q = true → q ≠ child := by
    rintro q hq rfl
    exact henters.not_alive hq
  constructor
  · refine { h with referee := { h.referee with }, started := ?_, tasks := ?_, entries := ?_ }
    · simp only [hslots, hslots', List.length_append, h.started]
    · simp only [hslots, List.length_append, h.tasks.1, h.tasks.2, List.length_singleton, and_self]
    · intro q
      dsimp only
      rw [ProcessTable.get?_spawn hm, ProcessTable.get?_spawn hn]
      split
      · exact .same _
      · exact h.entries q
  · dsimp only
    rw [ProcessTable.get?_spawn hm, ProcessTable.get?_spawn hn, hown]
  · intro q hq
    exact henters.alive_iff.mpr (Or.inr hq)
  · intro q _ hq
    dsimp only
    rw [ProcessTable.get?_spawn hm, ProcessTable.get?_spawn hn, if_neg (hnew q hq), if_neg (hnew q hq)]
    exact ⟨rfl, rfl⟩
  · intro q hq
    dsimp only
    rw [ProcessTable.get?_spawn hm, ProcessTable.get?_spawn hn, h.get?_of_dead hq]
  · exact fun q t => ⟨task?_append rfl, task?_append rfl⟩
  · intro q hq hq'
    rcases henters.alive_iff.mp hq' with rfl | hold
    · rw [hchild, ← h.tasks.1]
      refine ⟨task, task?_last rfl, ?_⟩
      rw [h.tasks.1, ← h.tasks.2]
      exact task?_last rfl
    · cases hq.symm.trans hold
  · exact ⟨⟨rfl, rfl, fun _ _ => rfl⟩, ⟨rfl, rfl, fun _ _ => rfl⟩⟩

theorem Shadows.exec (h : m.Shadows n) (hown : n.processes.get? r = m.processes.get? r)
    (path : String) (args : List String) :
    Agree r m n (m.exec r path args) (n.exec r path args) := by
  rw [Machine.exec, Machine.exec]
  by_cases hlong : pageSize < argumentBytes args
  · rw [if_pos hlong, if_pos hlong]
    exact .intro rfl (h.unchanged hown)
  · have hlookup : n.registry.lookup (Path.dropSlashes path) =
        m.registry.lookup (Path.dropSlashes path) := by rw [h.registry]
    rw [if_neg hlong, if_neg hlong, launch, launch, hlookup]
    cases m.registry.lookup (Path.dropSlashes path) with
    | none => exact .intro rfl (h.unchanged hown)
    | some image =>
      have hcwd : n.startingCwd (some r) = m.startingCwd (some r) := by
        rw [startingCwd, startingCwd, Option.bind_some, Option.bind_some, hown]
      dsimp only
      rw [← startingCwd, ← startingCwd, hcwd]
      rcases spawn_beside h.started (some r) (m.startingCwd (some r)) with
        ⟨f, hm, hn⟩ | ⟨t, u, child, hm, hn⟩
      · simp only [hm, hn]
        exact .intro rfl (h.unchanged hown)
      · simp only [hm, hn]
        by_cases hzero : 0 ∈ label path child
        · simp only [if_pos hzero]
          exact ⟨rfl, by simp⟩
        · simp only [if_neg hzero]
          exact .intro rfl (h.spawn hown hm hn _)

/-- A civil call has the same answer on both machines, and the second stays ahead. -/
theorem Shadows.serve (h : m.Shadows n) (hp : m.processes.get? r = some p)
    (hown : n.processes.get? r = m.processes.get? r) {c : Call}
    (hc : c.civil = true) : ((m.serve r c).2 = .blocked ∧ Outstripped m n) ∨
      Agree r m n (m.serve r c) (n.serve r c) := by
  by_cases hlocal : c.Local
  · right
    obtain ⟨d, a, hd, hall⟩ := m.serve_local r p hlocal
    have hm : m.serve r c = (m.bear r d, .answer a) := hall m.processes m.tasks m.referee hp
    have hn : n.serve r c = (n.bear r d, .answer a) := by
      rw [h.eq_recast]
      exact hall n.processes n.tasks n.referee (hown.trans hp)
    rw [hm, hn]
    exact .intro rfl (h.bear hown hd)
  · cases c with
    | ask request a0 a1 => exact Or.inr (h.ask hown hc)
    | join child status => exact h.join hown child status
    | exec path args => exact Or.inr (h.exec hown path args)
    | rmdir path => exact Or.inr (h.rmdir hown path)
    | _ => exact absurd trivial hlocal

end Machine

end KernelExam

import KernelExam.Proofs.FileSystem.Refinement
import KernelExam.Proofs.Machine.Frame

/-!
# Working directories

No process loses its directory. The guard of `rmdir` compares paths, which is
enough because equal places have equal canonical paths, and because a directory
with anything in it is not removed. Every other call keeps all directories.
-/

set_option autoImplicit false

namespace KernelExam

namespace FileSystem.Shows

variable {fs : FileSystem} {s : PathMap}

theorem isDir_iff (h : fs.Shows s) (path : String) :
    fs.isDir path = true ↔ s.kind (Path.components path) = some .folder := by
  rw [h.isDir, PathMap.isDir, decide_eq_true_iff]

end FileSystem.Shows

namespace FileSystem

def Mapped (fs : FileSystem) : Prop := ∃ s : PathMap, fs.Shows s

/-- Whatever was a directory still is one. -/
def KeepsFolders (fs fs' : FileSystem) : Prop := ∀ path, fs.isDir path = true → fs'.isDir path = true

variable {fs fs' : FileSystem} {path : String}

theorem Mapped.isDir_root (h : fs.Mapped) : fs.isDir "/" = true := by
  obtain ⟨s, hs⟩ := h
  exact (hs.isDir_iff "/").mpr s.kind_nil

theorem Mapped.put (h : fs.Mapped) (o : Nat) (bs : Bytes) :
    Mapped { fs with objects := fs.objects.put o bs } := by
  obtain ⟨s, hs⟩ := h
  exact ⟨_, hs.put o bs⟩

theorem Shows.keepsFolders {s s' : PathMap} (h : fs.Shows s) (h' : fs'.Shows s')
    (hk : ∀ place, s.kind place = some .folder → s'.kind place = some .folder) :
    fs'.Mapped ∧ fs.KeepsFolders fs' := by
  refine ⟨⟨s', h'⟩, ?_⟩
  intro path hd
  rw [h.isDir_iff] at hd
  rw [h'.isDir_iff]
  exact hk _ hd

theorem Mapped.create (h : fs.Mapped) (hp : Path.Canonical path) :
    (fs.create path).1.Mapped ∧ fs.KeepsFolders (fs.create path).1 := by
  obtain ⟨s, hs⟩ := h
  exact hs.keepsFolders (hs.create hp).shows fun _ hd => PathMap.create_keeps_folder hd _

theorem Mapped.unlink (h : fs.Mapped) (hp : Path.Canonical path) :
    (fs.unlink path).1.Mapped ∧ fs.KeepsFolders (fs.unlink path).1 := by
  obtain ⟨s, hs⟩ := h
  exact hs.keepsFolders (hs.unlink hp).shows fun _ hd => PathMap.unlink_keeps_folder hd _

theorem Mapped.mkdir (h : fs.Mapped) (hp : Path.Canonical path) :
    (fs.mkdir path).1.Mapped ∧ fs.KeepsFolders (fs.mkdir path).1 := by
  obtain ⟨s, hs⟩ := h
  exact hs.keepsFolders (hs.mkdir hp).shows fun _ hd => PathMap.mkdir_keeps_folder hd _

theorem Mapped.rmdir (h : fs.Mapped) (hp : Path.Canonical path) :
    (fs.rmdir path).1.Mapped ∧ ∀ place, Path.Canonical place → place ≠ path →
      fs.isDir place = true → (fs.rmdir path).1.isDir place = true := by
  obtain ⟨s, hs⟩ := h
  have hs' := (hs.rmdir hp).shows
  refine ⟨⟨_, hs'⟩, ?_⟩
  intro place hc hne hd
  rw [hs.isDir_iff] at hd
  rw [hs'.isDir_iff]
  refine PathMap.rmdir_keeps_folder hd ?_
  intro he
  apply hne
  exact hc.eq_of_components hp he

end FileSystem

def ProcessTable.Stays (t t' : ProcessTable) : Prop :=
  ∀ q p, t'.get? q = some p → p.termination = none →
    ∃ p₀, t.get? q = some p₀ ∧ p₀.termination = none ∧ p.cwd = p₀.cwd

namespace ProcessTable

theorem Stays.refl (t : ProcessTable) : t.Stays t := fun _ p hq ht => ⟨p, hq, ht, rfl⟩

theorem stays_modify (t : ProcessTable) (pid : Pid) {f : ProcessState → ProcessState}
    (hf : ∀ p, (f p).cwd = p.cwd ∧ (f p).termination = p.termination) :
    t.Stays (t.modify pid f) := by
  intro q p hq ht
  rw [get?_modify] at hq
  split at hq
  · obtain ⟨p₀, hp₀, rfl⟩ := Option.map_eq_some_iff.mp hq
    exact ⟨p₀, hp₀, (hf p₀).2 ▸ ht, (hf p₀).1⟩
  · exact ⟨p, hq, ht, rfl⟩

theorem stays_reap (t : ProcessTable) (pid : Pid) : t.Stays (t.reap pid) := by
  intro q p hq ht
  rw [get?_reap] at hq
  split at hq
  · cases hq
  · exact ⟨p, hq, ht, rfl⟩

theorem stays_terminate (t : ProcessTable) (pid : Pid) (how : Termination) :
    t.Stays (t.terminate pid how).1 := by
  intro q p hq ht
  rw [get?_terminate] at hq
  split at hq
  · obtain ⟨p₀, -, rfl⟩ := Option.map_eq_some_iff.mp hq
    have hended := termination_ended how p₀
    rw [ht] at hended
    cases hended
  · exact ⟨p, hq, ht, rfl⟩

end ProcessTable

namespace Machine

/-- Every process that is alive is in a directory that is there. -/
structure Housed (m : Machine) : Prop where
  mapped : m.files.Mapped
  cwd : ∀ pid p, m.processes.get? pid = some p → p.termination = none →
    Path.Canonical p.cwd ∧ m.files.isDir p.cwd = true

variable {m m' : Machine} {pid : Pid}

theorem Housed.stay (h : m.Housed) (hm : m'.files.Mapped)
    (hf : m.files.KeepsFolders m'.files) (hp : m.processes.Stays m'.processes) : m'.Housed := by
  refine ⟨hm, ?_⟩
  intro q p hq ht
  obtain ⟨p₀, hq₀, ht₀, hc⟩ := hp q p hq ht
  obtain ⟨hcanon, hdir⟩ := h.cwd q p₀ hq₀ ht₀
  rw [hc]
  exact ⟨hcanon, hf _ hdir⟩

theorem Housed.resolve (h : m.Housed) (ha : m.alive pid = true) {path q : String}
    (hq : m.resolve pid path = some q) : Path.Canonical q := by
  obtain ⟨p, hp, ht⟩ := (m.alive_iff pid).mp ha
  rw [Machine.resolve, hp] at hq
  exact Path.resolve_canonical path p.cwd q (h.cwd pid p hp ht).1 hq

theorem Housed.spawn (h : m.Housed) {parent : Option Pid} {processes : ProcessTable}
    {child : Pid} {referee : Referee} {tasks : List (Option Task)}
    (hs : m.processes.spawn parent (m.startingCwd parent) = .ok (processes, child))
    (hcwd : Path.Canonical (m.startingCwd parent) ∧ m.files.isDir (m.startingCwd parent) = true) :
    Housed { m with processes, referee, tasks } := by
  refine ⟨h.mapped, ?_⟩
  intro q p hq ht
  rw [ProcessTable.get?_spawn hs] at hq
  split at hq
  · obtain rfl := Option.some.inj hq
    exact hcwd
  · exact h.cwd q p hq ht

theorem Housed.startingCwd (h : m.Housed) (ha : m.alive pid = true) :
    Path.Canonical (m.startingCwd (some pid)) ∧ m.files.isDir (m.startingCwd (some pid)) = true := by
  obtain ⟨p, hp, ht⟩ := (m.alive_iff pid).mp ha
  rw [startingCwd_of_get? hp]
  exact h.cwd pid p hp ht

theorem Housed.serve (h : m.Housed) (ha : m.alive pid = true) {c : Call}
    {r : Reaction c.Answer} (hs : m.Served pid c m' r) : m'.Housed := by
  have hsame : m.files.KeepsFolders m.files := fun _ hd => hd
  cases hs with
  | refused | crowded | waits => exact h
  | launched hi hspawn hlast => exact h.spawn hspawn (h.startingCwd ha)
  | reaped hp hparent ht hcode => exact h.stay h.mapped hsame (m.processes.stays_reap _)
  | created hq hf hp hi =>
    obtain ⟨hm, hk⟩ := h.mapped.create (h.resolve ha hq)
    rw [hf] at hm hk
    exact h.stay hm hk (m.processes.stays_modify pid fun p => ⟨rfl, rfl⟩)
  | createdInVain hq hf hfull =>
    obtain ⟨hm, hk⟩ := h.mapped.create (h.resolve ha hq)
    rw [hf] at hm hk
    exact h.stay hm hk (.refl _)
  | opened | readFile | closed =>
    exact h.stay h.mapped hsame (m.processes.stays_modify pid fun p => ⟨rfl, rfl⟩)
  | readConsole | wroteConsole => exact h.stay h.mapped hsame (.refl _)
  | wroteFile hd hw he =>
    exact h.stay (h.mapped.put _ _) hsame (m.processes.stays_modify pid fun p => ⟨rfl, rfl⟩)
  | unlinked hq hf =>
    obtain ⟨hm, hk⟩ := h.mapped.unlink (h.resolve ha hq)
    rw [hf] at hm hk
    exact h.stay hm hk (.refl _)
  | made hq hf =>
    obtain ⟨hm, hk⟩ := h.mapped.mkdir (h.resolve ha hq)
    rw [hf] at hm hk
    exact h.stay hm hk (.refl _)
  | @moved path q hq hd =>
    have hc := h.resolve ha hq
    refine ⟨h.mapped, ?_⟩
    intro other p hp ht
    rw [ProcessTable.get?_modify] at hp
    split at hp
    · obtain ⟨p₀, -, rfl⟩ := Option.map_eq_some_iff.mp hp
      exact ⟨hc, hd⟩
    · exact h.cwd other p hp ht
  | @removed path q files hq huse hf =>
    obtain ⟨hm, hk⟩ := h.mapped.rmdir (h.resolve ha hq)
    rw [hf] at hm hk
    refine ⟨hm, ?_⟩
    intro other p hp ht
    obtain ⟨hcanon, hdir⟩ := h.cwd other p hp ht
    refine ⟨hcanon, hk p.cwd hcanon ?_ hdir⟩
    rintro rfl
    have hin : some p ∈ m.processes.slots := (ProcessTable.mem_slots_iff _ p).mpr ⟨other, hp⟩
    have hused : m.inUse p.cwd = true := by
      rw [inUse, List.any_eq_true]
      exact ⟨some p, hin, by simp [ht]⟩
    rw [huse] at hused
    cases hused
  | asked hasked =>
    obtain ⟨referee, rfl⟩ := hasked.referee_only
    exact h.stay h.mapped hsame (.refl _)

end Machine

theorem FileSystem.Mapped.seed {plan plan' : Plan} {path : String}
    {change : String → FileSystem × Except FileError Unit} (h : plan.seed path change = .ok plan')
    (hc : ∀ q, Path.Canonical q → (change q).1.Mapped) : plan'.files.Mapped := by
  rw [Plan.seed] at h
  cases hq : Path.resolve path "/" with
  | none => simp [hq] at h
  | some q =>
    have hm := hc q (Path.resolve_canonical path "/" q Path.canonical_root hq)
    rcases hch : change q with ⟨files, e | _⟩
    · simp [hq, hch] at h
    · simp only [hq, hch, Except.ok.injEq] at h
      subst h
      rw [hch] at hm
      exact hm

theorem Plan.Drawn.mapped {plan : Plan} (h : plan.Drawn) : plan.files.Mapped := by
  induction h with
  | empty => exact ⟨.empty, FileSystem.Shows.empty⟩
  | register name image _ ih => exact ih
  | @provide plan plan' provision _ hp ih =>
    obtain ⟨s, hs⟩ := ih
    cases provision with
    | slot slot value =>
      obtain rfl := Except.ok.inj hp
      exact ⟨s, hs⟩
    | text slot text words =>
      simp only [Plan.provide] at hp
      split at hp
      · obtain rfl := Except.ok.inj hp
        exact ⟨s, hs⟩
      · cases hp
      · cases hp
    | file path contents =>
      exact FileSystem.Mapped.seed hp fun q hq => ⟨_, (hs.writeFile hq contents).shows⟩
    | folder path =>
      refine FileSystem.Mapped.seed hp fun q hq => ?_
      have hm := hs.makeFolders hq.proper
      rw [hq.render_components] at hm
      exact ⟨_, hm.shows⟩
    | stdin bytes =>
      obtain rfl := Except.ok.inj hp
      exact ⟨s, hs⟩
    | lockInit init =>
      obtain rfl := Except.ok.inj hp
      exact ⟨s, hs⟩

namespace Machine

theorem housed_invariant : Invariant Housed where
  build plan hp := ⟨hp.mapped, by
    intro pid p hq
    obtain ⟨n, -, hn⟩ := (ProcessTable.get?_eq_some_iff _ pid p).mp hq
    cases hn⟩
  frame m referee booted h := ⟨h.mapped, h.cwd⟩
  launch m m' program args r h hl := by
    cases hl with
    | unknown | crowded => exact h
    | started hi hs hlast => exact h.spawn hs ⟨Path.canonical_root, h.mapped.isDir_root⟩
  serve m m' pid c r h ha hs := h.serve ha hs
  finish m pid how h := h.stay h.mapped (fun _ hd => hd) (m.processes.stays_terminate pid how)
  task m pid t h := by
    refine h.stay ?_ ?_ ?_
    · rw [setTask_files]
      exact h.mapped
    · rw [setTask_files]
      exact fun _ hd => hd
    · rw [setTask_processes]
      exact .refl _

/-- Whoever is alive is in a directory, under the canonical path of it. -/
theorem cwd_of_reachable {m : Machine} (h : m.Reachable) {pid : Pid} {p : ProcessState}
    (hp : m.processes.get? pid = some p) (ht : p.termination = none) :
    Path.Canonical p.cwd ∧ m.files.isDir p.cwd = true :=
  (housed_invariant.reachable h).cwd pid p hp ht

def mover : Machine := ((Plan.empty.register "p" fun _ _ =>
  .call (.mkdir "/a") fun _ => .call (.chdir "a/./../a") fun _ =>
    .call (.rmdir "../a") fun _ => .done ()).build.boot "p" []).1

theorem cwd_of_mover : (turn (fun _ => false) 1 3 mover).Reachable ∧
    (turn (fun _ => false) 1 3 mover).files.isDir "/a" = true := by
  have hb : mover.Reachable := .boot "p" [] (.build (.register "p" _ .empty))
  obtain ⟨log, hr⟩ := run_turn (fun _ => false) 1 3 mover
  have hm := hb.run hr
  have hp : (turn (fun _ => false) 1 3 mover).processes.get? 1 =
      some ⟨none, "/a", .stdio, none⟩ := by decide
  exact ⟨hm, (cwd_of_reachable hm hp rfl).2⟩

end Machine

end KernelExam

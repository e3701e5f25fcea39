import KernelExam.Proofs.Descriptor
import KernelExam.Proofs.FileSystem.Replay
import KernelExam.Proofs.Machine.WorkingDirectory

/-!
# What files hold

Every file object that a descriptor refers to is there, so each write through it shows,
whoever makes it and whether the file still has a name. At any time in a run the
contents of a file are the replay of its truncations and writes, and reads give just
these.
-/

set_option autoImplicit false

namespace KernelExam

theorem PathMap.openFile_ok {s : PathMap} {names : List String} {o : Nat}
    (h : s.openFile names = .ok o) : o < s.objects.length := by
  rw [openFile] at h
  split at h
  · cases h
  · cases h
  · rename_i hk
    obtain rfl := Except.ok.inj h
    exact s.grounded names _ hk
  · cases h

namespace FileSystem

variable {fs fs' : FileSystem} {path : String} {o : Nat}

theorem Mapped.lt_of_openFile (h : fs.Mapped) (hp : Path.Canonical path)
    (ho : fs.openFile path = .ok o) : o < fs.objects.length := by
  obtain ⟨s, hs⟩ := h
  rw [hs.openFile hp] at ho
  rw [hs.objects]
  exact PathMap.openFile_ok ho

theorem Mapped.lt_of_create (h : fs.Mapped) (hp : Path.Canonical path)
    (ho : fs.create path = (fs', .ok o)) : o < fs'.objects.length := by
  obtain ⟨s, hs⟩ := h
  obtain ⟨hanswer, hshows⟩ := hs.create hp
  rw [ho] at hanswer hshows
  rw [hshows.objects]
  exact (PathMap.create_ok (Prod.ext rfl hanswer.symm)).2.2

end FileSystem

namespace DescriptorTable

def Within (n : Nat) (t : DescriptorTable) : Prop :=
  ∀ place d o position, t.at? place = some d → d.endpoint = .file o position → o < n

variable {n n' : Nat} {t t' : DescriptorTable}

theorem Within.mono (h : t.Within n) (hn : n ≤ n') : t.Within n' :=
  fun place d o position hd he => Nat.lt_of_lt_of_le (h place d o position hd he) hn

theorem within_closed : closed.Within n := by
  intro place d o position hd
  cases hd

theorem within_stdio : stdio.Within n := by
  intro place d o position hd he
  rw [at?, Option.join_eq_some_iff] at hd
  have hmem := List.mem_of_getElem? hd
  simp only [stdio, List.mem_cons, Option.some.injEq, List.not_mem_nil, or_false] at hmem
  rcases hmem with rfl | rfl
  · cases he
  · cases he

theorem Within.insert (h : t.Within n) {d : Descriptor} {k : Nat}
    (hi : t.insert d = some (t', k)) (hd : ∀ o position, d.endpoint = .file o position → o < n) :
    t'.Within n := by
  intro place d' o position hat he
  rw [at?_insert hi] at hat
  split at hat
  · obtain rfl := Option.some.inj hat
    exact hd o position he
  · exact h place d' o position hat he

theorem Within.set (h : t.Within n) (fd : Word) {d : Option Descriptor}
    (hd : ∀ d' o position, d = some d' → d'.endpoint = .file o position → o < n) :
    (t.set fd d).Within n := by
  intro place d' o position hat he
  rcases t.at?_set_cases fd d place with hput | hsame
  · exact hd d' o position (hput.symm.trans hat) he
  · exact h place d' o position (hsame.symm.trans hat) he

theorem Within.seek (h : t.Within n) {fd : Word} {d : Descriptor} (hd : t.get? fd = some d)
    (k : Nat) : (t.set fd (some (d.seek k))).Within n := by
  obtain ⟨place, -, hat⟩ := Option.bind_eq_some_iff.mp hd
  refine h.set fd ?_
  intro d' o position hd' he
  obtain rfl := Option.some.inj hd'
  rw [Descriptor.seek] at he
  split at he
  · rename_i o' position' hendpoint
    cases he
    exact h place d o position' hat hendpoint
  · exact h place d o position hat he

end DescriptorTable

namespace Machine

/-- Every open file of every process is there. -/
structure Moored (m : Machine) : Prop where
  housed : m.Housed
  objects : m.processes.Each (DescriptorTable.Within m.files.objects.length)

variable {m m' : Machine} {pid : Pid} {c : Call}

theorem length_overwrite (os : Objects) (o position : Nat) (bs : Bytes) :
    (os.overwrite o position bs).length = os.length := by
  rw [Objects.overwrite_eq_put, Objects.put, List.length_set]

theorem Moored.seek (h : m.Moored) {fd : Word} {d : Descriptor}
    (hd : m.descriptor? pid fd = some d) (n : Nat) :
    (m.setDescriptor pid fd (d.seek n)).processes.Each
      (DescriptorTable.Within m.files.objects.length) :=
  h.objects.modify fun p hp => (h.objects pid p hp).seek (descriptor?_eq_get? hp fd ▸ hd) n

theorem Moored.serve (h : m.Moored) (ha : m.alive pid = true) {r : Reaction c.Answer}
    (hs : m.Served pid c m' r) : m'.Moored := by
  have hh := h.housed.serve ha hs
  cases hs with
  | launched _ hspawn _ => exact ⟨hh, h.objects.spawn hspawn DescriptorTable.within_stdio⟩
  | reaped => exact ⟨hh, h.objects.reap⟩
  | @created path q files o n p ds hq hf hp hi =>
    have hle := FileSystem.length_le_of_create hf
    have hlt := h.housed.mapped.lt_of_create (h.housed.resolve ha hq) hf
    have hds := ((h.objects pid p hp).mono hle).insert hi (by rintro _ _ ⟨⟩; exact hlt)
    exact ⟨hh, (h.objects.imp fun _ hds => hds.mono hle).modify fun _ _ => hds⟩
  | createdInVain _ hf _ =>
    exact ⟨hh, h.objects.imp fun _ hds => hds.mono (FileSystem.length_le_of_create hf)⟩
  | opened hq hf hp hi =>
    have hlt := h.housed.mapped.lt_of_openFile (h.housed.resolve ha hq) hf
    have hds := (h.objects pid _ hp).insert hi (by rintro _ _ ⟨⟩; exact hlt)
    exact ⟨hh, h.objects.modify fun _ _ => hds⟩
  | readFile hd _ _ _ _ => exact ⟨hh, h.seek hd _⟩
  | @wroteFile fd bs o position d hd _ _ =>
    have hlength := length_overwrite m.files.objects o position bs
    exact ⟨hh, (h.seek hd _).imp fun _ hds => hds.mono (le_of_eq hlength.symm)⟩
  | closed hp hd => exact ⟨hh, h.objects.modify fun _ _ => (h.objects pid _ hp).set _ nofun⟩
  | moved => exact ⟨hh, h.objects.modify fun p hp => h.objects pid p hp⟩
  | unlinked _ hf => exact ⟨hh, by rw [FileSystem.unlink_objects hf]; exact h.objects⟩
  | made _ hf => exact ⟨hh, by rw [FileSystem.mkdir_objects hf]; exact h.objects⟩
  | removed _ _ hf => exact ⟨hh, by rw [FileSystem.rmdir_objects hf]; exact h.objects⟩
  | asked hasked =>
    obtain ⟨referee, rfl⟩ := hasked.referee_only
    exact ⟨hh, h.objects⟩
  | _ => exact ⟨hh, h.objects⟩

theorem moored_invariant : Invariant Moored where
  build plan hp := ⟨housed_invariant.build plan hp, ProcessTable.each_empty⟩
  frame m referee booted h := ⟨housed_invariant.frame m referee booted h.housed, h.objects⟩
  launch m m' program args r h hl := by
    have hh := housed_invariant.launch m m' program args r h.housed hl
    cases hl with
    | unknown | crowded => exact h
    | started _ hs _ => exact ⟨hh, h.objects.spawn hs DescriptorTable.within_stdio⟩
  serve m m' pid c r h ha hs := h.serve ha hs
  finish m pid how h := ⟨housed_invariant.finish m pid how h.housed,
    h.objects.terminate how DescriptorTable.within_closed⟩
  task m pid t h := by
    refine ⟨housed_invariant.task m pid t h.housed, ?_⟩
    rw [setTask_processes, setTask_files]
    exact h.objects

/-- The object that a call changes, and how. A creation empties its object each time the path
leads to it, also when there is no descriptor left. -/
def revision? (m : Machine) (pid : Pid) : Call → Option (Nat × Revision)
  | .create path => (m.resolve pid path).bind fun q =>
    (m.files.create q).2.toOption.map fun o => (o, .emptied)
  | .write fd bs => (m.descriptor? pid fd).bind fun d =>
    match d.endpoint with
    | .file o position => if d.writable then some (o, .wrote position bs) else none
    | _ => none
  | _ => none

def revisions (o : Nat) (m : Machine) (e : Event) : List Revision :=
  match e.what with
  | .answered c _ => Revision.of o (m.revision? e.pid c)
  | .noted _ => []
  | .ended _ => []

theorem revision?_create {path q : String} {files : FileSystem} {o : Nat}
    (hq : m.resolve pid path = some q) (hf : m.files.create q = (files, .ok o)) :
    m.revision? pid (.create path) = some (o, .emptied) := by
  rw [revision?, hq, Option.bind_some, hf]
  rfl

theorem revision?_write {fd : Word} {d : Descriptor} (hd : m.descriptor? pid fd = some d)
    (bs : Bytes) : m.revision? pid (.write fd bs) = match d.endpoint with
      | .file o position => if d.writable then some (o, .wrote position bs) else none
      | _ => none := by
  rw [revision?, hd, Option.bind_some]

theorem revision?_of_refuses (h : m.Refuses pid c) : m.revision? pid c = none := by
  cases c with
  | create path =>
    cases hq : m.resolve pid path with
    | none => rw [revision?, hq, Option.bind_none]
    | some q =>
      obtain ⟨e, he⟩ := h q hq
      rw [revision?, hq, Option.bind_some, he]
      rfl
  | write fd bs =>
    cases hd : m.descriptor? pid fd with
    | none => rw [revision?, hd, Option.bind_none]
    | some d =>
      rw [revision?_write hd]
      cases he : d.endpoint with
      | stdin | stdout => rfl
      | file o position =>
        refine if_neg fun hw => ?_
        rw [h d hd hw] at he
        cases he
  | _ => rfl

theorem lt_of_descriptor? (hm : m.Moored) {fd : Word} {d : Descriptor} {o position : Nat}
    (hd : m.descriptor? pid fd = some d) (he : d.endpoint = .file o position) :
    o < m.files.objects.length := by
  obtain ⟨p, hp, hget⟩ := Option.bind_eq_some_iff.mp hd
  obtain ⟨place, -, hat⟩ := Option.bind_eq_some_iff.mp hget
  exact hm.objects pid p hp place d o position hat he

theorem Served.contents (hm : m.Moored) {a : c.Answer} (h : m.Served pid c m' (.answer a))
    (o : Nat) : m'.files.objects.contents o =
      Revision.applyAll (m.files.objects.contents o) (Revision.of o (m.revision? pid c)) := by
  cases h with
  | refused hrefuses =>
    rw [revision?_of_refuses hrefuses]
    rfl
  | created hq hf _ _ | createdInVain hq hf _ =>
    rw [revision?_create hq hf, Revision.applyAll_of]
    exact FileSystem.create_contents hf o
  | wroteConsole hd _ he =>
    rw [revision?_write hd, he]
    rfl
  | @wroteFile fd bs o' position d hd hw he =>
    rw [revision?_write hd, he]
    simp only [hw, if_true, Revision.applyAll_of]
    change (m.files.objects.overwrite o' position bs).contents o = _
    rw [Objects.overwrite_eq_put]
    by_cases ho : o = o'
    · rw [if_pos ho, ho, Objects.contents_put _ _ _ (lt_of_descriptor? hm hd he)]
      rfl
    · rw [if_neg ho, Objects.contents_put_of_ne _ _ _ _ (Ne.symm ho)]
  | unlinked _ hf => exact congrArg (Objects.contents · o) (FileSystem.unlink_objects hf)
  | made _ hf => exact congrArg (Objects.contents · o) (FileSystem.mkdir_objects hf)
  | removed _ _ hf => exact congrArg (Objects.contents · o) (FileSystem.rmdir_objects hf)
  | asked ha =>
    obtain ⟨referee, rfl⟩ := ha.referee_only
    rfl
  | _ => rfl

theorem Served.files_of_fault {f : Fault} (h : m.Served pid c m' (.fault f)) :
    m'.files = m.files := by
  generalize hr : Reaction.fault f = r at h
  cases h with
  | asked ha =>
    obtain ⟨referee, rfl⟩ := ha.referee_only
    rfl
  | launched | crowded => rfl
  | _ => cases hr

/-- One step changes the contents of an object by its revisions. -/
theorem Takes.contents {what : Happening} (hm : m.Moored) (h : m.Takes pid what m') (o : Nat) :
    m'.files.objects.contents o =
      Revision.applyAll (m.files.objects.contents o) (m.revisions o ⟨pid, what⟩) := by
  cases h with
  | answered _ _ _ hs =>
    rw [setTask_files]
    exact (served_of_serve hs).contents hm o
  | noted _ _ =>
    rw [setTask_files]
    rfl
  | done | exit | crash | halted => rfl
  | faulted _ _ _ hs =>
    exact congrArg (·.objects.contents o) (served_of_serve hs).files_of_fault

theorem Chronicle.contents {start : Machine} (hstart : start.Reachable) {o : Nat}
    {log : List Event} {revs : List Revision} (h : Chronicle (revisions o) start log revs m) :
    m.files.objects.contents o = Revision.applyAll (start.files.objects.contents o) revs := by
  induction h with
  | start => rfl
  | halt _ ih => exact ih
  | step hc _ ht ih =>
    have hm := moored_invariant.reachable (hstart.run hc.run)
    rw [ht.contents hm, ih, Revision.applyAll_append]

theorem serve_read {fd : Word} {d : Descriptor} {o k : Nat} (n : Nat)
    (hd : m.descriptor? pid fd = some d) (hr : d.readable = true) (he : d.endpoint = .file o k) :
    ∃ a, m.serve pid (.read fd n) =
        (m.setDescriptor pid fd
          (d.seek (min k (m.files.objects.contents o).length + a.2.length)), .answer a) ∧
      Reads (m.files.objects.contents o) k n a := by
  have hdrop : (m.files.objects.contents o).drop (min k (m.files.objects.contents o).length) =
      (m.files.objects.contents o).drop k := by
    rcases Nat.le_total k (m.files.objects.contents o).length with hk | hk
    · rw [Nat.min_eq_left hk]
    · rw [Nat.min_eq_right hk, List.drop_length, List.drop_eq_nil_of_le hk]
  refine ⟨_, ?_, reads_take_drop _ k n⟩
  simp only [serve, read, hd, if_pos hr, he, Objects.slice, hdrop]

/-- What a file holds is the replay of its truncations and writes, whoever made them and
through whichever descriptor, and reads give just that. -/
theorem contents_replayed {start m : Machine} {log : List Event} (hstart : start.Reachable)
    (hr : start.Run log m) (o : Nat) :
    (∃ revs, Chronicle (revisions o) start log revs m) ∧
    (∀ revs, Chronicle (revisions o) start log revs m →
      Replays (start.files.objects.contents o) revs (m.files.objects.contents o)) ∧
    ∀ pid fd d k n, m.descriptor? pid fd = some d → d.readable = true →
      d.endpoint = .file o k →
      ∃ a, m.serve pid (.read fd n) =
          (m.setDescriptor pid fd
            (d.seek (min k (m.files.objects.contents o).length + a.2.length)), .answer a) ∧
        Reads (m.files.objects.contents o) k n a := by
  refine ⟨hr.exists_chronicle (revisions o), fun revs hc => ?_,
    fun _ _ _ _ n hd hread he => serve_read n hd hread he⟩
  rw [hc.contents hstart]
  exact replays_applyAll _ revs

/-- A process that writes a file, empties it under its own descriptor, and writes on. -/
def scribe : Machine := ((Plan.empty.register "p" fun _ _ =>
  .call (.create "/f") fun _ => .call (.write 2 [1, 2, 3]) fun _ =>
    .call (.create "/f") fun _ => .call (.write 2 [9]) fun _ => .done ()).build.boot "p" []).1

def scribeLog : List Event :=
  [⟨1, .answered (.create "/f") (2 : Word)⟩, ⟨1, .answered (.write 2 [1, 2, 3]) (3 : Word)⟩,
    ⟨1, .answered (.create "/f") (3 : Word)⟩, ⟨1, .answered (.write 2 [9]) (1 : Word)⟩]

theorem scribe_chronicle : ∃ revs m, Chronicle (revisions 0) scribe scribeLog revs m ∧
    revs = [.emptied, .wrote 0 [1, 2, 3], .emptied, .wrote 3 [9]] :=
  ⟨_, _, .step (.step (.step (.step .start rfl (.answered rfl rfl rfl rfl)) rfl
    (.answered rfl rfl rfl rfl)) rfl (.answered rfl rfl rfl rfl)) rfl
    (.answered rfl rfl rfl rfl), rfl⟩

theorem contents_replayed_scribe : ∃ m, scribe.Run scribeLog m ∧
    (m.files.objects.contents 0).length = 4 ∧ (m.files.objects.contents 0).getD 1 0 = 0 ∧
    (m.files.objects.contents 0).getD 3 0 = 9 := by
  have hstart : scribe.Reachable := .boot "p" [] (.build (.register "p" _ .empty))
  obtain ⟨revs, m, hc, hrevs⟩ := scribe_chronicle
  obtain ⟨hlength, hbyte⟩ := (contents_replayed hstart hc.run 0).2.1 revs hc
  subst hrevs
  refine ⟨m, hc.run, hlength, ?_, ?_⟩
  · rw [hbyte]
    rfl
  · rw [hbyte]
    rfl

end Machine

end KernelExam

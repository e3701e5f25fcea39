import KernelExam.Machine.Syscall
import KernelExam.Proofs.FileSystem.Refusal
import KernelExam.Proofs.Machine.Table

/-!
# All that a call can do

The ways in which a machine serves a call, each with the machine it leaves and
the answer it gives. Whatever is to hold of every call is proved by going through
them; only the proofs here look into the calls themselves.
-/

set_option autoImplicit false

namespace KernelExam

def Call.refusal : (c : Call) → c.Answer
  | .join _ status => (-1, status)
  | .read _ _ => (-1, [])
  | .exec _ _ | .create _ | .openFile _ | .write _ _ | .readRaw _ _ _ | .writeRaw _ _ _
  | .close _ | .unlink _ | .chdir _ | .mkdir _ | .rmdir _ | .ask _ _ _ => (-1 : Word)

namespace Machine

def withDescriptors (m : Machine) (pid : Pid) (ds : DescriptorTable) : Machine :=
  { m with processes := m.processes.modify pid fun p => { p with descriptors := ds } }

def startingCwd (m : Machine) (parent : Option Pid) : String :=
  ((parent.bind m.processes.get?).map ProcessState.cwd).getD "/"

theorem startingCwd_of_get? {m : Machine} {pid : Pid} {p : ProcessState}
    (hp : m.processes.get? pid = some p) : m.startingCwd (some pid) = p.cwd := by
  rw [startingCwd, Option.bind_some, hp]
  rfl

inductive Launched (m : Machine) (parent : Option Pid) (path : String) (args : List String) :
    Machine → Except Fault (Option Pid) → Prop where
  | unknown : m.registry.lookup (Path.dropSlashes path) = none →
      Launched m parent path args m (.ok none)
  | crowded {f : Fault} : m.processes.spawn parent (m.startingCwd parent) = .error f →
      Launched m parent path args m (.error f)
  | started {image : Image} {processes : ProcessTable} {child : Pid} {last : Option Task}
      {r : Except Fault (Option Pid)} :
      m.registry.lookup (Path.dropSlashes path) = some image →
      m.processes.spawn parent (m.startingCwd parent) = .ok (processes, child) →
      (last = some ⟨Path.dropSlashes path, args, image child args, []⟩ ∧ r = .ok (some child) ∨
        last = none ∧ ∃ f, r = .error f) →
      Launched m parent path args
        { m with processes, referee := m.referee.started, tasks := m.tasks ++ [last] } r

theorem launched (m : Machine) (parent : Option Pid) (path : String) (args : List String) :
    m.Launched parent path args (m.launch parent path args).1 (m.launch parent path args).2 := by
  rw [launch]
  cases hi : m.registry.lookup (Path.dropSlashes path) with
  | none => exact .unknown hi
  | some image =>
    simp only []
    rw [← startingCwd]
    cases hs : m.processes.spawn parent (m.startingCwd parent) with
    | error f => exact .crowded hs
    | ok made =>
      obtain ⟨processes, child⟩ := made
      simp only []
      split
      · exact .started hi hs (Or.inr ⟨rfl, _, rfl⟩)
      · exact .started hi hs (Or.inl ⟨rfl, rfl⟩)

/-- The ways in which the referee is asked. -/
inductive Asked (m : Machine) (pid : Pid) : Word → Word → Word → Machine → Reaction Word → Prop
  | unknown {request a0 a1 : Word} : Request.ofCode? request = none →
      Asked m pid request a0 a1 m (.answer (-1))
  | taken {a0 a1 : Word} : m.referee.halted = false → 0 < m.referee.permits a0 →
      Asked m pid Request.p.code a0 a1
        { m with referee := m.referee.setPermits a0 (m.referee.permits a0 - 1) } (.answer 0)
  | waits {a0 a1 : Word} : Asked m pid Request.p.code a0 a1 m .blocked
  | released {a0 a1 : Word} : m.referee.permits a0 < Referee.maxPermits →
      Asked m pid Request.v.code a0 a1
        { m with referee := m.referee.setPermits a0 (m.referee.permits a0 + 1) } (.answer 0)
  | overfull {a0 a1 : Word} : Asked m pid Request.v.code a0 a1 m (.fault .addOverflow)
  | loaded {a0 a1 : Word} :
      Asked m pid Request.loadWord.code a0 a1 m (.answer (m.referee.load a0))
  | stored {a0 a1 : Word} : Asked m pid Request.storeWord.code a0 a1
      { m with referee := m.referee.store a0 a1 } (.answer 0)
  | reported {a0 a1 : Word} (o : Outcome) (r : Request) :
      (o, r) = (.done, .done) ∨ (o, r) = (.fail, .fail) →
      Asked m pid r.code a0 a1 (m.report o pid) (.answer 0)
  | marked {a0 a1 : Word} : Asked m pid Request.checkpoint.code a0 a1
      { m with referee := m.referee.checkpoint a0 } (.answer 0)
  | sought {a0 a1 : Word} {r : Reaction Word} : Asked m pid Request.fileExists.code a0 a1 m r

theorem eq_code_of_ofCode? {n : Word} {r : Request} (h : Request.ofCode? n = some r) :
    n = r.code := by
  have hr := List.find?_some h
  exact (of_decide_eq_true hr).symm

theorem asked (m : Machine) (pid : Pid) (request a0 a1 : Word) :
    m.Asked pid request a0 a1 (m.ask pid request a0 a1).1 (m.ask pid request a0 a1).2 := by
  cases hr : Request.ofCode? request with
  | none =>
    simp only [ask, hr]
    exact .unknown hr
  | some r =>
    obtain rfl := eq_code_of_ofCode? hr
    simp only [ask, hr]
    cases r with
    | checkpoint => exact .marked
    | fileExists =>
      have hm : (m.existsInSlots a0 a1).1 = m := by
        rw [existsInSlots]
        split
        · rfl
        · split <;> rfl
      simp only [hm]
      exact .sought
    | fail => exact .reported .fail .fail (Or.inr rfl)
    | done => exact .reported .done .done (Or.inl rfl)
    | loadWord => exact .loaded
    | storeWord => exact .stored
    | v =>
      simp only [Referee.v]
      by_cases hv : m.referee.permits a0 < Referee.maxPermits
      · simp only [if_pos hv]
        exact .released hv
      · simp only [if_neg hv]
        exact .overfull
    | p =>
      simp only [Referee.p]
      by_cases hh : m.referee.halted
      · simp only [if_pos hh]
        exact .waits
      · by_cases hp : 0 < m.referee.permits a0
        · simp only [if_neg hh, if_pos hp]
          exact .taken (by simpa using hh) hp
        · simp only [if_neg hh, if_neg hp]
          exact .waits

def Crowded (m : Machine) (pid : Pid) : Prop :=
  ∀ p, m.processes.get? pid = some p → p.descriptors.free? = none

/-- Why nothing comes of a call. -/
def Refuses (m : Machine) (pid : Pid) : Call → Prop
  | .exec path args =>
    pageSize < argumentBytes args ∨ m.registry.lookup (Path.dropSlashes path) = none
  | .join child _ => ∀ p, m.processes.get? child.toInt = some p → p.parent ≠ some pid
  | .create path => ∀ q, m.resolve pid path = some q → ∃ e, (m.files.create q).2 = .error e
  | .openFile path => ∀ q o, m.resolve pid path = some q → m.files.openFile q = .ok o →
    m.Crowded pid
  | .read fd _ => ∀ d, m.descriptor? pid fd = some d → d.readable = true → d.endpoint = .stdout
  | .write fd _ => ∀ d, m.descriptor? pid fd = some d → d.writable = true → d.endpoint = .stdin
  | .readRaw _ _ _ | .writeRaw _ _ _ => True
  | .close fd => m.descriptor? pid fd = none
  | .unlink path => ∀ q, m.resolve pid path = some q → ∃ e, (m.files.unlink q).2 = .error e
  | .chdir path => ∀ q, m.resolve pid path = some q → m.files.isDir q = false
  | .mkdir path => ∀ q, m.resolve pid path = some q → ∃ e, (m.files.mkdir q).2 = .error e
  | .rmdir path => ∀ q, m.resolve pid path = some q →
    m.inUse q = true ∨ ∃ e, (m.files.rmdir q).2 = .error e
  | .ask _ _ _ => False

inductive Served (m : Machine) (pid : Pid) : (c : Call) → Machine → Reaction c.Answer → Prop
  | refused {c : Call} : m.Refuses pid c → Served m pid c m (.answer c.refusal)
  | crowded {path : String} {args : List String} {f : Fault} :
      Served m pid (.exec path args) m (.fault f)
  | launched {path : String} {args : List String}
      {image : Image} {processes : ProcessTable} {child : Pid} {last : Option Task}
      {r : Reaction Word} :
      m.registry.lookup (Path.dropSlashes path) = some image →
      m.processes.spawn (some pid) (m.startingCwd (some pid)) = .ok (processes, child) →
      (last = some ⟨Path.dropSlashes path, args, image child args, []⟩ ∧
          r = .answer (Int32.ofInt child) ∨ last = none ∧ ∃ f, r = .fault f) →
      Served m pid (.exec path args)
        { m with processes, referee := m.referee.started, tasks := m.tasks ++ [last] } r
  | waits {child status : Word} : Served m pid (.join child status) m .blocked
  | reaped {child status code value : Word} {p : ProcessState} {how : Termination} :
      m.processes.get? child.toInt = some p → p.parent = some pid → p.termination = some how →
      code ≠ -1 →
      Served m pid (.join child status)
        { m with processes := m.processes.reap child.toInt } (.answer (code, value))
  | created {path q : String} {files : FileSystem} {o n : Nat} {p : ProcessState}
      {ds : DescriptorTable} :
      m.resolve pid path = some q → m.files.create q = (files, .ok o) →
      m.processes.get? pid = some p → p.descriptors.insert (.ofObject o) = some (ds, n) →
      Served m pid (.create path) ({ m with files }.withDescriptors pid ds)
        (.answer (Int32.ofNat n))
  | createdInVain {path q : String} {files : FileSystem} {o : Nat} :
      m.resolve pid path = some q → m.files.create q = (files, .ok o) →
      m.Crowded pid → Served m pid (.create path) { m with files } (.answer (-1))
  | opened {path q : String} {o n : Nat} {p : ProcessState} {ds : DescriptorTable} :
      m.resolve pid path = some q → m.files.openFile q = .ok o →
      m.processes.get? pid = some p → p.descriptors.insert (.ofObject o) = some (ds, n) →
      Served m pid (.openFile path) (m.withDescriptors pid ds) (.answer (Int32.ofNat n))
  | readConsole {fd : Word} {size : Nat} {d : Descriptor} :
      m.descriptor? pid fd = some d → d.readable = true → d.endpoint = .stdin →
      Served m pid (.read fd size) { m with stdin := m.stdin.drop size }
        (.answer (Int32.ofNat (m.stdin.take size).length, m.stdin.take size))
  | readFile {fd : Word} {size o position start : Nat} {bs : Bytes} {d : Descriptor} :
      m.descriptor? pid fd = some d → d.readable = true → d.endpoint = .file o position →
      start = min position (m.files.objects.contents o).length →
      bs = m.files.objects.slice o start size →
      Served m pid (.read fd size) (m.setDescriptor pid fd (d.seek (start + bs.length)))
        (.answer (Int32.ofNat bs.length, bs))
  | wroteConsole {fd : Word} {bs : Bytes} {d : Descriptor} :
      m.descriptor? pid fd = some d → d.writable = true → d.endpoint = .stdout →
      Served m pid (.write fd bs) { m with stdout := m.stdout ++ bs }
        (.answer (Int32.ofNat bs.length))
  | wroteFile {fd : Word} {bs : Bytes} {o position : Nat} {d : Descriptor} :
      m.descriptor? pid fd = some d → d.writable = true → d.endpoint = .file o position →
      Served m pid (.write fd bs)
        ({ m with files.objects := m.files.objects.overwrite o position bs }.setDescriptor pid fd
          (d.seek (position + bs.length)))
        (.answer (Int32.ofNat bs.length))
  | closed {fd : Word} {d : Descriptor} {p : ProcessState} :
      m.processes.get? pid = some p → p.descriptors.get? fd = some d →
      Served m pid (.close fd) (m.withDescriptors pid (p.descriptors.set fd none)) (.answer 0)
  | unlinked {path q : String} {files : FileSystem} :
      m.resolve pid path = some q → m.files.unlink q = (files, .ok ()) →
      Served m pid (.unlink path) { m with files } (.answer 0)
  | moved {path q : String} : m.resolve pid path = some q → m.files.isDir q = true →
      Served m pid (.chdir path)
        { m with processes := m.processes.modify pid fun p => { p with cwd := q } } (.answer 0)
  | made {path q : String} {files : FileSystem} :
      m.resolve pid path = some q → m.files.mkdir q = (files, .ok ()) →
      Served m pid (.mkdir path) { m with files } (.answer 0)
  | removed {path q : String} {files : FileSystem} :
      m.resolve pid path = some q → m.inUse q = false → m.files.rmdir q = (files, .ok ()) →
      Served m pid (.rmdir path) { m with files } (.answer 0)
  | asked {request a0 a1 : Word} {m' : Machine} {r : Reaction Word} :
      m.Asked pid request a0 a1 m' r → Served m pid (.ask request a0 a1) m' r

namespace Served

variable (m : Machine) (pid : Pid)

theorem exec (path : String) (args : List String) :
    m.Served pid (.exec path args) (m.exec pid path args).1 (m.exec pid path args).2 := by
  rw [Machine.exec]
  split
  · rename_i hlong
    exact .refused (Or.inl hlong)
  · have h := m.launched (some pid) path args
    rcases hl : m.launch (some pid) path args with ⟨m', r⟩
    rw [hl] at h
    cases h with
    | unknown hi => exact .refused (Or.inr hi)
    | crowded hs => exact .crowded
    | started hi hs hlast =>
      rcases hlast with ⟨rfl, rfl⟩ | ⟨rfl, f, rfl⟩
      · exact .launched hi hs (Or.inl ⟨rfl, rfl⟩)
      · exact .launched hi hs (Or.inr ⟨rfl, f, rfl⟩)

theorem join (child status : Word) :
    m.Served pid (.join child status) (m.join pid child status).1 (m.join pid child status).2 := by
  rw [Machine.join]
  cases hp : m.processes.get? child.toInt with
  | none => exact .refused (by simp [Refuses, hp])
  | some p =>
    simp only []
    split
    · rename_i hparent
      rcases ht : p.termination with _ | code | _ | _
      · exact .waits
      · exact .reaped hp hparent ht (by decide)
      · exact .reaped hp hparent ht (by decide)
      · exact .reaped hp hparent ht (by decide)
    · rename_i hparent
      exact .refused (by simpa [Refuses, hp] using hparent)

theorem withDescriptors_of_put {m : Machine} {pid : Pid} {p : ProcessState}
    (h : m.processes.get? pid = some p) (ds : DescriptorTable) :
    { m with processes := m.processes.put pid (some { p with descriptors := ds }) } =
      m.withDescriptors pid ds := by
  rw [withDescriptors, ProcessTable.modify, h]

theorem insert_eq_none_iff (t : DescriptorTable) (d : Descriptor) :
    t.insert d = none ↔ t.free? = none := Option.map_eq_none_iff

theorem create (path : String) :
    m.Served pid (.create path) (m.create pid path).1 (m.create pid path).2 := by
  rw [Machine.create]
  cases hq : m.resolve pid path with
  | none => exact .refused (by simp [Refuses, hq])
  | some q =>
    rcases hf : m.files.create q with ⟨files, e | o⟩
    · obtain rfl := FileSystem.create_error hf
      simp only [hf]
      exact .refused (by simp [Refuses, hq, hf])
    · simp only [hf, install]
      cases hp : m.processes.get? pid with
      | none => exact .createdInVain hq hf (by simp [Crowded, hp])
      | some p =>
        cases hi : p.descriptors.insert (.ofObject o) with
        | none =>
          have hfull := (insert_eq_none_iff _ _).mp hi
          simp only [hi]
          exact .createdInVain hq hf (by simp [Crowded, hp, hfull])
        | some made =>
          obtain ⟨ds, n⟩ := made
          simp only [hi]
          have hput := withDescriptors_of_put (m := { m with files }) hp ds
          dsimp only at hput
          rw [hput]
          exact .created hq hf hp hi

theorem openFile (path : String) :
    m.Served pid (.openFile path) (m.openFile pid path).1 (m.openFile pid path).2 := by
  rw [Machine.openFile]
  cases hq : m.resolve pid path with
  | none => exact .refused (by simp [Refuses, hq])
  | some q =>
    cases hf : m.files.openFile q with
    | error e =>
      simp only [hf]
      refine .refused ?_
      intro q' o hq' ho
      obtain rfl := Option.some.inj (hq.symm.trans hq')
      rw [hf] at ho
      cases ho
    | ok o =>
      simp only [hf, install]
      cases hp : m.processes.get? pid with
      | none => exact .refused (by simp [Refuses, Crowded, hp])
      | some p =>
        cases hi : p.descriptors.insert (.ofObject o) with
        | none =>
          have hfull := (insert_eq_none_iff _ _).mp hi
          simp only [hi]
          exact .refused (by simp [Refuses, Crowded, hp, hfull])
        | some made =>
          obtain ⟨ds, n⟩ := made
          simp only [hi]
          rw [withDescriptors_of_put hp ds]
          exact .opened hq hf hp hi

theorem read (fd : Word) (size : Nat) :
    m.Served pid (.read fd size) (m.read pid fd size).1 (m.read pid fd size).2 := by
  rw [Machine.read]
  cases hd : m.descriptor? pid fd with
  | none => exact .refused (by simp [Refuses, hd])
  | some d =>
    simp only []
    split
    · rename_i hr
      cases he : d.endpoint with
      | stdout => exact .refused (by simp [Refuses, hd, he])
      | stdin => exact .readConsole hd hr he
      | file o position => exact .readFile hd hr he rfl rfl
    · rename_i hr
      exact .refused (by simp [Refuses, hd, hr])

theorem write (fd : Word) (bs : Bytes) :
    m.Served pid (.write fd bs) (m.write pid fd bs).1 (m.write pid fd bs).2 := by
  rw [Machine.write]
  cases hd : m.descriptor? pid fd with
  | none => exact .refused (by simp [Refuses, hd])
  | some d =>
    simp only []
    split
    · rename_i hw
      cases he : d.endpoint with
      | stdin => exact .refused (by simp [Refuses, hd, he])
      | stdout => exact .wroteConsole hd hw he
      | file o position => exact .wroteFile hd hw he
    · rename_i hw
      exact .refused (by simp [Refuses, hd, hw])

theorem close (fd : Word) :
    m.Served pid (.close fd) (m.close pid fd).1 (m.close pid fd).2 := by
  rw [Machine.close]
  cases hd : m.descriptor? pid fd with
  | none => exact .refused hd
  | some d =>
    rw [descriptor?, Option.bind_eq_some_iff] at hd
    obtain ⟨p, hp, hd⟩ := hd
    have hclosed := Served.closed (m := m) hp hd
    rw [withDescriptors, ProcessTable.modify, hp] at hclosed
    simp only [ProcessTable.modify, hp, DescriptorTable.remove, hd]
    exact hclosed

theorem onPath {path : String} {operation : String → Machine × Except FileError Unit}
    (herror : ∀ q m' e, operation q = (m', .error e) → m' = m) :
    (m.onPath pid path operation = (m, .answer (-1)) ∧
        ∀ q, m.resolve pid path = some q → ∃ e, (operation q).2 = .error e) ∨
      ∃ q m', m.resolve pid path = some q ∧ operation q = (m', .ok ()) ∧
        m.onPath pid path operation = (m', .answer 0) := by
  rw [Machine.onPath]
  cases hq : m.resolve pid path with
  | none => exact Or.inl ⟨rfl, by simp⟩
  | some q =>
    rcases ho : operation q with ⟨m', e | _⟩
    · obtain rfl := herror q m' e ho
      simp only [ho]
      refine Or.inl ⟨trivial, ?_⟩
      rintro q' ⟨⟩
      exact ⟨e, by rw [ho]⟩
    · simp only [ho]
      exact Or.inr ⟨q, m', rfl, ho, rfl⟩

theorem onFiles (path : String) (operation : String → Machine × Except FileError Unit)
    (change : String → FileSystem × Except FileError Unit)
    (hop : ∀ q, operation q = ({ m with files := (change q).1 }, (change q).2))
    (herror : ∀ q files e, change q = (files, .error e) → files = m.files) :
    (m.onPath pid path operation = (m, .answer (-1)) ∧
        ∀ q, m.resolve pid path = some q → ∃ e, (change q).2 = .error e) ∨
      ∃ q files, m.resolve pid path = some q ∧ change q = (files, .ok ()) ∧
        m.onPath pid path operation = ({ m with files }, .answer 0) := by
  have hkeep : ∀ q m' e, operation q = (m', .error e) → m' = m := by
    intro q m' e ho
    rw [hop] at ho
    obtain ⟨rfl, he⟩ := Prod.mk.inj ho
    have hsame : (change q).1 = m.files := herror q _ e (Prod.ext rfl he)
    rw [hsame]
  rcases onPath m pid hkeep with ⟨h, hr⟩ | ⟨q, m', hq, ho, h⟩
  · refine Or.inl ⟨h, ?_⟩
    intro q hq
    obtain ⟨e, he⟩ := hr q hq
    rw [hop] at he
    exact ⟨e, he⟩
  · rw [hop] at ho
    obtain ⟨rfl, hok⟩ := Prod.mk.inj ho
    exact Or.inr ⟨q, _, hq, Prod.ext rfl hok, h⟩

theorem unlink (path : String) : m.Served pid (.unlink path) (m.onPath pid path m.unlink).1
    (m.onPath pid path m.unlink).2 := by
  have hserved := onFiles m pid path m.unlink m.files.unlink (fun _ => rfl)
    fun _ _ _ => FileSystem.unlink_error
  rcases hserved with ⟨h, hr⟩ | ⟨q, files, hq, hf, h⟩
  · rw [h]
    exact .refused hr
  · rw [h]
    exact .unlinked hq hf

theorem mkdir (path : String) : m.Served pid (.mkdir path) (m.onPath pid path m.mkdir).1
    (m.onPath pid path m.mkdir).2 := by
  have hserved := onFiles m pid path m.mkdir m.files.mkdir (fun _ => rfl)
    fun _ _ _ => FileSystem.mkdir_error
  rcases hserved with ⟨h, hr⟩ | ⟨q, files, hq, hf, h⟩
  · rw [h]
    exact .refused hr
  · rw [h]
    exact .made hq hf

theorem rmdir (path : String) : m.Served pid (.rmdir path) (m.onPath pid path m.rmdir).1
    (m.onPath pid path m.rmdir).2 := by
  have hkeep : ∀ q m' e, m.rmdir q = (m', .error e) → m' = m := by
    intro q m' e h
    rw [Machine.rmdir] at h
    split at h
    · exact (congrArg Prod.fst h).symm
    · rcases hf : m.files.rmdir q with ⟨files, _ | _⟩
      · obtain rfl := FileSystem.rmdir_error hf
        simp only [hf] at h
        exact (congrArg Prod.fst h).symm
      · simp [hf] at h
  rcases onPath m pid hkeep with ⟨h, hr⟩ | ⟨q, m', hq, ho, h⟩
  · rw [h]
    refine .refused ?_
    intro q hq
    by_cases huse : m.inUse q
    · exact Or.inl huse
    · obtain ⟨e, he⟩ := hr q hq
      rw [Machine.rmdir, if_neg huse] at he
      exact Or.inr ⟨e, he⟩
  · rw [h]
    rw [Machine.rmdir] at ho
    split at ho
    · cases ho
    · rename_i huse
      rcases hf : m.files.rmdir q with ⟨files, r⟩
      simp only [hf, Prod.mk.injEq] at ho
      obtain ⟨rfl, rfl⟩ := ho
      exact .removed hq (by simpa using huse) hf

theorem chdir (path : String) : m.Served pid (.chdir path) (m.onPath pid path (m.chdir pid)).1
    (m.onPath pid path (m.chdir pid)).2 := by
  have hkeep : ∀ q m' e, m.chdir pid q = (m', .error e) → m' = m := by
    intro q m' e h
    rw [Machine.chdir] at h
    split at h
    · cases h
    · exact (congrArg Prod.fst h).symm
  rcases onPath m pid hkeep with ⟨h, hr⟩ | ⟨q, m', hq, ho, h⟩
  · rw [h]
    refine .refused ?_
    intro q hq
    obtain ⟨e, he⟩ := hr q hq
    by_contra hdir
    rw [Machine.chdir, if_pos (by simpa using hdir)] at he
    cases he
  · rw [h]
    rw [Machine.chdir] at ho
    split at ho
    · rename_i hdir
      obtain ⟨rfl, -⟩ := Prod.mk.inj ho
      exact .moved hq hdir
    · cases ho

end Served

theorem served (m : Machine) (pid : Pid) (c : Call) :
    m.Served pid c (m.serve pid c).1 (m.serve pid c).2 := by
  cases c with
  | exec path args => exact Served.exec m pid path args
  | join child status => exact Served.join m pid child status
  | create path => exact Served.create m pid path
  | openFile path => exact Served.openFile m pid path
  | read fd size => exact Served.read m pid fd size
  | write fd bs => exact Served.write m pid fd bs
  | readRaw fd address size => exact .refused trivial
  | writeRaw fd address size => exact .refused trivial
  | close fd => exact Served.close m pid fd
  | unlink path => exact Served.unlink m pid path
  | chdir path => exact Served.chdir m pid path
  | mkdir path => exact Served.mkdir m pid path
  | rmdir path => exact Served.rmdir m pid path
  | ask request a0 a1 => exact .asked (m.asked pid request a0 a1)

theorem served_of_serve {m m' : Machine} {pid : Pid} {c : Call} {r : Reaction c.Answer}
    (h : m.serve pid c = (m', r)) : m.Served pid c m' r := by
  have hs := m.served pid c
  rw [h] at hs
  exact hs

section Requests

variable (m : Machine) (pid : Pid) (a0 a1 : Word)

theorem serve_loadWord : m.serve pid (.ask Request.loadWord.code a0 a1) =
    (m, .answer (m.referee.load a0)) := by
  simp only [serve, ask, Request.ofCode?_code]

theorem serve_storeWord : m.serve pid (.ask Request.storeWord.code a0 a1) =
    ({ m with referee := m.referee.store a0 a1 }, .answer 0) := by
  simp only [serve, ask, Request.ofCode?_code]

theorem serve_v (h : m.referee.permits a0 < Referee.maxPermits) :
    m.serve pid (.ask Request.v.code a0 a1) =
      ({ m with referee := m.referee.setPermits a0 (m.referee.permits a0 + 1) }, .answer 0) := by
  simp only [serve, ask, Request.ofCode?_code, Referee.v, if_pos h]

theorem serve_p_running (hh : m.referee.halted = false) :
    m.serve pid (.ask Request.p.code a0 a1) =
      if 0 < m.referee.permits a0 then
        ({ m with referee := m.referee.setPermits a0 (m.referee.permits a0 - 1) }, .answer 0)
      else (m, .blocked) := by
  simp only [serve, ask, Request.ofCode?_code, Referee.p, hh, Bool.false_eq_true, if_false]
  by_cases hp : 0 < m.referee.permits a0
  · simp only [if_pos hp]
  · simp only [if_neg hp]

theorem serve_p {m m' : Machine} {pid : Pid} {a0 a1 : Word} {a : Word}
    (h : m.serve pid (.ask Request.p.code a0 a1) = (m', .answer a)) :
    0 < m.referee.permits a0 ∧
      m' = { m with referee := m.referee.setPermits a0 (m.referee.permits a0 - 1) } := by
  simp only [serve, ask, Request.ofCode?_code, Referee.p] at h
  by_cases hh : m.referee.halted
  · simp [hh] at h
  · by_cases hp : 0 < m.referee.permits a0
    · simp only [if_neg hh, if_pos hp] at h
      exact ⟨hp, (congrArg Prod.fst h).symm⟩
    · simp [hh, hp] at h

end Requests

end Machine

end KernelExam

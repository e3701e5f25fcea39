import KernelExam.Proofs.Machine.Served

/-!
# Calls that stay at home

Most calls read and change the files, the console and the caller's own entry in the
process table, and nothing else. On two machines that agree in these they do the same,
whatever the other processes and the referee are like.
-/

set_option autoImplicit false

namespace KernelExam

def ProcessState.withDescriptor (fd : Word) (d : Descriptor) (p : ProcessState) : ProcessState :=
  { p with descriptors := p.descriptors.set fd (some d) }

def Call.Local : Call → Prop
  | .exec _ _ | .join _ _ | .rmdir _ | .ask _ _ _ => False
  | _ => True

/-- What a call leaves behind at home. -/
structure Deed where
  files : FileSystem
  stdin : Bytes
  stdout : Bytes
  change : ProcessState → ProcessState

def Deed.Harmless (d : Deed) : Prop :=
  ∀ p, (d.change p).parent = p.parent ∧ (d.change p).termination = p.termination

namespace Machine

def recast (m : Machine) (processes : ProcessTable) (tasks : List (Option Task))
    (referee : Referee) : Machine :=
  { m with processes, tasks, referee }

def bear (m : Machine) (pid : Pid) (d : Deed) : Machine :=
  { m with
    files := d.files
    stdin := d.stdin
    stdout := d.stdout
    processes := m.processes.modify pid d.change }

theorem bear_id (m : Machine) (pid : Pid) (files : FileSystem) (stdin stdout : Bytes) :
    m.bear pid ⟨files, stdin, stdout, id⟩ = { m with files, stdin, stdout } := by
  rw [bear, ProcessTable.modify_id]

section Recast

variable (m : Machine) (tasks : List (Option Task)) (referee : Referee) {pid : Pid}
variable {processes : ProcessTable} {p : ProcessState} (h : processes.get? pid = some p)
include h

theorem resolve_recast (path : String) :
    (m.recast processes tasks referee).resolve pid path = Path.resolve path p.cwd := by
  have hp : (m.recast processes tasks referee).processes.get? pid = some p := h
  rw [resolve, hp]
  rfl

theorem descriptor?_recast (fd : Word) :
    (m.recast processes tasks referee).descriptor? pid fd = p.descriptors.get? fd := by
  have hp : (m.recast processes tasks referee).processes.get? pid = some p := h
  rw [descriptor?, hp]
  rfl

end Recast

def Everywhere {α : Type} (m : Machine) (pid : Pid) (p : ProcessState)
    (operation : Machine → Machine × Reaction α) (d : Deed) (a : α) : Prop :=
  ∀ processes tasks referee, processes.get? pid = some p →
    operation (m.recast processes tasks referee) =
      ((m.recast processes tasks referee).bear pid d, .answer a)

section Everywhere

variable {α : Type} (m : Machine) (pid : Pid) (p : ProcessState)

theorem exists_everywhere {operation : Machine → Machine × Reaction α} (files : FileSystem)
    (stdin stdout : Bytes) (a : α)
    (h : ∀ processes tasks referee, processes.get? pid = some p →
      operation (m.recast processes tasks referee) =
        ({ m.recast processes tasks referee with files, stdin, stdout }, .answer a)) :
    ∃ d a, d.Harmless ∧ m.Everywhere pid p operation d a := by
  refine ⟨⟨files, stdin, stdout, id⟩, a, fun _ => ⟨rfl, rfl⟩, fun P T R hp => ?_⟩
  rw [bear_id, h P T R hp]

theorem everywhere_install (o : Nat) :
    ∃ d a, d.Harmless ∧ m.Everywhere pid p (·.install pid o) d a := by
  rcases hi : p.descriptors.insert (.ofObject o) with _ | ⟨ds, n⟩
  · apply exists_everywhere m pid p m.files m.stdin m.stdout (-1 : Word)
    intro P T R hp
    have hp' : (m.recast P T R).processes.get? pid = some p := hp
    simp only [install, hp', hi]
    rfl
  · refine ⟨⟨m.files, m.stdin, m.stdout, fun p => { p with descriptors := ds }⟩,
      Int32.ofNat n, fun _ => ⟨rfl, rfl⟩, fun P T R hp => ?_⟩
    have hp' : (m.recast P T R).processes.get? pid = some p := hp
    simp only [install, hp', hi, bear, ProcessTable.modify_of_get? hp']
    rfl

theorem everywhere_create (path : String) :
    ∃ d a, d.Harmless ∧ m.Everywhere pid p (·.create pid path) d a := by
  cases hq : Path.resolve path p.cwd with
  | none =>
    apply exists_everywhere m pid p m.files m.stdin m.stdout (-1 : Word)
    intro P T R hp
    simp only [create, m.resolve_recast T R hp, hq]
    rfl
  | some q =>
    rcases hf : m.files.create q with ⟨files, e | o⟩
    · apply exists_everywhere m pid p files m.stdin m.stdout (-1 : Word)
      intro P T R hp
      have hfiles : (m.recast P T R).files.create q = (files, .error e) := hf
      simp only [create, m.resolve_recast T R hp, hq, hfiles]
      rfl
    · obtain ⟨d, a, hd, hi⟩ := everywhere_install { m with files } pid p o
      refine ⟨d, a, hd, fun P T R hp => ?_⟩
      have hfiles : (m.recast P T R).files.create q = (files, .ok o) := hf
      simp only [create, m.resolve_recast T R hp, hq, hfiles]
      exact hi P T R hp

theorem everywhere_openFile (path : String) :
    ∃ d a, d.Harmless ∧ m.Everywhere pid p (·.openFile pid path) d a := by
  have hrefused (h : ∀ P T R, P.get? pid = some p →
      (m.recast P T R).openFile pid path = (m.recast P T R, .answer (-1))) :
      ∃ d a, d.Harmless ∧ m.Everywhere pid p (·.openFile pid path) d a :=
    exists_everywhere m pid p m.files m.stdin m.stdout (-1 : Word) h
  cases hq : Path.resolve path p.cwd with
  | none =>
    apply hrefused
    intro P T R hp
    simp only [openFile, m.resolve_recast T R hp, hq]
  | some q =>
    cases hf : m.files.openFile q with
    | error e =>
      apply hrefused
      intro P T R hp
      have hfiles : (m.recast P T R).files.openFile q = .error e := hf
      simp only [openFile, m.resolve_recast T R hp, hq, hfiles]
    | ok o =>
      obtain ⟨d, a, hd, hi⟩ := everywhere_install m pid p o
      refine ⟨d, a, hd, fun P T R hp => ?_⟩
      have hfiles : (m.recast P T R).files.openFile q = .ok o := hf
      simp only [openFile, m.resolve_recast T R hp, hq, hfiles]
      exact hi P T R hp

theorem everywhere_read (fd : Word) (size : Nat) :
    ∃ d a, d.Harmless ∧ m.Everywhere pid p (·.read pid fd size) d a := by
  have hrefused (h : ∀ P T R, P.get? pid = some p →
      (m.recast P T R).read pid fd size = (m.recast P T R, .answer (-1, []))) :
      ∃ d a, d.Harmless ∧ m.Everywhere pid p (·.read pid fd size) d a :=
    exists_everywhere m pid p m.files m.stdin m.stdout ((-1, []) : Word × Bytes) h
  cases hd : p.descriptors.get? fd with
  | none =>
    apply hrefused
    intro P T R hp
    rw [read, m.descriptor?_recast T R hp, hd]
  | some d =>
    by_cases hr : d.readable
    · cases he : d.endpoint with
      | stdout =>
        apply hrefused
        intro P T R hp
        simp only [read, m.descriptor?_recast T R hp, hd, if_pos hr, he]
      | stdin =>
        apply exists_everywhere m pid p m.files (m.stdin.drop size) m.stdout
          ((Int32.ofNat (m.stdin.take size).length, m.stdin.take size) : Word × Bytes)
        intro P T R hp
        simp only [read, m.descriptor?_recast T R hp, hd, if_pos hr, he]
        rfl
      | file o position =>
        let start := min position (m.files.objects.contents o).length
        let bs := m.files.objects.slice o start size
        refine ⟨⟨m.files, m.stdin, m.stdout, ProcessState.withDescriptor fd
          (d.seek (start + bs.length))⟩,
          ((Int32.ofNat bs.length, bs) : Word × Bytes), fun _ => ⟨rfl, rfl⟩, fun P T R hp => ?_⟩
        simp only [read, m.descriptor?_recast T R hp, hd, if_pos hr, he]
        rfl
    · apply hrefused
      intro P T R hp
      simp only [read, m.descriptor?_recast T R hp, hd, if_neg hr]

theorem everywhere_write (fd : Word) (bs : Bytes) :
    ∃ d a, d.Harmless ∧ m.Everywhere pid p (·.write pid fd bs) d a := by
  have hrefused (h : ∀ P T R, P.get? pid = some p →
      (m.recast P T R).write pid fd bs = (m.recast P T R, .answer (-1))) :
      ∃ d a, d.Harmless ∧ m.Everywhere pid p (·.write pid fd bs) d a :=
    exists_everywhere m pid p m.files m.stdin m.stdout (-1 : Word) h
  cases hd : p.descriptors.get? fd with
  | none =>
    apply hrefused
    intro P T R hp
    rw [write, m.descriptor?_recast T R hp, hd]
  | some d =>
    by_cases hw : d.writable
    · cases he : d.endpoint with
      | stdin =>
        apply hrefused
        intro P T R hp
        simp only [write, m.descriptor?_recast T R hp, hd, if_pos hw, he]
      | stdout =>
        apply exists_everywhere m pid p m.files m.stdin (m.stdout ++ bs)
          (Int32.ofNat bs.length : Word)
        intro P T R hp
        simp only [write, m.descriptor?_recast T R hp, hd, if_pos hw, he]
        rfl
      | file o position =>
        refine ⟨⟨{ m.files with objects := m.files.objects.overwrite o position bs }, m.stdin,
          m.stdout, ProcessState.withDescriptor fd (d.seek (position + bs.length))⟩,
          (Int32.ofNat bs.length : Word), fun _ => ⟨rfl, rfl⟩, fun P T R hp => ?_⟩
        simp only [write, m.descriptor?_recast T R hp, hd, if_pos hw, he]
        rfl
    · apply hrefused
      intro P T R hp
      simp only [write, m.descriptor?_recast T R hp, hd, if_neg hw]

theorem everywhere_close (fd : Word) :
    ∃ d a, d.Harmless ∧ m.Everywhere pid p (·.close pid fd) d a := by
  cases hd : p.descriptors.get? fd with
  | none =>
    apply exists_everywhere m pid p m.files m.stdin m.stdout (-1 : Word)
    intro P T R hp
    simp only [close, m.descriptor?_recast T R hp, hd]
    rfl
  | some d =>
    refine ⟨⟨m.files, m.stdin, m.stdout, fun p =>
      { p with descriptors := (p.descriptors.remove fd).1 }⟩, (0 : Word), fun _ => ⟨rfl, rfl⟩,
      fun P T R hp => ?_⟩
    simp only [close, m.descriptor?_recast T R hp, hd]
    rfl

theorem everywhere_onFiles (path : String) {operation : Machine → String → Machine × Except FileError Unit}
    (change : String → FileSystem × Except FileError Unit)
    (h : ∀ P T R q, operation (m.recast P T R) q =
      ({ m.recast P T R with files := (change q).1 }, (change q).2)) :
    ∃ d a, d.Harmless ∧ m.Everywhere pid p (fun m => m.onPath pid path (operation m)) d a := by
  cases hq : Path.resolve path p.cwd with
  | none =>
    apply exists_everywhere m pid p m.files m.stdin m.stdout (-1 : Word)
    intro P T R hp
    simp only [onPath, m.resolve_recast T R hp, hq]
    rfl
  | some q =>
    rcases hc : change q with ⟨files, e | _⟩
    · apply exists_everywhere m pid p files m.stdin m.stdout (-1 : Word)
      intro P T R hp
      simp only [onPath, m.resolve_recast T R hp, hq, h, hc]
      rfl
    · apply exists_everywhere m pid p files m.stdin m.stdout (0 : Word)
      intro P T R hp
      simp only [onPath, m.resolve_recast T R hp, hq, h, hc]
      rfl

theorem everywhere_chdir (path : String) :
    ∃ d a, d.Harmless ∧ m.Everywhere pid p (fun m => m.onPath pid path (m.chdir pid)) d a := by
  have hrefused (h : ∀ P T R, P.get? pid = some p →
      (m.recast P T R).onPath pid path ((m.recast P T R).chdir pid) =
        (m.recast P T R, .answer (-1))) :
      ∃ d a, d.Harmless ∧ m.Everywhere pid p (fun m => m.onPath pid path (m.chdir pid)) d a :=
    exists_everywhere m pid p m.files m.stdin m.stdout (-1 : Word) h
  cases hq : Path.resolve path p.cwd with
  | none =>
    apply hrefused
    intro P T R hp
    simp only [onPath, m.resolve_recast T R hp, hq]
  | some q =>
    by_cases hdir : m.files.isDir q
    · refine ⟨⟨m.files, m.stdin, m.stdout, fun p => { p with cwd := q }⟩, (0 : Word),
        fun _ => ⟨rfl, rfl⟩, fun P T R hp => ?_⟩
      have hdir' : (m.recast P T R).files.isDir q := hdir
      simp only [onPath, m.resolve_recast T R hp, hq, chdir, if_pos hdir']
      rfl
    · apply hrefused
      intro P T R hp
      have hdir' : ¬ (m.recast P T R).files.isDir q := hdir
      simp only [onPath, m.resolve_recast T R hp, hq, chdir, if_neg hdir']

/-- What a call does that stays at home depends on nothing else. -/
theorem serve_local {c : Call} (hc : c.Local) :
    ∃ d a, d.Harmless ∧ m.Everywhere pid p (·.serve pid c) d a := by
  cases c with
  | create path => exact m.everywhere_create pid p path
  | openFile path => exact m.everywhere_openFile pid p path
  | read fd size => exact m.everywhere_read pid p fd size
  | write fd bs => exact m.everywhere_write pid p fd bs
  | close fd => exact m.everywhere_close pid p fd
  | unlink path => exact m.everywhere_onFiles pid p path m.files.unlink fun _ _ _ _ => rfl
  | mkdir path => exact m.everywhere_onFiles pid p path m.files.mkdir fun _ _ _ _ => rfl
  | chdir path => exact m.everywhere_chdir pid p path
  | readRaw fd address size | writeRaw fd address size =>
    exact exists_everywhere m pid p m.files m.stdin m.stdout (-1 : Word) fun _ _ _ _ => rfl
  | exec path args | join child status | rmdir path | ask request a0 a1 => cases hc

end Everywhere

end Machine

end KernelExam

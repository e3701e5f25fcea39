import KernelExam.Proofs.Machine.Locality
import KernelExam.Proofs.Machine.Restart

/-!
# What one process has before it

A call of a process depends on the process's own directory and descriptors, the files, slots,
permits and the console, and on who else is there hardly ever. These make up a small state, and
what a call makes of it is the same on every machine with that process alive. A program without
a choice is followed from call to call in that state.
-/

set_option autoImplicit false

namespace KernelExam

/-- What a program reads and changes while nobody has reported anything. -/
structure Solo where
  cwd : String
  descriptors : DescriptorTable
  files : FileSystem
  slots : Word → Word
  permits : Word → Nat
  checkpoints : List Word
  stdin : Bytes
  stdout : Bytes

namespace Solo

/-- The machine with all that process `r` reads and changes as it is in the state. -/
def amid (s : Solo) (m : Machine) (r : Pid) : Machine :=
  { m with
    files := s.files
    processes := m.processes.modify r fun p =>
      { p with cwd := s.cwd, descriptors := s.descriptors }
    referee := ⟨s.slots, s.permits, none, s.checkpoints, m.referee.live, false⟩
    stdin := s.stdin
    stdout := s.stdout }

/-- Whoever is alive and in the state is given that answer, whoever else is there. -/
def Acts (s : Solo) (c : Call) (a : c.Answer) (s' : Solo) : Prop :=
  ∀ m r, m.alive r = true → (s.amid m r).serve r c = (s'.amid m r, .answer a)

section Calls

variable {s : Solo} {path q : String} {fd : Word} {m : Machine} {r : Int}

theorem get?_amid (ha : m.alive r = true) : ∃ p, m.processes.get? r = some p ∧
    p.termination = none ∧ (s.amid m r).processes.get? r =
      some { p with cwd := s.cwd, descriptors := s.descriptors } := by
  obtain ⟨p, hp, hlive⟩ := (Machine.alive_iff m r).mp ha
  refine ⟨p, hp, hlive, ?_⟩
  rw [amid, ProcessTable.get?_modify, if_pos rfl, hp]
  rfl

theorem resolve_amid (ha : m.alive r = true) (path : String) :
    (s.amid m r).resolve r path = Path.resolve path s.cwd := by
  obtain ⟨p, -, -, hp⟩ := get?_amid (s := s) ha
  rw [Machine.resolve, hp]
  rfl

theorem descriptor?_amid (ha : m.alive r = true) (fd : Word) :
    (s.amid m r).descriptor? r fd = s.descriptors.get? fd := by
  obtain ⟨p, -, -, hp⟩ := get?_amid (s := s) ha
  rw [Machine.descriptor?, hp]
  rfl

variable (s m r) in
theorem amid_with_descriptors (files : FileSystem) (change : DescriptorTable → DescriptorTable) :
    { s.amid m r with
      files
      processes := (s.amid m r).processes.modify r fun p =>
        { p with descriptors := change p.descriptors } } =
      ({ s with files, descriptors := change s.descriptors } : Solo).amid m r := by
  simp only [amid, ProcessTable.modify_modify]

theorem install_amid {o n : Nat} {table : DescriptorTable} (ha : m.alive r = true)
    (hi : s.descriptors.insert (.ofObject o) = some (table, n)) :
    (s.amid m r).install r o =
      (({ s with descriptors := table } : Solo).amid m r, .answer (Int32.ofNat n)) := by
  obtain ⟨p, -, -, hp⟩ := get?_amid (s := s) ha
  simp only [Machine.install, hp, hi]
  have htable := amid_with_descriptors s m r s.files fun _ => table
  rw [ProcessTable.modify_of_get? hp] at htable
  exact congrArg (·, _) htable

section Path

variable (hq : Path.resolve path s.cwd = some q)
include hq

theorem acts_chdir (hd : s.files.isDir q = true) :
    s.Acts (.chdir path) (0 : Word) { s with cwd := q } := by
  intro m r ha
  have hdir : (s.amid m r).files.isDir q = true := hd
  simp only [Machine.serve, Machine.onPath, resolve_amid ha, hq, Machine.chdir, hdir, if_true]
  simp only [amid, ProcessTable.modify_modify]

theorem acts_chdir_refused (hd : s.files.isDir q = false) :
    s.Acts (.chdir path) (-1 : Word) s := by
  intro m r ha
  have hdir : (s.amid m r).files.isDir q = false := hd
  simp only [Machine.serve, Machine.onPath, resolve_amid ha, hq, Machine.chdir, hdir,
    Bool.false_eq_true, if_false]

theorem acts_openFile {o n : Nat} {table : DescriptorTable} (ho : s.files.openFile q = .ok o)
    (hi : s.descriptors.insert (.ofObject o) = some (table, n)) :
    s.Acts (.openFile path) (Int32.ofNat n) { s with descriptors := table } := by
  intro m r ha
  have hopen : (s.amid m r).files.openFile q = .ok o := ho
  simp only [Machine.serve, Machine.openFile, resolve_amid ha, hq, hopen, install_amid ha hi]

theorem acts_openFile_refused {e : FileError} (ho : s.files.openFile q = .error e) :
    s.Acts (.openFile path) (-1 : Word) s := by
  intro m r ha
  have hopen : (s.amid m r).files.openFile q = .error e := ho
  simp only [Machine.serve, Machine.openFile, resolve_amid ha, hq, hopen]

theorem acts_openFile_crowded {o : Nat} (ho : s.files.openFile q = .ok o)
    (hi : s.descriptors.insert (.ofObject o) = none) : s.Acts (.openFile path) (-1 : Word) s := by
  intro m r ha
  have hopen : (s.amid m r).files.openFile q = .ok o := ho
  obtain ⟨p, -, -, hp⟩ := get?_amid (s := s) ha
  simp only [Machine.serve, Machine.openFile, resolve_amid ha, hq, hopen, Machine.install, hp, hi]

theorem acts_create {o n : Nat} {files : FileSystem} {table : DescriptorTable}
    (hc : s.files.create q = (files, .ok o))
    (hi : s.descriptors.insert (.ofObject o) = some (table, n)) :
    s.Acts (.create path) (Int32.ofNat n) { s with files, descriptors := table } := by
  intro m r ha
  have hmade : (s.amid m r).files.create q = (files, .ok o) := hc
  have hinstall : (({ s with files } : Solo).amid m r).install r o = _ := install_amid ha hi
  simp only [Machine.serve, Machine.create, resolve_amid ha, hq, hmade]
  exact hinstall

theorem onPath_amid {files : FileSystem} (result : Except FileError Unit) {code : Word}
    {operation : String → Machine × Except FileError Unit} (ha : m.alive r = true)
    (ho : operation q = ({ s.amid m r with files }, result))
    (hcode : code = if result.isOk then 0 else -1) :
    (s.amid m r).onPath r path operation =
      (({ s with files } : Solo).amid m r, .answer code) := by
  simp only [Machine.onPath, resolve_amid ha, hq, ho, hcode]
  cases result <;> rfl

theorem acts_unlink {files : FileSystem} (hu : s.files.unlink q = (files, .ok ())) :
    s.Acts (.unlink path) (0 : Word) { s with files } := by
  intro m r ha
  have hgone : (s.amid m r).files.unlink q = (files, .ok ()) := hu
  refine onPath_amid hq (.ok ()) ha ?_ rfl
  rw [Machine.unlink, hgone]

theorem acts_mkdir {files : FileSystem} (hm : s.files.mkdir q = (files, .ok ())) :
    s.Acts (.mkdir path) (0 : Word) { s with files } := by
  intro m r ha
  have hmade : (s.amid m r).files.mkdir q = (files, .ok ()) := hm
  refine onPath_amid hq (.ok ()) ha ?_ rfl
  rw [Machine.mkdir, hmade]

theorem acts_mkdir_refused {e : FileError} (hm : s.files.mkdir q = (s.files, .error e)) :
    s.Acts (.mkdir path) (-1 : Word) s := by
  intro m r ha
  have hmade : (s.amid m r).files.mkdir q = (s.files, .error e) := hm
  refine onPath_amid hq (.error e) ha ?_ rfl
  rw [Machine.mkdir, hmade]

end Path

theorem setDescriptor_amid (fd : Word) (d : Descriptor) (files : FileSystem) :
    ({ s.amid m r with files } : Machine).setDescriptor r fd d =
      ({ s with files, descriptors := s.descriptors.set fd (some d) } : Solo).amid m r :=
  amid_with_descriptors s m r files fun table => table.set fd (some d)

variable (fd) in
theorem acts_read {o position : Nat} {writable : Bool} (size : Nat)
    (hd : s.descriptors.get? fd = some ⟨.file o position, true, writable⟩)
    (hle : position ≤ (s.files.objects.contents o).length) :
    s.Acts (.read fd size)
      (Int32.ofNat (s.files.objects.slice o position size).length,
        s.files.objects.slice o position size)
      { s with descriptors := s.descriptors.set fd (some ⟨.file o
        (position + (s.files.objects.slice o position size).length), true, writable⟩) } := by
  intro m r ha
  have hstart : min position ((s.amid m r).files.objects.contents o).length = position :=
    Nat.min_eq_left hle
  simp only [Machine.serve, Machine.read, descriptor?_amid ha, hd, if_true, hstart]
  exact congrArg (·, _) (setDescriptor_amid fd _ s.files)

theorem acts_read_console {writable : Bool} (size : Nat)
    (hd : s.descriptors.get? fd = some ⟨.stdin, true, writable⟩) :
    s.Acts (.read fd size) (Int32.ofNat (s.stdin.take size).length, s.stdin.take size)
      { s with stdin := s.stdin.drop size } := by
  intro m r ha
  simp only [Machine.serve, Machine.read, descriptor?_amid ha, hd, if_true]
  rfl

theorem acts_write_stdout {readable : Bool} (bs : Bytes)
    (hd : s.descriptors.get? fd = some ⟨.stdout, readable, true⟩) :
    s.Acts (.write fd bs) (Int32.ofNat bs.length) { s with stdout := s.stdout ++ bs } := by
  intro m r ha
  simp only [Machine.serve, Machine.write, descriptor?_amid ha, hd, if_true]
  rfl

variable (fd) in
theorem acts_write_file {o position : Nat} {readable : Bool} (bs : Bytes)
    (hd : s.descriptors.get? fd = some ⟨.file o position, readable, true⟩) :
    s.Acts (.write fd bs) (Int32.ofNat bs.length)
      { s with
        files := { s.files with objects := s.files.objects.overwrite o position bs }
        descriptors := s.descriptors.set fd
          (some ⟨.file o (position + bs.length), readable, true⟩) } := by
  intro m r ha
  simp only [Machine.serve, Machine.write, descriptor?_amid ha, hd, if_true]
  exact congrArg (·, _) (setDescriptor_amid fd _ _)

theorem acts_close {d : Descriptor} (hd : s.descriptors.get? fd = some d) :
    s.Acts (.close fd) (0 : Word) { s with descriptors := (s.descriptors.remove fd).1 } := by
  intro m r ha
  simp only [Machine.serve, Machine.close, descriptor?_amid ha, hd]
  exact congrArg (·, _) (amid_with_descriptors s m r s.files fun table => (table.remove fd).1)

theorem acts_close_refused (hd : s.descriptors.get? fd = none) :
    s.Acts (.close fd) (-1 : Word) s := by
  intro m r ha
  simp only [Machine.serve, Machine.close, descriptor?_amid ha, hd]

theorem acts_readRaw (address size : Nat) : s.Acts (.readRaw fd address size) (-1 : Word) s :=
  fun _ _ _ => rfl

theorem acts_writeRaw (address size : Nat) : s.Acts (.writeRaw fd address size) (-1 : Word) s :=
  fun _ _ _ => rfl

theorem acts_load (i a1 : Word) : s.Acts (.ask Request.loadWord.code i a1) (s.slots i) s :=
  fun _ _ _ => rfl

theorem acts_store (i value : Word) : s.Acts (.ask Request.storeWord.code i value) (0 : Word)
    { s with slots := fun j => if j = i then value else s.slots j } :=
  fun _ _ _ => rfl

theorem acts_p (id a1 : Word) (h : 0 < s.permits id) :
    s.Acts (.ask Request.p.code id a1) (0 : Word)
      { s with permits := fun j => if j = id then s.permits id - 1 else s.permits j } := by
  intro m r _
  have htaken : (s.amid m r).referee.p id = .taken ((s.amid m r).referee.setPermits id
      (s.permits id - 1)) := if_pos h
  simp only [Machine.serve, Machine.ask, Request.ofCode?_code, htaken]
  rfl

theorem acts_v (id a1 : Word) (h : s.permits id < Referee.maxPermits) :
    s.Acts (.ask Request.v.code id a1) (0 : Word)
      { s with permits := fun j => if j = id then s.permits id + 1 else s.permits j } := by
  intro m r _
  have hput : (s.amid m r).referee.v id = .ok ((s.amid m r).referee.setPermits id
      (s.permits id + 1)) := if_pos h
  simp only [Machine.serve, Machine.ask, Request.ofCode?_code, hput]
  rfl

def text (s : Solo) (slot : Slot) (words : Nat) : Except Fault String :=
  ({ Referee.fresh with slots := s.slots } : Referee).text slot.index words

theorem text_amid (slot : Slot) (words : Nat) :
    (s.amid m r).referee.text slot.index words = s.text slot words :=
  Referee.text_congr _ _ fun _ _ => rfl

theorem acts_fileExists {slot : Slot} {words : Nat} {name : String} (hw : words < 2147483648)
    (hname : s.text slot words = .ok name) (hq : Path.resolve name "/" = some q) :
    s.Acts (.ask Request.fileExists.code slot.index (Int32.ofNat words))
      (if s.files.fileExists q then 1 else 0) s := by
  intro m r _
  have hcount : (Int32.ofNat words).toInt = words := Int32.toInt_ofNat_of_lt hw
  have hnonneg : ¬ Int32.ofNat words < 0 := by
    rw [Int32.lt_iff_toInt_lt, hcount]
    exact Int.not_lt.mpr (Int.natCast_nonneg words)
  have hfound : (s.amid m r).fileExists name = s.files.fileExists q := by
    rw [Machine.fileExists, hq]
    rfl
  simp only [Machine.serve, Machine.ask, Request.ofCode?_code, Machine.existsInSlots, hnonneg,
    if_false, hcount, Int.toNat_natCast, text_amid, hname, hfound]

end Calls

/-- The program comes to that result and that state by as many calls, all answered whoever else
is there. The permits are as wanted before each of them. -/
inductive Runs {α : Type} (I : (Word → Nat) → Prop) : Nat → Solo → Program α → Solo → α → Prop
  | done {s : Solo} {a : α} : Runs I 0 s (.done a) s a
  | call {k : Nat} {s s' s'' : Solo} {c : Call} {a : c.Answer} {next : c.Answer → Program α}
      {b : α} : I s.permits → s.Acts c a s' → Runs I k s' (next a) s'' b →
      Runs I (k + 1) s (.call c next) s'' b

section Runs

variable {α β : Type} {I : (Word → Nat) → Prop} {k : Nat} {s s' s'' : Solo} {x : Program α}
  {f : α → Program β} {a : α} {b : β}

theorem Runs.bind (l : Nat) (h : Runs I k s x s' a) (hf : Runs I l s' (f a) s'' b) :
    Runs I (k + l) s (x.bind f) s'' b := by
  induction h with
  | done =>
    rw [Nat.zero_add]
    exact hf
  | call hi ha _ ih =>
    rw [Nat.succ_add]
    exact .call hi ha (ih hf)

theorem Runs.map (h : Runs I k s x s' a) (g : α → β) :
    Runs I k s (x.bind fun a => .done (g a)) s' (g a) :=
  h.bind 0 .done

theorem Runs.make {c : Call} {a : c.Answer} (ha : s.Acts c a s') (hi : I s.permits) :
    Runs I 1 s (.make c) s' a :=
  .call hi ha .done

theorem runs_loadRun (hi : I s.permits) (i : Word) (n : Nat) :
    Runs I n s (Session.loadRun i n) s
      (({ Referee.fresh with slots := s.slots } : Referee).loadRun i n) := by
  induction n generalizing i with
  | zero => exact .done
  | succ n ih =>
    rw [Session.loadRun_succ]
    exact .call hi (acts_load i 0) ((ih (i + 1)).map _)

theorem runs_stringArgument {slot : Slot} {n : Nat} {name : String} (hi : I s.permits)
    (hlast : slot.index.toInt + n ≤ 2147483647) (hname : s.text slot n = .ok name) :
    Runs I n s (Session.stringArgument slot n) s name := by
  have hwords := Referee.length_loadRun { Referee.fresh with slots := s.slots } slot.index n
  rw [text, Referee.text_eq _ _ _ hlast] at hname
  obtain rfl := Except.ok.inj hname
  have hfull : unpack (({ Referee.fresh with slots := s.slots } : Referee).loadRun slot.index n)
      (zeros (4 * n)) =
      (({ Referee.fresh with slots := s.slots } : Referee).loadRun slot.index n).flatMap
        bytesOfWord := by
    have hlength : (zeros (4 * n)).length = 4 * n := List.length_replicate
    rw [Session.unpack_eq_take (by rw [hlength, hwords]), List.take_of_length_le]
    rw [Session.length_flatMap_bytesOfWord, hwords, hlength]
  rw [Session.stringArgument_eq_reading slot hlast, ← hfull]
  exact (runs_loadRun hi slot.index n).map _

def counted (s : Solo) : Solo :=
  { s with slots := fun j =>
      if j = countSlot then s.slots countSlot + 1 else s.slots j }

theorem slots_counted : s.counted.slots countSlot = s.slots countSlot + 1 := by
  rw [counted]
  simp only [if_true]

theorem slots_counted_of_ne {j : Word} (hj : j ≠ countSlot) : s.counted.slots j = s.slots j := by
  rw [counted]
  exact if_neg hj

theorem text_counted {slot : Slot} {n : Nat}
    (hn : ∀ k < n, slot.index + Int32.ofNat k ≠ countSlot) :
    s.counted.text slot n = s.text slot n :=
  Referee.text_congr slot.index n fun k hk => if_neg (hn k hk)

section Register

variable (hi : ∀ permits : Word → Nat, (∀ j, j ≠ lockId → permits j = s.permits j) → I permits)
  (hlock : s.permits lockId = 1) (hcount : s.slots countSlot ≠ Int32.maxValue)
include hi hlock hcount

/-- What is wanted of the permits must not be about the lock, which is taken and released. -/
theorem runs_takeNumber : Runs I 4 s Session.takeNumber s.counted (s.slots countSlot) := by
  have hfree : 0 < s.permits lockId := by
    rw [hlock]
    exact Nat.one_pos
  have hfull : 1 - 1 < Referee.maxPermits := by decide
  have htaken : I fun j => if j = lockId then s.permits lockId - 1 else s.permits j :=
    hi _ fun j hj => if_neg hj
  have hback : (fun j => if j = lockId then
      (if lockId = lockId then s.permits lockId - 1 else s.permits lockId) + 1
      else if j = lockId then s.permits lockId - 1 else s.permits j) = s.permits := by
    funext j
    by_cases hj : j = lockId
    · rw [if_pos hj, if_pos rfl, hj, hlock]
    · rw [if_neg hj, if_neg hj]
  rw [Session.takeNumber_eq]
  refine .call (hi _ fun _ _ => rfl) (acts_p _ 0 hfree) (.call htaken (acts_load _ 0) ?_)
  dsimp only
  rw [if_neg hcount]
  refine .call htaken (acts_store _ _) (.call htaken (acts_v _ 0 ?_) ?_)
  · dsimp only
    rwa [if_pos rfl, hlock]
  · dsimp only
    rw [hback]
    exact .done

theorem runs_register {name : String}
    (hname : s.text .shellProgram Slot.shellProgramWords = .ok name) :
    Runs I 9 s (Session.register .referee) s.counted
      ⟨s.slots countSlot, s.slots Slot.testId.index, name⟩ := by
  have hnow : I s.counted.permits := hi _ fun _ _ => rfl
  have hstill : s.counted.text .shellProgram Slot.shellProgramWords = .ok name :=
    (text_counted (by decide)).trans hname
  rw [Session.register_eq]
  refine (runs_takeNumber hi hlock hcount).bind 5 ?_
  refine (runs_stringArgument hnow (by decide) hstill).bind 1 ?_
  exact .call hnow (acts_load _ 0) .done

end Register

end Runs

end Solo

end KernelExam

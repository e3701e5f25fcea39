import KernelExam.Proofs.Machine.WorkingDirectory
import KernelExam.Proofs.Slots.Decoding
import KernelExam.Session

/-!
# Asking whether a file exists

A program learns from the referee whether the name that stands in slots is the name of
something. The answer is about the file system that the processes see, the name taken from
the root, and so what a process has just made there is, and what it has removed is not.
-/

set_option autoImplicit false

namespace KernelExam

open Text

namespace FileSystem

variable {fs fs' : FileSystem} {path : String}

theorem Mapped.fileExists_iff (h : fs.Mapped) (hp : Path.Canonical path) :
    fs.fileExists path = true ↔
      path = "/" ∨ fs.isDir path = true ∨ ∃ o, fs.openFile path = .ok o := by
  obtain ⟨s, hs⟩ := h
  rw [hs.fileExists hp, hs.isDir_iff, hs.openFile hp, PathMap.fileExists]
  simp only [PathMap.openFile_eq_ok_iff]
  constructor
  · intro hsome
    rcases hk : s.kind (Path.components path) with _ | _ | o
    · rw [hk] at hsome
      cases hsome
    · exact Or.inr (Or.inl rfl)
    · exact Or.inr (Or.inr ⟨o, rfl⟩)
  · rintro (rfl | hk | ⟨o, hk⟩)
    · rw [s.kind_root]
      rfl
    · rw [hk]
      rfl
    · rw [hk]
      rfl

theorem fileExists_of_agree {α : Type} {a : α} {flat : PathMap × Except FileError α} {b : Bool}
    (h : Agree (fs', .ok a) flat) (hp : Path.Canonical path)
    (hkind : ∀ s, flat = (s, .ok a) → (s.kind (Path.components path)).isSome = b) :
    fs'.fileExists path = b := by
  have hflat : flat = (flat.1, .ok a) := Prod.ext rfl h.answer.symm
  rw [h.shows.fileExists hp, PathMap.fileExists, hkind _ hflat]

section Changes

variable (h : fs.Mapped) (hp : Path.Canonical path)
include h hp

theorem Mapped.fileExists_create {o : Nat} (hc : fs.create path = (fs', .ok o)) :
    fs'.fileExists path = true := by
  obtain ⟨s, hs⟩ := h
  apply fileExists_of_agree (hc ▸ hs.create hp) hp
  intro s' hmade
  rw [(PathMap.create_ok hmade).1]
  rfl

theorem Mapped.fileExists_mkdir (hc : fs.mkdir path = (fs', .ok ())) :
    fs'.fileExists path = true := by
  obtain ⟨s, hs⟩ := h
  apply fileExists_of_agree (hc ▸ hs.mkdir hp) hp
  intro s' hmade
  rw [PathMap.mkdir_ok hmade]
  rfl

theorem Mapped.fileExists_unlink (hc : fs.unlink path = (fs', .ok ())) :
    fs'.fileExists path = false := by
  obtain ⟨s, hs⟩ := h
  apply fileExists_of_agree (hc ▸ hs.unlink hp) hp
  intro s' hgone
  rw [PathMap.unlink_ok hgone]
  rfl

theorem Mapped.fileExists_rmdir (hc : fs.rmdir path = (fs', .ok ())) :
    fs'.fileExists path = false := by
  obtain ⟨s, hs⟩ := h
  apply fileExists_of_agree (hc ▸ hs.rmdir hp) hp
  intro s' hgone
  rw [PathMap.rmdir_ok hgone]
  rfl

end Changes

end FileSystem

namespace Referee

variable {r : Referee} {slot : Slot} {w : Nat} {name : String}

/-- The slots hold the name: all of them have numbers, and their bytes begin with those of
the name and a zero. -/
structure Holds (r : Referee) (slot : Slot) (w : Nat) (name : String) : Prop where
  numbered : Addressed slot.index w
  written : utf8Bytes name ++ [0] <+: r.slotBytes slot.index w

theorem slotBytes_add (i : Word) (n k : Nat) :
    ∃ more, r.slotBytes i (n + k) = r.slotBytes i n ++ more := by
  rw [slotBytes_eq, slotBytes_eq, loadRun_add, List.flatMap_append]
  exact ⟨_, rfl⟩

theorem Holds.mono {w' : Nat} (h : r.Holds slot w name) (hw : w ≤ w')
    (hnumbered : Addressed slot.index w') : r.Holds slot w' name := by
  obtain ⟨k, rfl⟩ := Nat.exists_eq_add_of_le hw
  obtain ⟨more, hmore⟩ := slotBytes_add (r := r) slot.index w k
  refine ⟨hnumbered, h.written.trans ?_⟩
  rw [hmore]
  exact List.prefix_append _ more

theorem Holds.spelled (h : r.Holds slot w name) (hnul : '\x00' ∉ name.toList) :
    r.spelled slot.index w = name := by
  obtain ⟨more, hmore⟩ := h.written
  have huntil : untilNul (r.slotBytes slot.index w) = utf8Bytes name := by
    rw [← hmore]
    have hzero := untilNul_append_zeros (utf8Bytes name) more 0
    rw [untilNul_utf8Bytes, beforeNul_of_not_mem hnul] at hzero
    exact hzero
  rw [Referee.spelled, huntil, lossy_utf8Bytes]

end Referee

namespace Path

theorem resolve_of_isAbsolute {path : String} (h : isAbsolute path = true) (cwd cwd' : String) :
    resolve path cwd = resolve path cwd' := by
  rw [resolve, resolve, h]
  rfl

end Path

namespace Machine

variable {m m' : Machine} {pid : Pid} {slot : Slot} {w : Nat} {name : String}

def Names (m : Machine) (name : String) : Prop :=
  ∃ q, Path.resolve name "/" = some q ∧
    (q = "/" ∨ m.files.isDir q = true ∨ ∃ o, m.files.openFile q = .ok o)

/-- Whoever asks next whether the file named in the slots exists is told so, and nothing else
comes of it. -/
def Tells (m : Machine) (slot : Slot) (w : Nat) (b : Bool) : Prop :=
  ∀ pid t next, m.alive pid = true → m.task? pid = some t →
    t.body = (Session.fileExists slot w).bind next →
    m.step pid = some (m.setTask pid { t with body := next b })

def SeesFromRoot (m : Machine) (pid : Pid) (name : String) : Prop :=
  ∃ p, m.processes.get? pid = some p ∧ (p.cwd = "/" ∨ Path.isAbsolute name = true)

theorem SeesFromRoot.resolve (h : m.SeesFromRoot pid name) :
    m.resolve pid name = Path.resolve name "/" := by
  obtain ⟨p, hp, hcwd | habsolute⟩ := h
  · rw [Machine.resolve, hp, Option.bind_some, hcwd]
  · rw [Machine.resolve, hp, Option.bind_some]
    exact Path.resolve_of_isAbsolute habsolute p.cwd "/"

theorem fileExists_of_resolve {q : String} (h : Path.resolve name "/" = some q) :
    m.fileExists name = m.files.fileExists q := by
  rw [Machine.fileExists, h]

theorem fileExists_iff_names (hm : m.Reachable) : m.fileExists name = true ↔ m.Names name := by
  have hmapped := (housed_invariant.reachable hm).mapped
  rw [Machine.fileExists, Names]
  cases hq : Path.resolve name "/" with
  | none => simp
  | some q =>
    have hcanonical := Path.resolve_canonical name "/" q Path.canonical_root hq
    rw [hmapped.fileExists_iff hcanonical]
    simp

theorem tells (hh : m.referee.halted = false) (hnul : '\x00' ∉ name.toList)
    (hheld : m.referee.Holds slot w name) (hend : slot.index.toInt + (w : Int) ≠ 2147483648) :
    m.Tells slot w (m.fileExists name) := by
  intro pid t next ha ht hb
  have hlow := slot.toInt_index.1
  have hle := hheld.numbered.end_le
  have hcount : (Int32.ofNat w).toInt = (w : Int) := Int32.toInt_ofNat_of_lt (by omega)
  have hasks : m.Asks pid t slot.index (Int32.ofNat w) fun n => next (n == 1) := ⟨ha, hh, ht, hb⟩
  have hone : ((if m.fileExists name then (1 : Word) else 0) == 1) = m.fileExists name := by
    cases m.fileExists name <;> rfl
  rw [hasks.step hcount, m.referee.text_of_addressed hheld.numbered hend, hheld.spelled hnul]
  dsimp only
  rw [hone]

theorem tells_beyond (hh : m.referee.halted = false) (slot : Slot) :
    m.Tells slot 2147483648 false := by
  intro pid t next ha ht hb
  have hnegative : Int32.ofNat 2147483648 < 0 := by decide
  have hserve : m.serve pid (.ask Request.fileExists.code slot.index (Int32.ofNat 2147483648)) =
      (m, .answer (-1)) := by
    show m.existsInSlots slot.index (Int32.ofNat 2147483648) = (m, .answer (-1))
    rw [existsInSlots, if_pos hnegative]
  have hbody : t.body = .call
      (.ask Request.fileExists.code slot.index (Int32.ofNat 2147483648)) fun n => next (n == 1) := hb
  rw [step_of_call ha ht hbody hh, hserve]
  rfl

end Machine

/-- The calls that decide whether a name exists, if something comes of them. -/
inductive Call.Decides (name : String) : Call → Bool → Prop
  | create : Decides name (.create name) true
  | mkdir : Decides name (.mkdir name) true
  | unlink : Decides name (.unlink name) false
  | rmdir : Decides name (.rmdir name) false

namespace Machine

variable {m m' : Machine} {pid : Pid} {slot : Slot} {w : Nat} {name : String}

theorem Takes.decided {c : Call} {a : c.Answer} {b : Bool} (hm : m.Reachable)
    (hc : c.Decides name b) (h : m.Takes pid (.answered c a) m') (hne : a ≠ c.refusal) :
    m'.referee = m.referee ∧ ∃ q, m.resolve pid name = some q ∧
      (Path.Canonical q → m'.files.fileExists q = b) := by
  have hmapped := (housed_invariant.reachable hm).mapped
  cases h with
  | answered _ _ _ hs =>
    have hserved := served_of_serve hs
    generalize hr : Reaction.answer a = r at hserved
    rw [setTask_referee, setTask_files]
    cases hc with
    | create =>
      cases hserved with
      | refused _ => exact absurd (Reaction.answer.inj hr) hne
      | createdInVain _ _ _ => exact absurd (Reaction.answer.inj hr) hne
      | created hq hf _ _ => exact ⟨rfl, _, hq, fun hp => hmapped.fileExists_create hp hf⟩
    | mkdir =>
      cases hserved with
      | refused _ => exact absurd (Reaction.answer.inj hr) hne
      | made hq hf => exact ⟨rfl, _, hq, fun hp => hmapped.fileExists_mkdir hp hf⟩
    | unlink =>
      cases hserved with
      | refused _ => exact absurd (Reaction.answer.inj hr) hne
      | unlinked hq hf => exact ⟨rfl, _, hq, fun hp => hmapped.fileExists_unlink hp hf⟩
    | rmdir =>
      cases hserved with
      | refused _ => exact absurd (Reaction.answer.inj hr) hne
      | removed hq _ hf => exact ⟨rfl, _, hq, fun hp => hmapped.fileExists_rmdir hp hf⟩

/-- What there is to learn from the referee about a name in slots. -/
structure Existence (m : Machine) (slot : Slot) (w : Nat) (name : String) : Prop where
  told : ∃ b, m.Tells slot w b ∧ (b = true ↔ m.Names name)
  /-- Right after a call that made or removed what is named, the answer is known. -/
  decided : ∀ pid (c : Call) (a : c.Answer) b m', m.SeesFromRoot pid name → c.Decides name b →
    m.Takes pid (.answered c a) m' → a ≠ c.refusal → m'.Tells slot w b

/-- The referee knows of just the files and directories that the processes see. -/
theorem existence_told (hm : m.Reachable) (hh : m.referee.halted = false)
    (hnul : '\x00' ∉ name.toList) (hheld : m.referee.Holds slot w name)
    (hend : slot.index.toInt + (w : Int) ≠ 2147483648) : m.Existence slot w name := by
  constructor
  case told => exact ⟨_, tells hh hnul hheld hend, fileExists_iff_names hm⟩
  case decided =>
    intro pid c a b m' hroot hc htake hne
    obtain ⟨hreferee, q, hq, hexists⟩ := htake.decided hm hc hne
    rw [hroot.resolve] at hq
    have hcanonical := Path.resolve_canonical name "/" q Path.canonical_root hq
    have hb : m'.fileExists name = b := (fileExists_of_resolve hq).trans (hexists hcanonical)
    rw [← hb]
    exact tells (hreferee ▸ hh) hnul (hreferee ▸ hheld) hend

def asksBeyond : Program Unit :=
  (Session.fileExists (.parameter 0) 2147483648).bind fun _ => .done ()

def searcher : Plan := Plan.empty.register "p" fun _ _ =>
  .call (.ask Request.storeWord.code 0 97) fun _ => .call (.create "a") fun _ =>
    (Session.fileExists (.parameter 0) 1).bind fun _ => asksBeyond

structure Searching (m m' : Machine) : Prop where
  reachable : m.Reachable
  alive : m.alive 1 = true
  running : m.referee.halted = false
  held : m.referee.Holds (.parameter 0) 1 "a"
  sees : m.SeesFromRoot 1 "a"
  creates : m.Takes 1 (.answered (.create "a") (2 : Word)) m'
  asks : ∃ t, m'.task? 1 = some t ∧
    t.body = (Session.fileExists (.parameter 0) 1).bind fun _ => asksBeyond
  after : m'.alive 1 = true ∧ m'.referee = m.referee ∧ m'.fileExists "a" = true

theorem searcher_run : ∃ m m', Searching m m' := by
  have hboot : (searcher.build.boot "p" []).1.Reachable :=
    .boot "p" [] (.build (.register "p" _ .empty))
  have hstored : ∃ m, (searcher.build.boot "p" []).1.Run
      [⟨1, .answered (.ask Request.storeWord.code 0 97) (0 : Word)⟩] m ∧
      (m.Reachable → ∃ m', Searching m m') := by
    refine exists_run_cons_and rfl (.answered rfl rfl rfl rfl) ⟨_, .start, fun hm => ?_⟩
    exact ⟨_, hm, rfl, rfl, ⟨by decide, by decide⟩, ⟨_, rfl, Or.inl rfl⟩,
      .answered rfl rfl rfl rfl, ⟨_, rfl, rfl⟩, rfl, rfl, rfl⟩
  obtain ⟨m, hr, h⟩ := hstored
  obtain ⟨m', h⟩ := h (hboot.run hr)
  exact ⟨m, m', h⟩

theorem existence_told_searcher : ∃ m m', Searching m m' ∧ m.Existence (.parameter 0) 1 "a" ∧
    ∃ t, m'.task? 1 = some t ∧ m'.step 1 = some (m'.setTask 1 { t with body := asksBeyond }) := by
  obtain ⟨m, m', h⟩ := searcher_run
  have hexistence := existence_told h.reachable h.running (by decide) h.held (by decide)
  have htells := hexistence.decided 1 _ (2 : Word) true m' h.sees .create h.creates (by decide)
  obtain ⟨t, ht, hb⟩ := h.asks
  exact ⟨m, m', h, hexistence, t, ht, htells 1 t _ h.after.1 ht hb⟩

/-- The name stands in the 2 ^ 31 slots from the first on as well, but no request can carry that
count: the file is there, and its maker is told that it is not. -/
theorem existence_counted : ∃ m : Machine, m.Reachable ∧ m.referee.halted = false ∧
    '\x00' ∉ "a".toList ∧ m.referee.Holds (.parameter 0) 2147483648 "a" ∧ m.Names "a" ∧
    m.alive 1 = true ∧ (∃ t, m.task? 1 = some t ∧
      t.body = (Session.fileExists (.parameter 0) 2147483648).bind fun _ => .done ()) ∧
    m.Tells (.parameter 0) 2147483648 false := by
  obtain ⟨m₀, m₁, h⟩ := searcher_run
  obtain ⟨halive, hreferee, hmade⟩ := h.after
  obtain ⟨t, ht, hb⟩ := h.asks
  have hrunning : m₁.referee.halted = false := hreferee ▸ h.running
  have hheld : m₁.referee.Holds (.parameter 0) 1 "a" := hreferee ▸ h.held
  have hstep := tells hrunning (by decide) hheld (by decide) 1 t _ halive ht hb
  obtain ⟨-, what, htake⟩ := (step_eq_some_iff _ _ _).mp hstep
  have hm₁ : m₁.Reachable := h.reachable.run (.step .start h.alive h.creates)
  have hm := hm₁.run (.step .start halive htake)
  have hnumbered : Addressed (Slot.parameter 0).index 2147483648 := by
    intro k hk
    have hzero : (Slot.parameter 0).index.toInt = 0 := by decide
    omega
  refine ⟨_, hm, ?_, by decide, ?_, ?_, ?_, ⟨_, task?_setTask_self ht _, rfl⟩, ?_⟩
  · rw [setTask_referee]
    exact hrunning
  · rw [setTask_referee]
    exact hheld.mono (by decide) hnumbered
  · apply (fileExists_iff_names hm).mp
    rw [fileExists, setTask_files]
    exact hmade
  · rw [alive, setTask_processes]
    exact halive
  · apply tells_beyond
    rw [setTask_referee]
    exact hrunning

end Machine

end KernelExam

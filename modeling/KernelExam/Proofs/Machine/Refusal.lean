import KernelExam.Proofs.Descriptor
import KernelExam.Proofs.Machine.Frame

/-!
# Calls that answer -1

Such a call leaves the machine as it was, with one exception that is a matter of
order: a file is created before a place for its descriptor is looked for. A count
of bytes that is too large for a word can look like the answer too.
-/

set_option autoImplicit false

namespace KernelExam

theorem ofNat_ne_neg_one {n : Nat} (h : n < 4294967295) : Int32.ofNat n ≠ -1 := by
  intro he
  have hn := congrArg (fun w : Word => w.toUInt32.toNat) he
  have hr : (-1 : Word).toUInt32.toNat = 4294967295 := rfl
  simp only [Int32.toUInt32_ofNat', UInt32.toNat_ofNat', hr] at hn
  omega

theorem ofInt_ne_neg_one {n : Int} (hlow : 0 ≤ n) (hhigh : n < 2147483648) :
    Int32.ofInt n ≠ -1 := by
  intro he
  have hn := congrArg Int32.toInt he
  rw [Int32.toInt_ofInt_of_le (by omega) (by omega)] at hn
  have hr : (-1 : Word).toInt = -1 := rfl
  omega

/-- What the caller's status variable holds after a `join` is what it held before. -/
def Call.KeepsStatus : (c : Call) → c.Answer → Prop
  | .join _ status, a => a.2 = status
  | _, _ => True

def Call.moved : (c : Call) → c.Answer → Nat
  | .read _ _, a => a.2.length
  | .write _ bs, _ => bs.length
  | _, _ => 0

namespace Machine

def Fitting (m : Machine) : Prop :=
  ∀ pid p, m.processes.get? pid = some p → p.descriptors.Fits

variable {m m' : Machine} {pid : Pid} {c : Call}

theorem Fitting.serve (h : m.Fitting) {r : Reaction c.Answer} (hs : m.Served pid c m' r) :
    m'.Fitting := by
  cases hs with
  | launched _ hspawn _ => exact ProcessTable.Each.spawn h hspawn DescriptorTable.fits_stdio
  | reaped => exact ProcessTable.Each.reap h
  | created _ _ hp hi | opened _ _ hp hi =>
    have hfits := ((h pid _ hp).insert hi).1
    exact ProcessTable.Each.modify h fun _ _ => hfits
  | readFile | wroteFile => exact ProcessTable.Each.modify h fun p hp => (h pid p hp).set _ _
  | @closed fd _ p hp _ =>
    have hfits := (h pid p hp).set fd none
    exact ProcessTable.Each.modify h fun _ _ => hfits
  | moved => exact ProcessTable.Each.modify h fun p hp => h pid p hp
  | asked ha =>
    obtain ⟨referee, rfl⟩ := ha.referee_only
    exact h
  | _ => exact h

theorem fitting_invariant : Invariant Fitting where
  build plan hp := ProcessTable.each_empty
  frame m referee booted h := h
  launch m m' program args r h hl := by
    cases hl with
    | unknown | crowded => exact h
    | started _ hs _ => exact ProcessTable.Each.spawn h hs DescriptorTable.fits_stdio
  serve m m' pid c r h ha hs := h.serve hs
  finish m pid how h := ProcessTable.Each.terminate h how DescriptorTable.fits_closed
  task m pid t h := by
    intro q p hq
    rw [setTask_processes] at hq
    exact h q p hq

/-- Calls that have an effect although they answer -1. -/
def Spoiled (m : Machine) (pid : Pid) : (c : Call) → c.Answer → Prop
  | .create path, _ => m.Crowded pid ∧ ∃ q, m.resolve pid path = some q ∧
    (∃ o, (m.files.create q).2 = .ok o) ∧ m.files.fileBytes q ≠ .ok []
  | .read _ _, a => a.2 ≠ []
  | .write fd _, _ => ∃ d, m.descriptor? pid fd = some d ∧ d.writable = true ∧ d.endpoint ≠ .stdin
  | _, _ => False

theorem Refuses.not_spoiled (h : m.Refuses pid c) : ¬ m.Spoiled pid c c.refusal := by
  cases c with
  | create path =>
    rintro ⟨-, q, hq, ⟨o, ho⟩, -⟩
    obtain ⟨e, he⟩ := h q hq
    rw [he] at ho
    cases ho
  | read fd size => exact fun hs => hs rfl
  | write fd bs =>
    rintro ⟨d, hd, hw, he⟩
    exact he (h d hd hw)
  | _ => exact id

theorem keepsStatus_refusal (c : Call) : c.KeepsStatus c.refusal := by
  cases c <;> first | rfl | trivial

theorem descriptor?_setDescriptor {fd : Word} {d d' : Descriptor}
    (h : m.descriptor? pid fd = some d) :
    (m.setDescriptor pid fd d').descriptor? pid fd = some d' := by
  rw [descriptor?, Option.bind_eq_some_iff] at h
  obtain ⟨p, hp, hd⟩ := h
  have hp' : (m.setDescriptor pid fd d').processes.get? pid =
      some { p with descriptors := p.descriptors.set fd (some d') } := by
    rw [setDescriptor, ProcessTable.get?_modify, if_pos rfl, hp]
    rfl
  rw [descriptor?, hp', Option.bind_some]
  exact DescriptorTable.get?_set_self hd _

theorem setDescriptor_ne {fd : Word} {d : Descriptor} {o position n : Nat}
    (h : m.descriptor? pid fd = some d) (he : d.endpoint = .file o position) (hn : n ≠ position)
    (hm : m'.descriptor? pid fd = some d) : m'.setDescriptor pid fd (d.seek n) ≠ m := by
  intro heq
  have hd : (m'.setDescriptor pid fd (d.seek n)).descriptor? pid fd = some (d.seek n) :=
    descriptor?_setDescriptor hm
  rw [heq, h] at hd
  have hs := congrArg Descriptor.endpoint (Option.some.inj hd)
  rw [Descriptor.seek, he] at hs
  injection hs with _ hposition
  exact hn hposition.symm

/-- What a call that answered -1 leaves behind. -/
structure Aftermath (m : Machine) (pid : Pid) (c : Call) (m' : Machine) (a : c.Answer) : Prop where
  status : c.KeepsStatus a
  unchanged : m' = m ↔ ¬ m.Spoiled pid c a
  created : ∀ path q, c = .create path → m.resolve pid path = some q →
    m' = { m with files := (m.files.create q).1 }
  moved : m.Spoiled pid c a → (∃ path, c = .create path) ∨ 4294967295 ≤ c.moved a

theorem Aftermath.of_quiet {a : c.Answer} (hs : c.KeepsStatus a) (hn : ¬ m.Spoiled pid c a)
    (hc : ∀ path, c ≠ .create path) : m.Aftermath pid c m a where
  status := hs
  unchanged := by simp [hn]
  created path _ h _ := absurd h (hc path)
  moved h := absurd h hn

theorem Aftermath.of_moved {a : c.Answer} (hs : c.KeepsStatus a) (hn : m.Spoiled pid c a)
    (hne : m' ≠ m) (hc : ∀ path, c ≠ .create path) (hm : 4294967295 ≤ c.moved a) :
    m.Aftermath pid c m' a where
  status := hs
  unchanged := by simp [hne, hn]
  created path _ h _ := absurd h (hc path)
  moved _ := Or.inr hm

theorem Aftermath.of_refuses (h : m.Refuses pid c) : m.Aftermath pid c m c.refusal where
  status := keepsStatus_refusal c
  unchanged := by simp [h.not_spoiled]
  created := by
    rintro path q rfl hq
    obtain ⟨e, he⟩ := h q hq
    have hsame : (m.files.create q).1 = m.files := FileSystem.create_error (Prod.ext rfl he)
    rw [hsame]
  moved hs := absurd hs h.not_spoiled

theorem Aftermath.of_created {path q : String} {files : FileSystem} {o : Nat} {a : Word}
    (hq : m.resolve pid path = some q) (hf : m.files.create q = (files, .ok o))
    (hfull : m.Crowded pid) : m.Aftermath pid (.create path) { m with files } a where
  status := trivial
  unchanged := by
    have hself := FileSystem.create_eq_self_iff hf
    constructor
    · rintro heq ⟨-, q', hq', -, hb⟩
      obtain rfl := Option.some.inj (hq.symm.trans hq')
      exact hb (hself.mp (congrArg Machine.files heq))
    · intro hn
      by_contra hne
      refine hn ⟨hfull, q, hq, ⟨o, by rw [hf]⟩, ?_⟩
      intro hb
      apply hne
      rw [hself.mpr hb]
  created := by
    rintro path' q' ⟨⟩ hq'
    obtain rfl := Option.some.inj (hq.symm.trans hq')
    rw [hf]
  moved _ := Or.inl ⟨path, rfl⟩

theorem le_of_ofNat {n : Nat} (h : Int32.ofNat n = -1) : 4294967295 ≤ n := by
  by_contra hlt
  exact ofNat_ne_neg_one (by omega) h

theorem ne_nil_of_le {bs : Bytes} (h : 4294967295 ≤ bs.length) : bs ≠ [] := by
  rintro rfl
  simp at h

theorem dropped_ne {n : Nat} (h : 4294967295 ≤ (m.stdin.take n).length) :
    { m with stdin := m.stdin.drop n } ≠ m := by
  intro heq
  have hl : (m.stdin.drop n).length = m.stdin.length := congrArg (fun m => m.stdin.length) heq
  rw [List.length_drop] at hl
  rw [List.length_take] at h
  omega

theorem appended_ne {bs : Bytes} (h : 4294967295 ≤ bs.length) :
    { m with stdout := m.stdout ++ bs } ≠ m := by
  intro heq
  have hl : (m.stdout ++ bs).length = m.stdout.length := congrArg (fun m => m.stdout.length) heq
  rw [List.length_append] at hl
  omega

theorem length_slice_le (os : Objects) (o start size : Nat) :
    (os.slice o start size).length ≤ (os.contents o).length - start := by
  rw [Objects.slice, List.length_take, List.length_drop]
  omega

theorem Served.aftermath (hf : m.Fitting) {a : c.Answer} (hs : m.Served pid c m' (.answer a))
    (hcode : c.code a = -1) : m.Aftermath pid c m' a := by
  have hzero : (0 : Word) ≠ -1 := by decide
  generalize hr : Reaction.answer a = r at hs
  cases hs with
  | refused hrefuses =>
    cases hr
    exact .of_refuses hrefuses
  | crowded | waits => cases hr
  | launched _ hspawn hlast =>
    rcases hlast with ⟨-, rfl⟩ | ⟨-, f, rfl⟩
    · cases hr
      obtain ⟨hlow, hhigh, -⟩ := ProcessTable.spawn_ok hspawn
      exact absurd hcode (ofInt_ne_neg_one (by omega) (Int.lt_of_le_of_lt hhigh (by decide)))
    · cases hr
  | reaped _ _ _ hne =>
    cases hr
    exact absurd hcode hne
  | created _ _ hp hi | opened _ _ hp hi =>
    cases hr
    have hn := ((hf pid _ hp).insert hi).2
    exact absurd hcode (ofNat_ne_neg_one (Nat.lt_trans hn (by decide)))
  | createdInVain hq hcreate hfull =>
    cases hr
    exact .of_created hq hcreate hfull
  | @readConsole fd size d hd hread he =>
    cases hr
    have hbig := le_of_ofNat hcode
    exact .of_moved trivial (ne_nil_of_le hbig) (dropped_ne hbig) (by simp) hbig
  | @readFile fd size o position start bs d hd hread he hstart hbs =>
    cases hr
    have hbig := le_of_ofNat hcode
    have hlen := length_slice_le m.files.objects o start size
    rw [← hbs] at hlen
    refine .of_moved trivial (ne_nil_of_le hbig) ?_ (by simp) hbig
    exact setDescriptor_ne hd he (by omega) hd
  | @wroteConsole fd bs d hd hwrite he =>
    cases hr
    have hbig := le_of_ofNat hcode
    exact .of_moved trivial ⟨d, hd, hwrite, by simp [he]⟩ (appended_ne hbig) (by simp) hbig
  | @wroteFile fd bs o position d hd hwrite he =>
    cases hr
    have hbig := le_of_ofNat hcode
    refine .of_moved trivial ⟨d, hd, hwrite, by simp [he]⟩ ?_ (by simp) hbig
    exact setDescriptor_ne hd he (by omega) hd
  | closed | unlinked | moved | made | removed =>
    cases hr
    exact absurd hcode hzero
  | asked ha =>
    cases ha with
    | unknown | loaded | sought => exact .of_quiet trivial id (by simp)
    | taken | released | stored | reported | marked =>
      cases hr
      exact absurd hcode hzero
    | waits | overfull => cases hr

/-- A call that answers -1 changes the machine exactly when it creates or empties a
file for which there is no descriptor, or moves so many bytes that their number reads
as -1. -/
theorem serve_neg_one (hm : m.Reachable) {a : c.Answer} (h : m.serve pid c = (m', .answer a))
    (hcode : c.code a = -1) :
    c.KeepsStatus a ∧ (m' = m ↔ ¬ m.Spoiled pid c a) ∧
      (∀ path q, c = .create path → m.resolve pid path = some q →
        m' = { m with files := (m.files.create q).1 }) ∧
      (m.Spoiled pid c a → (∃ path, c = .create path) ∨ 4294967295 ≤ c.moved a) := by
  have ha := (served_of_serve h).aftermath (fitting_invariant.reachable hm) hcode
  exact ⟨ha.status, ha.unchanged, ha.created, ha.moved⟩

def crowder : Machine := ((Plan.empty.register "p" fun _ _ => creates 14).build.boot "p" []).1
where
  creates : Nat → Program Unit
    | 0 => .done ()
    | n + 1 => .call (.create "/f") fun _ => creates n

theorem serve_neg_one_crowder : (turn (fun _ => false) 1 14 crowder).Reachable ∧
    (turn (fun _ => false) 1 14 crowder).files.fileExists "/new" = false ∧
    ∃ m', (turn (fun _ => false) 1 14 crowder).serve 1 (.create "/new") = (m', .answer (-1 : Word)) ∧
      m'.files.fileExists "/new" = true := by
  have hb : crowder.Reachable := .boot "p" [] (.build (.register "p" _ .empty))
  obtain ⟨log, hr⟩ := run_turn (fun _ => false) 1 14 crowder
  have hm := hb.run hr
  obtain ⟨m', hs⟩ : ∃ m', (turn (fun _ => false) 1 14 crowder).serve 1 (.create "/new") =
      (m', .answer (-1 : Word)) := ⟨_, rfl⟩
  have hcreated := (serve_neg_one hm hs rfl).2.2.1 "/new" "/new" rfl (by decide)
  refine ⟨hm, by decide, m', hs, ?_⟩
  rw [hcreated]
  decide

end Machine

end KernelExam

import KernelExam.Proofs.Machine.Freeze
import KernelExam.Proofs.Machine.Outlook
import KernelExam.Proofs.Machine.Settling

/-!
# A program that runs alone

As long as a process starts no other, its machine has one order of steps only, and what
matters of it is a small state: the process's directory and descriptors, the files, slots,
permits and the console. A program is followed from call to call in that state, and what
it reports there is what every run of the machine reports.
-/

set_option autoImplicit false

namespace KernelExam

namespace Solo

/-- The machine of a lone process with that task before it. -/
def on (s : Solo) (m : Machine) (t : Task) : Machine :=
  { m with
    files := s.files
    processes := ⟨[some ⟨none, s.cwd, s.descriptors, none⟩]⟩
    tasks := [some t]
    referee := ⟨s.slots, s.permits, none, s.checkpoints, 1, false⟩
    stdin := s.stdin
    stdout := s.stdout }

def first (m : Machine) : Solo :=
  ⟨"/", .stdio, m.files, m.referee.slots, m.referee.permits, m.referee.checkpoints, m.stdin,
    m.stdout⟩

/-- The lone process is given that answer, whatever else it has before it. -/
def Answers (s : Solo) (c : Call) (a : c.Answer) (s' : Solo) : Prop :=
  ∀ m t, (s.on m t).serve 1 c = (s'.on m t, .answer a)

theorem Acts.answers {s s' : Solo} {c : Call} {a : c.Answer} (h : s.Acts c a s') :
    s.Answers c a s' := fun m t => h (s.on m t) 1 rfl

/-- From a state a program comes within `k` steps to a report that is wanted, or to its end
with a result that is. -/
inductive Reaches {α : Type} (Q : Outcome → Solo → Prop) (R : α → Solo → Prop) :
    Nat → Solo → Program α → Prop
  | done {k : Nat} {s : Solo} {a : α} : R a s → Reaches Q R k s (.done a)
  | report {k : Nat} {s : Solo} {o : Outcome} {a0 a1 : Word} {next : Word → Program α} :
      Q o s → Reaches Q R k s (.call (.ask o.request.code a0 a1) next)
  | note {k : Nat} {s : Solo} {n : Note} {next : Program α} :
      Reaches Q R k s next → Reaches Q R (k + 1) s (.note n next)
  | call {k : Nat} {s s' : Solo} {c : Call} {a : c.Answer} {next : c.Answer → Program α} :
      s.Answers c a s' → Reaches Q R k s' (next a) → Reaches Q R (k + 1) s (.call c next)

section Reaches

variable {α β : Type} {Q : Outcome → Solo → Prop} {R : α → Solo → Prop} {R' : β → Solo → Prop}
  {k l : Nat} {s s' : Solo} {x : Program α} {f : α → Program β}

theorem Reaches.mono (h : Reaches Q R k s x) (hle : k ≤ l) : Reaches Q R l s x := by
  induction h generalizing l with
  | done hr => exact .done hr
  | report hq => exact .report hq
  | note _ ih =>
    obtain ⟨l, rfl⟩ := Nat.exists_eq_add_of_le' hle
    exact .note (ih (Nat.le_add_left _ l))
  | call ha _ ih =>
    obtain ⟨l, rfl⟩ := Nat.exists_eq_add_of_le' hle
    exact .call ha (ih (Nat.le_add_left _ l))

theorem Reaches.bind (h : Reaches Q R k s x)
    (hf : ∀ a s', R a s' → Reaches Q R' l s' (f a)) : Reaches Q R' (k + l) s (x.bind f) := by
  induction h with
  | done hr => exact (hf _ _ hr).mono (Nat.le_add_left ..)
  | report hq => exact .report hq
  | note _ ih =>
    rw [Nat.succ_add]
    exact .note ih
  | call ha _ ih =>
    rw [Nat.succ_add]
    exact .call ha ih

theorem Reaches.imp {R₁ : α → Solo → Prop} (h : Reaches Q R k s x) (hr : ∀ a s', R a s' → R₁ a s') :
    Reaches Q R₁ k s x := by
  induction h with
  | done h => exact .done (hr _ _ h)
  | report hq => exact .report hq
  | note _ ih => exact .note ih
  | call ha _ ih => exact .call ha ih

end Reaches

section Calls

variable {s : Solo} {path q : String}

theorem resolve_on (m : Machine) (t : Task) (path : String) :
    (s.on m t).resolve 1 path = Path.resolve path s.cwd := rfl

theorem inUse_on (m : Machine) (t : Task) (q : String) :
    (s.on m t).inUse q = decide (s.cwd = q) := by
  simp [Machine.inUse, on]

section Path

variable (hq : Path.resolve path s.cwd = some q)
include hq

theorem answers_rmdir {files : FileSystem} (hcwd : s.cwd ≠ q)
    (hr : s.files.rmdir q = (files, .ok ())) :
    s.Answers (.rmdir path) (0 : Word) { s with files } := by
  intro m t
  have hgone : (s.on m t).files.rmdir q = (files, .ok ()) := hr
  simp only [Machine.serve, Machine.onPath, resolve_on, hq, Machine.rmdir, inUse_on, hcwd,
    decide_false, Bool.false_eq_true, if_false, hgone]
  rfl

theorem answers_rmdir_refused {e : FileError} (hr : s.files.rmdir q = (s.files, .error e)) :
    s.Answers (.rmdir path) (-1 : Word) s := by
  intro m t
  have hgone : (s.on m t).files.rmdir q = (s.files, .error e) := hr
  simp only [Machine.serve, Machine.onPath, resolve_on, hq, Machine.rmdir, hgone]
  cases (s.on m t).inUse q <;> rfl

end Path

end Calls

section Run

variable {s s' : Solo} {m m' : Machine} {t : Task} {Q : Outcome → Solo → Prop} {k : Nat}
  {log : List Event}

theorem step_on_call {c : Call} {a : c.Answer} {next : c.Answer → Program Unit}
    (ha : s.Answers c a s') (hb : t.body = .call c next) :
    (s.on m t).step 1 = some (s'.on m { t with body := next a }) := by
  have halive : (s.on m t).alive 1 = true := rfl
  have htask : (s.on m t).task? 1 = some t := rfl
  rw [Machine.step_of_call halive htask hb rfl, ha]
  rfl

theorem step_on_note {n : Note} {next : Program Unit} (hb : t.body = .note n next) :
    (s.on m t).step 1 =
      some (s.on m { t with body := next, notes := t.notes ++ [n] }) := by
  have halive : (s.on m t).alive 1 = true := rfl
  have htask : (s.on m t).task? 1 = some t := rfl
  rw [Machine.step_of_task halive htask]
  simp only [Machine.advance, hb]
  rfl

theorem eq_one_of_alive_on {q : Pid} (ha : (s.on m t).alive q = true) : q = 1 := by
  obtain ⟨p, hp, -⟩ := (Machine.alive_iff ..).mp ha
  obtain ⟨n, hplace, hn⟩ := Option.bind_eq_some_iff.mp hp
  obtain rfl := (ProcessTable.place?_eq_some_iff q n).mp hplace
  cases n with
  | zero => rfl
  | succ n => cases hn

theorem eq_of_takes_on {m₁ : Machine} {q : Pid} {what : Happening}
    (hstep : (s.on m t).step 1 = some m₁) (ha : (s.on m t).alive q = true)
    (ht : (s.on m t).Takes q what m') : m' = m₁ := by
  have hq := (Machine.step_eq_some_iff ..).mpr ⟨ha, _, ht⟩
  rw [eq_one_of_alive_on ha, hstep] at hq
  exact (Option.some.inj hq).symm

theorem settles_on {P : Showing → Prop} {m₁ : Machine} (hstep : (s.on m t).step 1 = some m₁)
    (h : m₁.Settles P k) : (s.on m t).Settles P (k + 1) := by
  refine .step rfl ⟨1, m₁, hstep⟩ fun q m' hm => ?_
  obtain ⟨ha, what, ht⟩ := (Machine.step_eq_some_iff ..).mp hm
  rw [eq_of_takes_on hstep ha ht]
  exact h

theorem steps_on {m₁ : Machine} (hstep : (s.on m t).step 1 = some m₁)
    (hr : (s.on m t).Steps log m') : m' = s.on m t ∨ ∃ rest, m₁.Steps rest m' := by
  cases log with
  | nil => exact Or.inl hr.of_nil
  | cons e log =>
    obtain ⟨m₂, ha, ht, hrest⟩ := hr.of_cons
    rw [eq_of_takes_on hstep ha ht] at hrest
    exact Or.inr ⟨log, hrest⟩

/-- The report of a lone process, and everything it has to show with it. -/
structure Concluded (s : Solo) (o : Outcome) (m : Machine) : Prop where
  outcome : m.referee.outcome = some (o, 1)
  halted : m.referee.halted = true
  checkpoints : m.referee.checkpoints = s.checkpoints
  files : m.files = s.files
  stdin : m.stdin = s.stdin
  stdout : m.stdout = s.stdout

theorem Concluded.frozen {o : Outcome} (h : s.Concluded o m) (hf : m.Frozen m') :
    s.Concluded o m' where
  outcome := hf.outcome.trans h.outcome
  halted := hf.halted.trans h.halted
  checkpoints := hf.checkpoints.trans h.checkpoints
  files := hf.files.trans h.files
  stdin := hf.stdin.trans h.stdin
  stdout := hf.stdout.trans h.stdout

theorem exists_step_report {o : Outcome} {a0 a1 : Word} {next : Word → Program Unit}
    (hb : t.body = .call (.ask o.request.code a0 a1) next) :
    ∃ m', (s.on m t).step 1 = some m' ∧ s.Concluded o m' := by
  have halive : (s.on m t).alive 1 = true := rfl
  have htask : (s.on m t).task? 1 = some t := rfl
  rw [Machine.step_of_call halive htask hb rfl, Machine.serve_report]
  exact ⟨_, rfl, rfl, rfl, rfl, rfl, rfl, rfl⟩

def Shown (Q : Outcome → Solo → Prop) (v : Showing) : Prop :=
  ∃ s, Q v.outcome s ∧ v.checkpoints = s.checkpoints ∧ v.stdout = s.stdout

theorem Reaches.settles (h : Reaches Q (fun _ _ => False) k s t.body) :
    (s.on m t).Settles (Shown Q) (k + 1) := by
  generalize hb : t.body = x at h
  induction h generalizing t with
  | done hr => exact hr.elim
  | @report k s o a0 a1 next hq =>
    obtain ⟨m₁, hstep, hc⟩ := exists_step_report (s := s) (m := m) hb
    have hshown : m₁.showing? = some ⟨o, s.checkpoints, s.stdout⟩ := by
      rw [Machine.showing?, hc.outcome, hc.checkpoints, hc.stdout]
      rfl
    exact settles_on hstep (.shown hshown ⟨s, hq, rfl, rfl⟩)
  | note _ ih => exact settles_on (step_on_note hb) (ih rfl)
  | call ha _ ih => exact settles_on (step_on_call ha hb) (ih rfl)

theorem Reaches.steps (h : Reaches Q (fun _ _ => False) k s t.body)
    (hr : (s.on m t).Steps log m') (ho : m'.referee.outcome ≠ none) :
    ∃ o s', Q o s' ∧ s'.Concluded o m' := by
  generalize hb : t.body = x at h
  induction h generalizing t log with
  | done h => exact h.elim
  | @report k s o a0 a1 next hq =>
    obtain ⟨m₁, hstep, hc⟩ := exists_step_report (s := s) (m := m) hb
    rcases steps_on hstep hr with rfl | ⟨rest, hrest⟩
    · exact absurd rfl ho
    · exact ⟨o, s, hq, hc.frozen (hrest.run.frozen hc.halted)⟩
  | note _ ih =>
    rcases steps_on (step_on_note hb) hr with rfl | ⟨rest, hrest⟩
    · exact absurd rfl ho
    · exact ih hrest rfl
  | call ha _ ih =>
    rcases steps_on (step_on_call ha hb) hr with rfl | ⟨rest, hrest⟩
    · exact absurd rfl ho
    · exact ih hrest rfl

variable (h : Reaches Q (fun _ _ => False) k s t.body)
  (ho : Machine.Examination.Opened (s.on m t))
include h ho

/-- Whatever is awaited, and however the machine is wound up, the report is a wanted one. -/
theorem Reaches.examined (x : Machine.Examination (s.on m t))
    (hrest : x.waited.referee.settled = true ∨ ∀ q, x.waited.step q = none) :
    ∃ o s', Q o s' ∧ x.report.verdict = o.verdict ∧ s'.Concluded o x.last := by
  obtain ⟨v, hv, -⟩ := x.waited_shown h.settles ho hrest
  have hreported : x.waited.referee.outcome ≠ none := by
    rw [Ne, ← Machine.showing?_eq_none_iff, hv]
    nofun
  obtain ⟨o, s', hq, hwaited⟩ := h.steps x.wait hreported
  have hstopped := hwaited.frozen (x.lag.run.frozen hwaited.halted)
  have hhalt := hstopped.frozen (Machine.frozen_halt hstopped.halted)
  have hlast := hhalt.frozen (x.shutDown.run.frozen hhalt.halted)
  refine ⟨o, s', hq, ?_, hlast⟩
  rw [Machine.Examination.report, Machine.verdict]
  dsimp only
  rw [hlast.outcome]
  cases o <;> rfl

theorem Reaches.run {booting : Machine} {program : String} {args : List String}
    (hboot : booting.boot program args = (s.on m t, .ok ())) (hk : k < Machine.patience) :
    ∃ m' report o s', booting.run program args = (m', .ok report) ∧ Q o s' ∧
      report.verdict = o.verdict ∧ report.stdout = m'.stdout ∧ s'.Concluded o m' := by
  obtain ⟨x, hsettled, hrun⟩ := h.settles.run_examined hboot ho hk
  obtain ⟨o, s', hq, hverdict, hlast⟩ := h.examined ho x (Or.inl hsettled)
  exact ⟨x.last, x.report, o, s', hrun, hq, hverdict, rfl, hlast⟩

end Run

section Session

variable {s s' : Solo} {Q : Outcome → Solo → Prop}

theorem Runs.reaches {α : Type} {k : Nat} {x : Program α} {a : α}
    (h : Runs (fun _ => True) k s x s' a) :
    Reaches Q (fun b s'' => b = a ∧ s'' = s') k s x := by
  induction h with
  | done => exact .done ⟨rfl, rfl⟩
  | call _ ha _ ih => exact .call ha.answers ih

theorem reaches_register (hlock : s.permits lockId = 1)
    (hcount : s.slots countSlot ≠ Int32.maxValue) :
    Reaches Q (fun session s' => session.testId = s.slots Slot.testId.index ∧ s' = s.counted) 9 s
      (Session.register .referee) := by
  have hname := Referee.text_eq { Referee.fresh with slots := s.slots } Slot.shellProgram.index
    Slot.shellProgramWords (by decide)
  refine (runs_register (fun _ _ => trivial) hlock hcount hname).reaches.imp ?_
  rintro session _ ⟨rfl, rfl⟩
  exact ⟨rfl, rfl⟩

end Session

theorem boot_first {m : Machine} (hm : m.Fresh) (hb : m.booted = false) (program : String)
    (args : List String) {image : Image}
    (hi : m.registry.lookup (Path.dropSlashes program) = some image)
    (hfits : (Text.utf8Bytes program).length < 4 * Slot.shellProgramWords)
    (hnul : '\x00' ∉ program.toList) :
    m.boot program args = ((first (m.named program)).on (m.named program)
      ⟨Path.dropSlashes program, args, image 1 args, []⟩, .ok ()) := by
  have hs : m.processes.spawn none "/" = .ok (⟨[some ⟨none, "/", .stdio, none⟩]⟩, 1) := by
    rw [hm.processes]
    rfl
  obtain ⟨slots, hslots⟩ := m.referee.setText_eq .shellProgram program Slot.shellProgramWords
  rw [Machine.boot_eq hb hi hs hfits hnul]
  simp only [Machine.withProgram, Machine.named, on, first, hslots, Referee.started, hm.tasks,
    hm.outcome, hm.live, hm.halted]
  rfl

theorem opened_first {plan : Plan} (hp : plan.Drawn) {program : String} {image : Image}
    (hi : plan.registry.lookup program = some image) (hname : Path.dropSlashes program = program)
    (hfits : (Text.utf8Bytes program).length < 4 * Slot.shellProgramWords)
    (hnul : '\x00' ∉ program.toList) (args : List String) :
    plan.build.boot program args = ((first (plan.build.named program)).on
      (plan.build.named program) ⟨program, args, image 1 args, []⟩, .ok ()) ∧
    Machine.Examination.Opened ((first (plan.build.named program)).on
      (plan.build.named program) ⟨program, args, image 1 args, []⟩) := by
  have hboot := boot_first hp.fresh rfl program args (hname.symm ▸ hi) hfits hnul
  rw [hname] at hboot
  refine ⟨hboot, ?_⟩
  have hopened : Machine.Examination.Opened (plan.build.boot program args).1 :=
    ⟨hp.fresh.census_boot _ _, Machine.endings_boot hp.fresh.processes _ _,
      hp.fresh.judged_boot _ _⟩
  rwa [hboot] at hopened

end Solo

end KernelExam

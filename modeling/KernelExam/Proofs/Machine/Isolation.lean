import KernelExam.Proofs.Machine.Kinship
import KernelExam.Proofs.Machine.Refusal

/-!
# Processes are kept apart

A step of one process leaves the directory, parent, end and descriptors of every other
process alone; it enters a new process for an `exec`, and takes out the child that a
`join` has found ended. In the caller's own entry a call changes what it is about only.
-/

set_option autoImplicit false

namespace KernelExam

namespace ProcessTable

structure Within (t : ProcessTable) (pid : Pid) (t' : ProcessTable) : Prop where
  length : t'.slots.length = t.slots.length
  others : ∀ q, q ≠ pid → t'.get? q = t.get? q

structure Admits (t : ProcessTable) (pid child : Pid) (t' : ProcessTable) : Prop where
  number : child = t.slots.length + 1
  length : t'.slots.length = t.slots.length + 1
  entered : ∃ p, t.get? pid = some p ∧ t'.get? child = some ⟨some pid, p.cwd, .stdio, none⟩
  others : ∀ q, q ≠ pid → q ≠ child → t'.get? q = t.get? q

structure Dismisses (t : ProcessTable) (pid child : Pid) (t' : ProcessTable) : Prop where
  length : t'.slots.length = t.slots.length
  ended : ∃ p how, t.get? child = some p ∧ p.parent = some pid ∧ p.termination = some how
  gone : t'.get? child = none
  others : ∀ q, q ≠ child → t'.get? q = t.get? q

theorem Within.refl (t : ProcessTable) (pid : Pid) : t.Within pid t := ⟨rfl, fun _ _ => rfl⟩

theorem within_modify (t : ProcessTable) (pid : Pid) (f : ProcessState → ProcessState) :
    t.Within pid (t.modify pid f) :=
  ⟨t.length_modify pid f, fun q hq => by rw [get?_modify, if_neg hq]⟩

theorem within_terminate (t : ProcessTable) (pid : Pid) (how : Termination) :
    t.Within pid (t.terminate pid how).1 :=
  ⟨t.length_terminate pid how, fun q hq => by rw [get?_terminate, if_neg hq]⟩

theorem get?_of_length_lt {t : ProcessTable} {pid : Int} (h : t.slots.length < pid) :
    t.get? pid = none := by
  cases hp : t.get? pid with
  | none => rfl
  | some p =>
    have hle := (le_length_of_get? hp).2
    omega

theorem admits_of_spawn {t t' : ProcessTable} {pid child : Pid} {p : ProcessState}
    (hp : t.get? pid = some p) (h : t.spawn (some pid) p.cwd = .ok (t', child)) :
    t.Admits pid child t' := by
  obtain ⟨hnumber, -, hslots⟩ := spawn_ok h
  refine ⟨hnumber, by rw [hslots]; simp, ⟨p, hp, ?_⟩, ?_⟩
  · rw [get?_spawn h, if_pos rfl]
  · intro q _ hq
    rw [get?_spawn h, if_neg hq]

theorem Admits.lt {t t' : ProcessTable} {pid child : Int} (h : t.Admits pid child t') :
    (t.slots.length : Int) < child := by
  have hnumber : child = (t.slots.length : Int) + 1 := h.number
  omega

theorem Admits.fresh {t t' : ProcessTable} {pid child : Pid} (h : t.Admits pid child t') :
    t.get? child = none := get?_of_length_lt h.lt

theorem Admits.ne {t t' : ProcessTable} {pid child : Pid} (h : t.Admits pid child t') :
    child ≠ pid := by
  rintro rfl
  obtain ⟨p, hp, -⟩ := h.entered
  rw [h.fresh] at hp
  cases hp

theorem Admits.trans {t t' t'' : ProcessTable} {pid child : Pid} (h : t.Admits pid child t')
    (hw : t'.Within pid t'') : t.Admits pid child t'' where
  number := h.number
  length := hw.length.trans h.length
  entered := by
    obtain ⟨p, hp, hchild⟩ := h.entered
    exact ⟨p, hp, (hw.others child h.ne).trans hchild⟩
  others q hq hchild := (hw.others q hq).trans (h.others q hq hchild)

end ProcessTable

def ProcessState.Grants (fd : Word) (p p' : ProcessState) : Prop :=
  fd = -1 ∧ p' = p ∨
    fd ≠ -1 ∧ p.descriptors.get? fd = none ∧
      ∃ o ds, p' = { p with descriptors := ds } ∧
        ∀ fd', ds.get? fd' = if fd' = fd then some (.ofObject o) else p.descriptors.get? fd'

def ProcessState.Yields (fd code : Word) (p p' : ProcessState) : Prop :=
  code = -1 ∧ p' = p ∨
    code = 0 ∧ (p.descriptors.get? fd).isSome ∧
      ∃ ds, p' = { p with descriptors := ds } ∧
        ∀ fd', ds.get? fd' = if fd' = fd then none else p.descriptors.get? fd'

def ProcessState.Seeks (fd : Word) (p p' : ProcessState) : Prop :=
  p' = p ∨ ∃ d n ds, p.descriptors.get? fd = some d ∧ p' = { p with descriptors := ds } ∧
    ∀ fd', ds.get? fd' = if fd' = fd then some (d.seek n) else p.descriptors.get? fd'

/-- All that a call with this answer may change in the entry of its caller. -/
def Call.Touches (p p' : ProcessState) : (c : Call) → c.Answer → Prop
  | .create _, a => p.Grants a p'
  | .openFile _, a => p.Grants a p'
  | .close fd, a => p.Yields fd a p'
  | .read fd _, _ => p.Seeks fd p'
  | .write fd _, _ => p.Seeks fd p'
  | .chdir _, _ => ∃ cwd, p' = { p with cwd }
  | _, _ => p' = p

def Happening.Touches (p p' : ProcessState) : Happening → Prop
  | .answered c a => c.Touches p p' a
  | .noted _ => p' = p
  | .ended how => p' = { p with termination := some how, descriptors := .closed }

namespace Machine

/-- What a step of `pid` does to the entries of others. -/
inductive Spread (m : Machine) (pid : Pid) : Happening → Machine → Prop
  | within {what : Happening} {m' : Machine} :
      (∀ path args a, what = .answered (.exec path args) a → a = (-1 : Word)) →
      (∀ child status a, what = .answered (.join child status) a → a.1 = -1) →
      m.processes.Within pid m'.processes → Spread m pid what m'
  | started {path : String} {args : List String} {child : Pid} {m' : Machine} :
      m.processes.Admits pid child m'.processes →
      Spread m pid (.answered (.exec path args) (Int32.ofInt child : Word)) m'
  /-- The caller broke down when the child was already entered. -/
  | abandoned {t : Task} {path : String} {args : List String} {next : Word → Program Unit}
      {child : Pid} {m' : Machine} : m.task? pid = some t → t.body = .call (.exec path args) next →
      m.processes.Admits pid child m'.processes → Spread m pid (.ended .exception) m'
  | joined {child status : Word} {a : Word × Word} {m' : Machine} : a.1 ≠ -1 →
      m.processes.Dismisses pid child.toInt m'.processes →
      Spread m pid (.answered (.join child status) a) m'

/-- A step of `pid` reaches into its own entry only as far as it should, and into no other. -/
structure Isolated (m : Machine) (pid : Pid) (what : Happening) (m' : Machine) : Prop where
  others : m.Spread pid what m'
  own : ∃ p p', m.processes.get? pid = some p ∧ m'.processes.get? pid = some p' ∧
    what.Touches p p'

variable {m m' : Machine} {pid : Pid} {c : Call}

theorem touches_refusal (p : ProcessState) (c : Call) : c.Touches p p c.refusal := by
  cases c with
  | create _ | openFile _ | close _ => exact Or.inl ⟨rfl, rfl⟩
  | read _ _ | write _ _ => exact Or.inl rfl
  | chdir _ => exact ⟨p.cwd, rfl⟩
  | _ => exact rfl

theorem grants_of_insert {p : ProcessState} (hf : p.descriptors.Fits) {o n : Nat}
    {ds : DescriptorTable} (hi : p.descriptors.insert (.ofObject o) = some (ds, n)) :
    p.Grants (Int32.ofNat n) { p with descriptors := ds } := by
  have hn := (hf.insert hi).2
  refine Or.inr ⟨ofNat_ne_neg_one (Nat.lt_trans hn (by decide)), ?_, o, ds, rfl,
    DescriptorTable.get?_insert hi hn⟩
  rw [DescriptorTable.get?, DescriptorTable.place?_ofNat hn, Option.bind_some]
  exact DescriptorTable.at?_of_insert hi

theorem get?_withDescriptors {p : ProcessState} (hp : m.processes.get? pid = some p)
    (ds : DescriptorTable) :
    (m.withDescriptors pid ds).processes.get? pid = some { p with descriptors := ds } := by
  rw [withDescriptors, ProcessTable.get?_modify, if_pos rfl, hp]
  rfl

theorem seeks_setDescriptor {p : ProcessState} (hp : m.processes.get? pid = some p) {fd : Word}
    {d : Descriptor} (hd : p.descriptors.get? fd = some d) (n : Nat) :
    ∃ p', (m.setDescriptor pid fd (d.seek n)).processes.get? pid = some p' ∧ p.Seeks fd p' := by
  refine ⟨{ p with descriptors := p.descriptors.set fd (some (d.seek n)) }, ?_, ?_⟩
  · rw [setDescriptor, ProcessTable.get?_modify, if_pos rfl, hp]
    rfl
  · exact Or.inr ⟨d, n, _, hd, rfl, DescriptorTable.get?_set hd _⟩

theorem Served.touches {p : ProcessState} (hf : p.descriptors.Fits)
    (hp : m.processes.get? pid = some p) (hlive : p.termination = none) {a : c.Answer}
    (h : m.Served pid c m' (.answer a)) :
    ∃ p', m'.processes.get? pid = some p' ∧ c.Touches p p' a := by
  generalize hr : Reaction.answer a = r at h
  cases h with
  | refused _ =>
    cases hr
    exact ⟨p, hp, touches_refusal p c⟩
  | crowded | waits => cases hr
  | launched _ hs _ =>
    rw [startingCwd_of_get? hp] at hs
    have hchild := ProcessTable.admits_of_spawn hp hs
    refine ⟨p, ?_, rfl⟩
    dsimp only
    rw [ProcessTable.get?_spawn hs, if_neg hchild.ne.symm, hp]
  | reaped hq _ hend _ =>
    refine ⟨p, ?_, rfl⟩
    dsimp only
    rw [ProcessTable.get?_reap, if_neg, hp]
    rintro rfl
    obtain rfl := Option.some.inj (hp.symm.trans hq)
    rw [hlive] at hend
    cases hend
  | created _ _ hp' hi | opened _ _ hp' hi =>
    cases hr
    obtain rfl := Option.some.inj (hp.symm.trans hp')
    exact ⟨_, get?_withDescriptors (by exact hp) _, grants_of_insert hf hi⟩
  | createdInVain =>
    cases hr
    exact ⟨p, hp, Or.inl ⟨rfl, rfl⟩⟩
  | readConsole | wroteConsole => exact ⟨p, hp, Or.inl rfl⟩
  | readFile hd _ _ _ _ => exact seeks_setDescriptor hp (descriptor?_eq_get? hp _ ▸ hd) _
  | wroteFile hd _ _ =>
    exact seeks_setDescriptor (m := { m with files.objects := _ }) hp
      (descriptor?_eq_get? hp _ ▸ hd) _
  | closed hp' hd =>
    cases hr
    obtain rfl := Option.some.inj (hp.symm.trans hp')
    exact ⟨_, get?_withDescriptors hp _, Or.inr ⟨rfl, hd ▸ rfl, _, rfl,
      DescriptorTable.get?_set hd none⟩⟩
  | @moved path q _ _ =>
    refine ⟨{ p with cwd := q }, ?_, q, rfl⟩
    dsimp only
    rw [ProcessTable.get?_modify, if_pos rfl, hp]
    rfl
  | unlinked | made | removed => exact ⟨p, hp, rfl⟩
  | asked ha =>
    obtain ⟨referee, rfl⟩ := ha.referee_only
    exact ⟨p, hp, rfl⟩

theorem Served.spread {p : ProcessState} (hp : m.processes.get? pid = some p)
    {a : c.Answer} (h : m.Served pid c m' (.answer a)) : m.Spread pid (.answered c a) m' := by
  generalize hr : Reaction.answer a = r at h
  cases h with
  | refused _ =>
    cases hr
    refine .within ?_ ?_ (.refl _ _)
    · rintro path args _ ⟨⟩
      rfl
    · rintro child status _ ⟨⟩
      rfl
  | crowded | waits => cases hr
  | launched _ hs hlast =>
    rw [startingCwd_of_get? hp] at hs
    rcases hlast with ⟨-, rfl⟩ | ⟨-, f, rfl⟩
    · cases hr
      exact .started (ProcessTable.admits_of_spawn hp hs)
    · cases hr
  | @reaped child _ _ _ _ _ hq hparent hend hcode =>
    cases hr
    refine .joined hcode ⟨ProcessTable.length_put .., ⟨_, _, hq, hparent, hend⟩, ?_, fun q hne => ?_⟩
    · dsimp only
      rw [ProcessTable.get?_reap, if_pos rfl]
    · dsimp only
      rw [ProcessTable.get?_reap, if_neg hne]
  | created | opened | readFile | wroteFile | closed | moved =>
    exact .within nofun nofun (ProcessTable.within_modify _ _ _)
  | asked ha =>
    obtain ⟨referee, rfl⟩ := ha.referee_only
    exact .within nofun nofun (.refl _ _)
  | _ => exact .within nofun nofun (.refl _ _)

theorem Served.spread_of_fault {p : ProcessState} (hp : m.processes.get? pid = some p) {f : Fault}
    (h : m.Served pid c m' (.fault f)) : m'.processes.get? pid = some p ∧
      (m'.processes = m.processes ∨
        ∃ path args child, c = .exec path args ∧
          m.processes.Admits pid child m'.processes) := by
  generalize hr : Reaction.fault f = r at h
  cases h with
  | @launched path args _ _ child _ _ _ hs _ =>
    rw [startingCwd_of_get? hp] at hs
    have hin := ProcessTable.admits_of_spawn hp hs
    refine ⟨?_, Or.inr ⟨path, args, child, rfl, hin⟩⟩
    dsimp only
    rw [ProcessTable.get?_spawn hs, if_neg hin.ne.symm, hp]
  | asked ha =>
    obtain ⟨referee, rfl⟩ := ha.referee_only
    exact ⟨hp, Or.inl rfl⟩
  | crowded => exact ⟨hp, Or.inl rfl⟩
  | _ => cases hr

theorem get?_finish {p : ProcessState} (hp : m.processes.get? pid = some p)
    (hlive : p.termination = none) (how : Termination) : (m.finish pid how).processes.get? pid =
      some { p with termination := some how, descriptors := .closed } := by
  rw [finish, ProcessTable.get?_terminate, if_pos rfl, hp, Option.map_some, ProcessTable.ended,
    hlive]
  rfl

theorem Spread.ended {how : Termination} (h : m.processes.Within pid m'.processes) :
    m.Spread pid (.ended how) m' := .within nofun nofun h

theorem Spread.entry {q : Int} {what : Happening} {p : ProcessState}
    (h : m.Spread pid what m') (hq : q ≠ pid) (hp : m'.processes.get? q = some p) :
    m.processes.get? q = some p ∨
      (m.processes.slots.length : Int) < q ∧ p.descriptors = .stdio ∧ p.termination = none := by
  have hadmits : ∀ {child : Int}, m.processes.Admits pid child m'.processes →
      m.processes.get? q = some p ∨
        (m.processes.slots.length : Int) < q ∧ p.descriptors = .stdio ∧ p.termination = none := by
    intro child hin
    by_cases hchild : q = child
    · obtain ⟨p₀, -, hentered⟩ := hin.entered
      rw [hchild, hentered] at hp
      obtain rfl := Option.some.inj hp
      exact Or.inr ⟨hchild ▸ hin.lt, rfl, rfl⟩
    · rw [hin.others q hq hchild] at hp
      exact Or.inl hp
  cases h with
  | within _ _ hw => exact Or.inl (hw.others q hq ▸ hp)
  | started hin => exact hadmits hin
  | abandoned _ _ hin => exact hadmits hin
  | @joined child _ _ _ _ hout =>
    by_cases hchild : q = child.toInt
    · rw [hchild, hout.gone] at hp
      cases hp
    · exact Or.inl (hout.others q hchild ▸ hp)

/-- An entry stays through a step of another, except that a join takes it out after its end. -/
theorem Spread.kept {q : Int} {what : Happening} {p : ProcessState}
    (h : m.Spread pid what m') (hq : q ≠ pid) (hp : m.processes.get? q = some p) :
    m'.processes.get? q = some p ∨ m'.processes.get? q = none ∧ p.termination ≠ none := by
  have hadmits : ∀ {child : Int}, m.processes.Admits pid child m'.processes →
      m'.processes.get? q = some p := by
    intro child hin
    rw [hin.others q hq, hp]
    rintro rfl
    cases hin.fresh.symm.trans hp
  cases h with
  | within _ _ hw => exact Or.inl ((hw.others q hq).trans hp)
  | started hin => exact Or.inl (hadmits hin)
  | abandoned _ _ hin => exact Or.inl (hadmits hin)
  | @joined child _ _ _ _ hout =>
    by_cases hchild : q = child.toInt
    · obtain ⟨p₀, how, hp₀, -, hend⟩ := hout.ended
      obtain rfl := Option.some.inj (hp₀.symm.trans (hchild ▸ hp))
      exact Or.inr ⟨hchild ▸ hout.gone, hend ▸ nofun⟩
    · exact Or.inl ((hout.others q hchild).trans hp)

theorem Takes.isolated {what : Happening} (hm : m.Fitting) (ha : m.alive pid = true)
    (h : m.Takes pid what m') : m.Isolated pid what m' := by
  obtain ⟨p, hp, hlive⟩ := (alive_iff m pid).mp ha
  cases h with
  | @answered t c next m₁ a ht hb hh hs =>
    have hserved := served_of_serve hs
    obtain ⟨p', hp', htouches⟩ := hserved.touches (hm pid p hp) hp hlive
    refine ⟨?_, p, p', hp, ?_, htouches⟩
    · cases hserved.spread hp with
      | within hexec hjoin hw => exact .within hexec hjoin (by rwa [setTask_processes])
      | started hin => exact .started (by rwa [setTask_processes])
      | joined hcode hout => exact .joined hcode (by rwa [setTask_processes])
    · rw [setTask_processes]
      exact hp'
  | noted ht hb =>
    refine ⟨.within nofun nofun ?_, p, p, hp, ?_, rfl⟩
    · rw [setTask_processes]
      exact .refl _ _
    · rw [setTask_processes]
      exact hp
  | done | exit | crash | halted =>
    exact ⟨.ended (ProcessTable.within_terminate _ _ _), p, _, hp, get?_finish hp hlive _, rfl⟩
  | @faulted t c next m₁ f ht hb hh hs =>
    have hserved := served_of_serve hs
    have hends : m₁.processes.Within pid (m₁.finish pid .exception).processes :=
      ProcessTable.within_terminate _ _ _
    obtain ⟨hp₁, hspread⟩ := hserved.spread_of_fault hp
    refine ⟨?_, p, _, hp, get?_finish hp₁ hlive _, rfl⟩
    rcases hspread with hsame | ⟨path, args, child, rfl, hin⟩
    · rw [hsame] at hends
      exact .ended hends
    · exact .abandoned ht hb (hin.trans hends)

end Machine

end KernelExam

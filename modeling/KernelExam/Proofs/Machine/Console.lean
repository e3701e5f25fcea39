import KernelExam.Proofs.Machine.Examination
import KernelExam.Proofs.Machine.Isolation

/-!
# The console

All processes read from one queue and write to one stream, each through descriptors of its
own. Which calls those are can be told from the log alone: a process has standard input and
output under their two numbers until it closes them, and whatever it opens later is a file.
-/

set_option autoImplicit false

namespace KernelExam

/-- What an onlooker knows who sees the log only: which descriptors were closed, what was read
from standard input, and what was written to standard output. -/
structure Console where
  closed : List (Pid × Word)
  taken : Bytes
  written : Bytes

namespace Console

variable (k : Console) (pid : Pid) (fd : Word)

def empty : Console := ⟨[], [], []⟩

def Input : Prop := fd = stdin ∧ (pid, fd) ∉ k.closed

def Output : Prop := fd = stdout ∧ (pid, fd) ∉ k.closed

instance : Decidable (k.Input pid fd) := inferInstanceAs (Decidable (_ ∧ _))

instance : Decidable (k.Output pid fd) := inferInstanceAs (Decidable (_ ∧ _))

def after (e : Event) : Console :=
  match e.what with
  | .answered (.close fd) code =>
    if code = (0 : Word) then { k with closed := (e.pid, fd) :: k.closed } else k
  | .answered (.read fd _) a =>
    if k.Input e.pid fd then { k with taken := k.taken ++ a.2 } else k
  | .answered (.write fd bs) _ =>
    if k.Output e.pid fd then { k with written := k.written ++ bs } else k
  | _ => k

def ofLog (log : List Event) : Console := log.foldl after .empty

theorem ofLog_append (before after : List Event) :
    ofLog (before ++ after) = after.foldl Console.after (ofLog before) := List.foldl_append

theorem ofLog_concat (log : List Event) (e : Event) : ofLog (log ++ [e]) = (ofLog log).after e :=
  ofLog_append log [e]

theorem written_prefix (k : Console) (log : List Event) :
    k.written <+: (log.foldl after k).written := by
  have hone : ∀ (k : Console) (e : Event), k.written <+: (k.after e).written := by
    intro k e
    rw [after]
    split
    · split <;> exact List.prefix_rfl
    · split <;> exact List.prefix_rfl
    · split
      · exact List.prefix_append ..
      · exact List.prefix_rfl
    · exact List.prefix_rfl
  induction log generalizing k with
  | nil => exact List.prefix_rfl
  | cons e log ih => exact (hone k e).trans (ih (k.after e))

def standing : Option Descriptor :=
  if (pid, fd) ∈ k.closed then none else DescriptorTable.stdio.get? fd

theorem get?_stdio (d : Descriptor) : DescriptorTable.stdio.get? fd = some d ↔
    (fd = stdin ∧ d = ⟨.stdin, true, false⟩) ∨ fd = stdout ∧ d = ⟨.stdout, false, true⟩ := by
  constructor
  · intro h
    obtain ⟨n, hn, hd⟩ := Option.bind_eq_some_iff.mp h
    match n, hd with
    | 0, hd =>
      exact Or.inl ⟨DescriptorTable.place?_inj hn rfl, (Option.some.inj hd).symm⟩
    | 1, hd =>
      exact Or.inr ⟨DescriptorTable.place?_inj hn rfl, (Option.some.inj hd).symm⟩
  · rintro (⟨rfl, rfl⟩ | ⟨rfl, rfl⟩)
    · rfl
    · rfl

variable {k : Console} {pid : Pid} {fd : Word} {d : Descriptor}

theorem standing_eq_some_iff : k.standing pid fd = some d ↔
    (k.Input pid fd ∧ d = ⟨.stdin, true, false⟩) ∨ k.Output pid fd ∧ d = ⟨.stdout, false, true⟩ := by
  rw [standing]
  split
  · rename_i hclosed
    simp [Input, Output, hclosed]
  · rename_i hopen
    simp [get?_stdio, Input, Output, hopen]

theorem Input.standing (h : k.Input pid fd) : k.standing pid fd = some ⟨.stdin, true, false⟩ :=
  standing_eq_some_iff.mpr (Or.inl ⟨h, rfl⟩)

theorem Output.standing (h : k.Output pid fd) : k.standing pid fd = some ⟨.stdout, false, true⟩ :=
  standing_eq_some_iff.mpr (Or.inr ⟨h, rfl⟩)

theorem standing_of_mem (h : (pid, fd) ∈ k.closed) : k.standing pid fd = none := if_pos h

theorem standing_congr {k' : Console} (h : (pid, fd) ∈ k'.closed ↔ (pid, fd) ∈ k.closed) :
    k'.standing pid fd = k.standing pid fd := by
  simp only [Console.standing, h]

theorem seek_of_standing (h : k.standing pid fd = some d) (n : Nat) : d.seek n = d := by
  rcases standing_eq_some_iff.mp h with ⟨-, rfl⟩ | ⟨-, rfl⟩
  · rfl
  · rfl

end Console

/-- A process has the standard descriptors that it has not closed, and apart from them files. -/
structure DescriptorTable.Standard (ds : DescriptorTable) (k : Console) (pid : Pid) : Prop where
  kept : ∀ fd d, k.standing pid fd = some d → ds.get? fd = some d
  files : ∀ fd d, ds.get? fd = some d → k.standing pid fd = some d ∨ ∃ o n, d.endpoint = .file o n

section Standard

variable {ds ds' : DescriptorTable} {k k' : Console} {pid : Pid} {fd : Word}

theorem DescriptorTable.Standard.reads (h : ds.Standard k pid) {d : Descriptor}
    (hd : ds.get? fd = some d) : d.endpoint = .stdin ↔ k.Input pid fd := by
  constructor
  · intro he
    rcases h.files fd d hd with hs | ⟨o, n, hfile⟩
    · rcases Console.standing_eq_some_iff.mp hs with ⟨hin, -⟩ | ⟨-, rfl⟩
      · exact hin
      · cases he
    · cases he.symm.trans hfile
  · intro hin
    obtain rfl := Option.some.inj ((h.kept fd _ hin.standing).symm.trans hd)
    rfl

theorem DescriptorTable.Standard.writes (h : ds.Standard k pid) {d : Descriptor}
    (hd : ds.get? fd = some d) : d.endpoint = .stdout ↔ k.Output pid fd := by
  constructor
  · intro he
    rcases h.files fd d hd with hs | ⟨o, n, hfile⟩
    · rcases Console.standing_eq_some_iff.mp hs with ⟨-, rfl⟩ | ⟨hout, -⟩
      · cases he
      · exact hout
    · cases he.symm.trans hfile
  · intro hout
    obtain rfl := Option.some.inj ((h.kept fd _ hout.standing).symm.trans hd)
    rfl

theorem DescriptorTable.Standard.congr (h : ds.Standard k pid)
    (hk : ∀ fd, (pid, fd) ∈ k'.closed ↔ (pid, fd) ∈ k.closed) : ds.Standard k' pid := by
  have hsame : ∀ fd, k'.standing pid fd = k.standing pid fd := fun fd => Console.standing_congr (hk fd)
  constructor
  all_goals simp only [hsame]
  · exact h.kept
  · exact h.files

theorem DescriptorTable.standard_stdio (hk : ∀ fd, (pid, fd) ∉ k.closed) :
    DescriptorTable.stdio.Standard k pid := by
  have hstanding : ∀ fd, k.standing pid fd = DescriptorTable.stdio.get? fd := fun fd => if_neg (hk fd)
  exact ⟨fun fd d hs => hstanding fd ▸ hs, fun fd d hd => Or.inl (hstanding fd ▸ hd)⟩

theorem DescriptorTable.Standard.add (h : ds.Standard k pid) {d : Descriptor} (hfree : ds.get? fd = none)
    (hfile : ∃ o n, d.endpoint = .file o n)
    (hds : ∀ fd', ds'.get? fd' = if fd' = fd then some d else ds.get? fd') : ds'.Standard k pid := by
  constructor
  · intro fd' d' hs
    have hkept := h.kept fd' d' hs
    rw [hds, if_neg]
    · exact hkept
    · rintro rfl
      cases hfree.symm.trans hkept
  · intro fd' d' hd
    rw [hds] at hd
    split at hd
    · obtain rfl := Option.some.inj hd
      exact Or.inr hfile
    · exact h.files fd' d' hd

theorem DescriptorTable.Standard.move (h : ds.Standard k pid) {d : Descriptor} {n : Nat}
    (hd : ds.get? fd = some d)
    (hds : ∀ fd', ds'.get? fd' = if fd' = fd then some (d.seek n) else ds.get? fd') :
    ds'.Standard k pid := by
  constructor
  · intro fd' d' hs
    have hkept := h.kept fd' d' hs
    rw [hds]
    split
    · rename_i he
      obtain rfl := Option.some.inj ((he ▸ hkept).symm.trans hd)
      rw [Console.seek_of_standing hs]
    · exact hkept
  · intro fd' d' hd'
    rw [hds] at hd'
    split at hd'
    · rename_i he
      obtain rfl := Option.some.inj hd'
      rcases h.files fd d hd with hs | ⟨o, n', hfile⟩
      · rw [he, Console.seek_of_standing hs]
        exact Or.inl hs
      · exact Or.inr ⟨o, n, by rw [Descriptor.seek, hfile]⟩
    · exact h.files fd' d' hd'

theorem DescriptorTable.Standard.give (h : ds.Standard k pid)
    (hds : ∀ fd', ds'.get? fd' = if fd' = fd then none else ds.get? fd')
    (hk : k'.closed = (pid, fd) :: k.closed) : ds'.Standard k' pid := by
  have hother : ∀ fd', fd' ≠ fd → k'.standing pid fd' = k.standing pid fd' := by
    intro fd' hne
    apply Console.standing_congr
    simp [hk, hne]
  have hself : k'.standing pid fd = none := by
    apply Console.standing_of_mem
    rw [hk]
    exact List.mem_cons_self ..
  constructor
  · intro fd' d' hs
    by_cases he : fd' = fd
    · rw [he, hself] at hs
      cases hs
    · rw [hother fd' he] at hs
      rw [hds, if_neg he]
      exact h.kept fd' d' hs
  · intro fd' d' hd
    rw [hds] at hd
    split at hd
    · cases hd
    · rename_i he
      rw [hother fd' he]
      exact h.files fd' d' hd

theorem DescriptorTable.Standard.touches {p p' : ProcessState} {what : Happening}
    (h : p.descriptors.Standard k pid) (ht : what.Touches p p') (hlive : p'.termination = none) :
    p'.descriptors.Standard (k.after ⟨pid, what⟩) pid := by
  have hsame : ∀ {k' : Console}, k'.closed = k.closed → p'.descriptors.Standard k pid →
      p'.descriptors.Standard k' pid := fun hk hs => hs.congr fun fd => by rw [hk]
  cases what with
  | noted n =>
    obtain rfl : p' = p := ht
    exact h
  | ended how =>
    obtain rfl : p' = _ := ht
    cases hlive
  | answered c a =>
    have hgrants : ∀ {fd : Word}, p.Grants fd p' → p'.descriptors.Standard k pid := by
      rintro fd (⟨-, rfl⟩ | ⟨-, hfree, o, ds, rfl, hds⟩)
      · exact h
      · exact h.add hfree ⟨o, 0, rfl⟩ hds
    have hseeks : ∀ {fd : Word}, p.Seeks fd p' → p'.descriptors.Standard k pid := by
      rintro fd (rfl | ⟨d, n, ds, hd, rfl, hds⟩)
      · exact h
      · exact h.move hd hds
    cases c with
    | create path => exact hgrants ht
    | openFile path => exact hgrants ht
    | read fd size =>
      refine hsame ?_ (hseeks ht)
      dsimp only [Console.after]
      split <;> rfl
    | write fd bs =>
      refine hsame ?_ (hseeks ht)
      dsimp only [Console.after]
      split <;> rfl
    | close fd =>
      rcases ht with ⟨hcode, rfl⟩ | ⟨hcode, -, ds, rfl, hds⟩
      · have hne : (-1 : Word) ≠ 0 := by decide
        refine hsame ?_ h
        dsimp only [Console.after]
        rw [if_neg fun hzero => hne (hcode.symm.trans hzero)]
      · refine h.give hds ?_
        dsimp only [Console.after]
        rw [if_pos hcode]
    | chdir path =>
      obtain ⟨cwd, rfl⟩ := ht
      exact h
    | _ =>
      obtain rfl : p' = p := ht
      exact h

theorem Console.mem_closed_after {q : Pid} {what : Happening} :
    (q, fd) ∈ (k.after ⟨pid, what⟩).closed → (q, fd) ∈ k.closed ∨ q = pid := by
  intro h
  rw [after] at h
  dsimp only at h
  split at h
  · split at h
    · rcases List.mem_cons.mp h with h | h
      · exact Or.inr (Prod.mk.inj h).1
      · exact Or.inl h
    · exact Or.inl h
  · split at h <;> exact Or.inl h
  · split at h <;> exact Or.inl h
  · exact Or.inl h

theorem Console.mem_closed_of_mem {q : Pid} {e : Event} (h : (q, fd) ∈ k.closed) :
    (q, fd) ∈ (k.after e).closed := by
  rw [after]
  split
  · split
    · exact List.mem_cons_of_mem _ h
    · exact h
  · split <;> exact h
  · split <;> exact h
  · exact h

end Standard

/-- The console loses, doubles and mixes nothing. `given` is what the queue held at first. -/
structure Console.Faithful (given : Bytes) (log : List Event) (m : Machine) : Prop where
  input : (ofLog log).taken ++ m.stdin = given
  output : m.stdout = (ofLog log).written
  /-- A read takes what is left, as far as there is room for it. -/
  read : ∀ before pid fd size a after, log = before ++ ⟨pid, .answered (.read fd size) a⟩ :: after →
    (ofLog before).Input pid fd →
      let queued := given.drop (ofLog before).taken.length
      a.2 = queued.take size ∧ a.1 = Int32.ofNat (min size queued.length)
  /-- A write comes after all that was written before, in one piece. -/
  write : ∀ before pid fd bs a after, log = before ++ ⟨pid, .answered (.write fd bs) a⟩ :: after →
    (ofLog before).Output pid fd →
      a = (Int32.ofNat bs.length : Word) ∧ (ofLog before).written ++ bs <+: m.stdout
  /-- The numbers 0 and 1 stand for the console until they are closed, and no other ever does. -/
  standing : ∀ pid, m.alive pid = true →
    (∀ fd, (ofLog log).Input pid fd → m.descriptor? pid fd = some ⟨.stdin, true, false⟩) ∧
    (∀ fd, (ofLog log).Output pid fd → m.descriptor? pid fd = some ⟨.stdout, false, true⟩) ∧
    ∀ fd d, m.descriptor? pid fd = some d →
      (d.endpoint = .stdin ↔ (ofLog log).Input pid fd) ∧
      (d.endpoint = .stdout ↔ (ofLog log).Output pid fd)

namespace Machine

variable {m m' : Machine} {pid q : Int} {c : Call} {what : Happening} {log : List Event} {k : Console}
  {p : ProcessState}

theorem serve_read_console {fd : Word} (hd : m.descriptor? pid fd = some ⟨.stdin, true, false⟩)
    (size : Nat) : m.serve pid (.read fd size) = ({ m with stdin := m.stdin.drop size },
      .answer (Int32.ofNat (m.stdin.take size).length, m.stdin.take size)) := by
  rw [serve, read, hd]
  rfl

theorem serve_write_console {fd : Word} (hd : m.descriptor? pid fd = some ⟨.stdout, false, true⟩)
    (bs : Bytes) : m.serve pid (.write fd bs) =
      ({ m with stdout := m.stdout ++ bs }, .answer (Int32.ofNat bs.length)) := by
  rw [serve, write, hd]
  rfl

theorem Served.streams {r : Reaction c.Answer} (h : m.Served pid c m' r) :
    (m'.stdin = m.stdin ∨ ∃ fd size d, c = .read fd size ∧ m.descriptor? pid fd = some d ∧
      d.endpoint = .stdin) ∧
    (m'.stdout = m.stdout ∨ ∃ fd bs d, c = .write fd bs ∧ m.descriptor? pid fd = some d ∧
      d.endpoint = .stdout) := by
  cases h with
  | readConsole hd _ he => exact ⟨Or.inr ⟨_, _, _, rfl, hd, he⟩, Or.inl rfl⟩
  | wroteConsole hd _ he => exact ⟨Or.inl rfl, Or.inr ⟨_, _, _, rfl, hd, he⟩⟩
  | asked ha =>
    obtain ⟨referee, rfl⟩ := ha.referee_only
    exact ⟨Or.inl rfl, Or.inl rfl⟩
  | _ => exact ⟨Or.inl rfl, Or.inl rfl⟩

/-- What is added to the account has left the head of the queue, or has come to the end of the
stream. -/
structure Accounts (k k' : Console) (m m' : Machine) : Prop where
  input : k'.taken ++ m'.stdin = k.taken ++ m.stdin
  output : ∃ bs, k'.written = k.written ++ bs ∧ m'.stdout = m.stdout ++ bs

theorem Accounts.of_eq {k' : Console} (htaken : k'.taken = k.taken) (hwritten : k'.written = k.written)
    (hin : m'.stdin = m.stdin) (hout : m'.stdout = m.stdout) : Accounts k k' m m' := by
  refine ⟨by rw [htaken, hin], [], ?_, ?_⟩
  · rw [hwritten, List.append_nil]
  · rw [hout, List.append_nil]

section Accounts

variable (hp : m.processes.get? pid = some p) (hk : p.descriptors.Standard k pid)
include hp hk

theorem accounts_read {fd : Word} {size : Nat} {a : Word × Bytes}
    (h : m.serve pid (.read fd size) = (m', .answer a)) :
    Accounts k (k.after ⟨pid, .answered (.read fd size) a⟩) m m' := by
  dsimp only [Console.after]
  by_cases hstanding : k.Input pid fd
  · have hd := hk.kept fd _ hstanding.standing
    rw [← descriptor?_eq_get? hp] at hd
    rw [serve_read_console hd size] at h
    obtain ⟨rfl, ha⟩ := Prod.mk.inj h
    obtain rfl := Reaction.answer.inj ha
    rw [if_pos hstanding]
    refine ⟨?_, [], (List.append_nil _).symm, (List.append_nil _).symm⟩
    dsimp only
    rw [List.append_assoc, List.take_append_drop]
  · rw [if_neg hstanding]
    obtain ⟨hin, hout⟩ := (served_of_serve h).streams
    refine .of_eq rfl rfl (hin.resolve_right ?_) (hout.resolve_right ?_)
    · rintro ⟨fd', size', d, hc, hd, he⟩
      cases hc
      rw [descriptor?_eq_get? hp] at hd
      exact hstanding ((hk.reads hd).mp he)
    · rintro ⟨fd', bs, d, hc, -⟩
      cases hc

theorem accounts_write {fd : Word} {bs : Bytes} {a : Word}
    (h : m.serve pid (.write fd bs) = (m', .answer a)) :
    Accounts k (k.after ⟨pid, .answered (.write fd bs) a⟩) m m' := by
  dsimp only [Console.after]
  by_cases hstanding : k.Output pid fd
  · have hd := hk.kept fd _ hstanding.standing
    rw [← descriptor?_eq_get? hp] at hd
    rw [serve_write_console hd bs] at h
    obtain ⟨rfl, -⟩ := Prod.mk.inj h
    rw [if_pos hstanding]
    exact ⟨rfl, bs, rfl, rfl⟩
  · rw [if_neg hstanding]
    obtain ⟨hin, hout⟩ := (served_of_serve h).streams
    refine .of_eq rfl rfl (hin.resolve_right ?_) (hout.resolve_right ?_)
    · rintro ⟨fd', size, d, hc, -⟩
      cases hc
    · rintro ⟨fd', bs', d, hc, hd, he⟩
      cases hc
      rw [descriptor?_eq_get? hp] at hd
      exact hstanding ((hk.writes hd).mp he)

theorem accounts_serve {a : c.Answer} (h : m.serve pid c = (m', .answer a)) :
    Accounts k (k.after ⟨pid, .answered c a⟩) m m' := by
  obtain ⟨hin, hout⟩ := (served_of_serve h).streams
  cases c with
  | read fd size => exact accounts_read hp hk h
  | write fd bs => exact accounts_write hp hk h
  | close fd =>
    have hstdin := hin.resolve_right fun ⟨fd', size, d, hc, _⟩ => nomatch hc
    have hstdout := hout.resolve_right fun ⟨fd', bs, d, hc, _⟩ => nomatch hc
    dsimp only [Console.after]
    split
    · exact .of_eq rfl rfl hstdin hstdout
    · exact .of_eq rfl rfl hstdin hstdout
  | _ =>
    have hstdin := hin.resolve_right fun ⟨fd', size, d, hc, _⟩ => nomatch hc
    have hstdout := hout.resolve_right fun ⟨fd', bs, d, hc, _⟩ => nomatch hc
    exact .of_eq rfl rfl hstdin hstdout

end Accounts

theorem Served.streams_of_fault {f : Fault} (h : m.Served pid c m' (.fault f)) :
    m'.stdin = m.stdin ∧ m'.stdout = m.stdout := by
  generalize hr : (Reaction.fault f : Reaction c.Answer) = r at h
  cases h with
  | readConsole | wroteConsole => cases hr
  | asked ha =>
    obtain ⟨referee, rfl⟩ := ha.referee_only
    exact ⟨rfl, rfl⟩
  | _ => exact ⟨rfl, rfl⟩

theorem Takes.accounts (hp : m.processes.get? pid = some p) (hk : p.descriptors.Standard k pid)
    (h : m.Takes pid what m') : Accounts k (k.after ⟨pid, what⟩) m m' := by
  cases h with
  | answered _ _ _ hs =>
    obtain ⟨hin, hout⟩ := accounts_serve hp hk hs
    constructor
    · rw [setTask_stdin, hin]
    · rw [setTask_stdout]
      exact hout
  | noted _ _ => exact .of_eq rfl rfl (setTask_stdin ..) (setTask_stdout ..)
  | done | exit | crash | halted => exact .of_eq rfl rfl rfl rfl
  | faulted _ _ _ hs =>
    obtain ⟨hin, hout⟩ := (served_of_serve hs).streams_of_fault
    exact .of_eq rfl rfl hin hout

structure Watched (given : Bytes) (log : List Event) (m : Machine) : Prop where
  past : ∀ (q : Int) fd, (q, fd) ∈ (Console.ofLog log).closed → q ≤ m.processes.slots.length
  standard : ∀ q p, m.processes.get? q = some p → p.termination = none →
    p.descriptors.Standard (Console.ofLog log) q
  input : (Console.ofLog log).taken ++ m.stdin = given
  output : m.stdout = (Console.ofLog log).written

theorem Watched.takes {given : Bytes} (h : Watched given log m) (hm : m.Fitting)
    (ha : m.alive pid = true) (ht : m.Takes pid what m') :
    Watched given (log ++ [⟨pid, what⟩]) m' := by
  obtain ⟨hspread, p, p', hp, hp', htouches⟩ := ht.isolated hm ha
  obtain ⟨p₀, hp₀, hlive⟩ := (alive_iff m pid).mp ha
  obtain rfl := Option.some.inj (hp₀.symm.trans hp)
  have hstandard := h.standard pid p₀ hp hlive
  obtain ⟨hin, bs, hwritten, hout⟩ := ht.accounts hp hstandard
  have hle := ht.length_le
  have hpid := (ProcessTable.le_length_of_get? hp).2
  constructor
  all_goals rw [Console.ofLog_concat]
  · intro q fd hclosed
    rcases Console.mem_closed_after hclosed with hclosed | rfl
    · have hold := h.past q fd hclosed
      omega
    · omega
  · intro q p hq hnone
    by_cases hne : q = pid
    · subst hne
      obtain rfl := Option.some.inj (hp'.symm.trans hq)
      exact hstandard.touches htouches hnone
    · rcases hspread.entry hne hq with hold | ⟨hnew, hstdio, -⟩
      · refine (h.standard q p hold hnone).congr fun fd => ⟨fun hc => ?_, Console.mem_closed_of_mem⟩
        exact (Console.mem_closed_after hc).resolve_right hne
      · rw [hstdio]
        refine DescriptorTable.standard_stdio fun fd hc => ?_
        have hold := h.past q fd ((Console.mem_closed_after hc).resolve_right hne)
        omega
  · rw [hin, h.input]
  · rw [hout, hwritten, h.output]

theorem Watched.run {given : Bytes} {start : Machine} (hstart : start.Fitting)
    (h : Watched given [] start) (hr : start.Run log m) : Watched given log m := by
  induction hr with
  | start => exact h
  | step hr ha ht ih => exact ih.takes (fitting_invariant.run hstart hr) ha ht
  | halt _ ih => exact ⟨ih.past, ih.standard, ih.input, ih.output⟩

theorem watched_boot (hm : m.processes = .empty) (hout : m.stdout = []) (program : String)
    (args : List String) : Watched m.stdin [] (m.boot program args).1 := by
  have hnone : ∀ fd q, (q, fd) ∉ Console.empty.closed := fun _ _ => List.not_mem_nil
  have hstart : ∀ booted referee, Watched m.stdin [] { m with booted, referee } := by
    intro booted referee
    refine ⟨fun q fd hc => absurd hc List.not_mem_nil, fun q p hp => ?_, rfl, hout⟩
    cases (get?_empty hm q).symm.trans hp
  obtain ⟨booted, referee, -, hb | ⟨r, hl⟩⟩ := boot_launched m program args
  · rw [hb]
    exact hstart booted referee
  · generalize (m.boot program args).1 = m' at hl
    cases hl with
    | unknown | crowded => exact hstart booted referee
    | @started image processes child last _ _ hs _ =>
      refine ⟨fun q fd hc => absurd hc List.not_mem_nil, fun q p hp _ => ?_, rfl, hout⟩
      dsimp only at hp
      rw [ProcessTable.get?_spawn hs] at hp
      split at hp
      · obtain rfl := Option.some.inj hp
        exact DescriptorTable.standard_stdio fun fd => hnone fd q
      · cases (get?_empty hm q).symm.trans hp

theorem Watched.queued {given : Bytes} (h : Watched given log m) :
    m.stdin = given.drop (Console.ofLog log).taken.length := by
  rw [← h.input, List.drop_left]

theorem Watched.descriptor? {given : Bytes} (h : Watched given log m) (ha : m.alive pid = true)
    {fd : Word} {d : Descriptor} (hd : (Console.ofLog log).standing pid fd = some d) :
    m.descriptor? pid fd = some d := by
  obtain ⟨p, hp, hlive⟩ := (alive_iff m pid).mp ha
  rw [descriptor?_eq_get? hp]
  exact (h.standard pid p hp hlive).kept fd d hd

theorem Watched.read {given : Bytes} (h : Watched given log m) (ha : m.alive pid = true) {fd : Word}
    {size : Nat} {a : Word × Bytes} (ht : m.Takes pid (.answered (.read fd size) a) m')
    (hin : (Console.ofLog log).Input pid fd) :
    a.2 = m.stdin.take size ∧ a.1 = Int32.ofNat (min size m.stdin.length) := by
  cases ht with
  | answered _ _ _ hs =>
    rw [serve_read_console (h.descriptor? ha hin.standing) size] at hs
    obtain rfl := Reaction.answer.inj (congrArg Prod.snd hs)
    exact ⟨rfl, congrArg Int32.ofNat (List.length_take ..)⟩

theorem Watched.write {given : Bytes} (h : Watched given log m) (ha : m.alive pid = true) {fd : Word}
    {bs : Bytes} {a : Word} (ht : m.Takes pid (.answered (.write fd bs) a) m')
    (hout : (Console.ofLog log).Output pid fd) : a = Int32.ofNat bs.length := by
  cases ht with
  | answered _ _ _ hs =>
    rw [serve_write_console (h.descriptor? ha hout.standing) bs] at hs
    exact (Reaction.answer.inj (congrArg Prod.snd hs)).symm

/-- In whatever order the processes make their calls, and whatever they close and open. -/
theorem console_faithful {plan : Plan} (hp : plan.Drawn) (program : String) (args : List String)
    (h : (plan.build.boot program args).1.Run log m) :
    Console.Faithful plan.stdin log m := by
  have hfitting : (plan.build.boot program args).1.Fitting :=
    fitting_invariant.reachable (.boot program args (.build hp))
  have hstart : Watched plan.stdin [] (plan.build.boot program args).1 :=
    watched_boot (m := plan.build) rfl rfl program args
  have hw := hstart.run hfitting h
  refine ⟨hw.input, hw.output, ?_, ?_, ?_⟩
  · intro before pid fd size a after hlog hin
    obtain ⟨b, b', hbefore, ha, ht, -⟩ := h.split hlog
    have hb := hstart.run hfitting hbefore
    rw [← hb.queued]
    exact hb.read ha ht hin
  · intro before pid fd bs a after hlog hout
    obtain ⟨b, b', hbefore, ha, ht, -⟩ := h.split hlog
    refine ⟨(hstart.run hfitting hbefore).write ha ht hout, ?_⟩
    have hwritten : ((Console.ofLog before).after ⟨pid, .answered (.write fd bs) a⟩).written =
        (Console.ofLog before).written ++ bs := by
      dsimp only [Console.after]
      rw [if_pos hout]
    rw [hw.output, hlog, Console.ofLog_append, List.foldl_cons, ← hwritten]
    exact Console.written_prefix _ after
  · intro pid ha
    obtain ⟨p, hget, hlive⟩ := (alive_iff m pid).mp ha
    have hs := hw.standard pid p hget hlive
    simp only [descriptor?_eq_get? hget]
    exact ⟨fun fd hin => hs.kept fd _ hin.standing, fun fd hout => hs.kept fd _ hout.standing,
      fun fd d hd => ⟨hs.reads hd, hs.writes hd⟩⟩

def talker : Image := fun _ args =>
  if args = [] then
    .call (.exec "p" ["child"]) fun _ => .call (.read 0 2) fun _ => .call (.write 1 [7]) fun _ =>
      .call (.close 0) fun _ => .call (.create "/f") fun _ => .call (.write 0 [8]) fun _ =>
        .call (.read 0 5) fun _ => .done ()
  else .call (.write 1 [9]) fun _ => .call (.read 0 5) fun _ => .done ()

def talk : Plan := { Plan.empty.register "p" talker with stdin := [1, 2, 3] }

def talkLog : List Event :=
  [⟨1, .answered (.exec "p" ["child"]) (2 : Word)⟩,
    ⟨1, .answered (.read 0 2) ((2 : Word), ([1, 2] : Bytes))⟩, ⟨2, .answered (.write 1 [9]) (1 : Word)⟩,
    ⟨1, .answered (.write 1 [7]) (1 : Word)⟩, ⟨1, .answered (.close 0) (0 : Word)⟩,
    ⟨1, .answered (.create "/f") (0 : Word)⟩, ⟨1, .answered (.write 0 [8]) (1 : Word)⟩,
    ⟨2, .answered (.read 0 5) ((1 : Word), ([3] : Bytes))⟩,
    ⟨1, .answered (.read 0 5) ((0 : Word), ([] : Bytes))⟩]

theorem talk_run : ∃ m, (talk.build.boot "p" []).1.Run talkLog m := by
  iterate 9 refine exists_run_cons rfl (.answered rfl rfl rfl rfl) ?_
  exact ⟨_, .start⟩

theorem console_faithful_talk : talk.Drawn ∧ ∃ m, (talk.build.boot "p" []).1.Run talkLog m ∧
    Console.Faithful [1, 2, 3] talkLog m ∧ m.stdin = [] ∧ m.stdout = [9, 7] := by
  have hregistered : (Plan.empty.register "p" talker).Drawn := .register "p" talker .empty
  have hprovided : (Plan.empty.register "p" talker).provide (.stdin [1, 2, 3]) = .ok talk := rfl
  have hdrawn : talk.Drawn := hregistered.provide hprovided
  obtain ⟨m, hr⟩ := talk_run
  have hfaithful := console_faithful hdrawn "p" [] hr
  have htaken : (Console.ofLog talkLog).taken = [1, 2, 3] := by decide
  have hwritten : (Console.ofLog talkLog).written = [9, 7] := by decide
  refine ⟨hdrawn, m, hr, hfaithful, ?_, ?_⟩
  · have hin := hfaithful.input
    rw [htaken] at hin
    exact List.append_right_eq_self.mp hin
  · rw [hfaithful.output, hwritten]

end Machine

end KernelExam

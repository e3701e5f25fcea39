import KernelExam.Proofs.Machine.Lifecycle
import KernelExam.Proofs.Machine.WorkingDirectory
import KernelExam.Proofs.Path.Hops

/-!
# Going there first

A process that has gone to a directory finds under a relative path what it would have found under
the longer path before. It stays there, whatever it and the others do, until it goes elsewhere.
-/

set_option autoImplicit false

namespace KernelExam

inductive PathCall where
  | create
  | openFile
  | unlink
  | chdir
  | mkdir
  | rmdir
  deriving DecidableEq, Repr

def PathCall.serve (m : Machine) (pid : Pid) (path : String) : PathCall → Machine × Reaction Word
  | .create => m.serve pid (.create path)
  | .openFile => m.serve pid (.openFile path)
  | .unlink => m.serve pid (.unlink path)
  | .chdir => m.serve pid (.chdir path)
  | .mkdir => m.serve pid (.mkdir path)
  | .rmdir => m.serve pid (.rmdir path)

def Happening.Moves (what : Happening) : Prop := ∃ path, what = .answered (.chdir path) (0 : Word)

namespace Machine

variable {m m' : Machine} {pid q : Int} {c : Call} {what : Happening} {log : List Event}
  {path path' place : String}

theorem serve_path_congr (h : m.resolve pid path = m.resolve pid path') (k : PathCall) :
    k.serve m pid path = k.serve m pid path' := by
  cases k with
  | create => simp only [PathCall.serve, serve, create, h]
  | openFile => simp only [PathCall.serve, serve, openFile, h]
  | unlink | chdir | mkdir | rmdir => simp only [PathCall.serve, serve, onPath, h]

theorem serve_path_of_none (h : m.resolve pid path = none) (k : PathCall) :
    k.serve m pid path = (m, .answer (-1)) := by
  cases k with
  | create => simp only [PathCall.serve, serve, create, h]
  | openFile => simp only [PathCall.serve, serve, openFile, h]
  | unlink | chdir | mkdir | rmdir => simp only [PathCall.serve, serve, onPath, h]

/-- What a call does with a path, it does with the canonical path. -/
theorem serve_path_of_some {canonical : String} (h : m.resolve pid path = some canonical)
    (hc : Path.Canonical canonical) (k : PathCall) :
    k.serve m pid path = k.serve m pid canonical := by
  obtain ⟨p, hp, -⟩ := Option.bind_eq_some_iff.mp h
  refine serve_path_congr ?_ k
  rw [h, resolve, hp]
  exact (hc.resolve p.cwd).symm

theorem cwd_of_touches {p p' : ProcessState} {a : c.Answer} (hc : ∀ path, c ≠ .chdir path)
    (h : c.Touches p p' a) : p'.cwd = p.cwd := by
  cases c with
  | create | openFile => rcases h with ⟨-, rfl⟩ | ⟨-, -, o, ds, rfl, -⟩ <;> rfl
  | read | write => rcases h with rfl | ⟨d, n, ds, -, rfl, -⟩ <;> rfl
  | close fd => rcases h with ⟨-, rfl⟩ | ⟨-, -, ds, rfl, -⟩ <;> rfl
  | chdir path => exact absurd rfl (hc path)
  | _ =>
    obtain rfl : p' = p := h
    rfl

theorem Takes.chdir {a : Word} (h : m.Takes pid (.answered (.chdir path) a) m') :
    a ≠ 0 ∧ m'.processes = m.processes ∨
      a = 0 ∧ ∃ place, m.resolve pid path = some place ∧
        m'.processes = m.processes.modify pid fun p => { p with cwd := place } := by
  cases h with
  | answered _ _ _ hs =>
    rw [setTask_processes]
    have hserved := served_of_serve hs
    generalize hr : Reaction.answer a = r at hserved
    cases hserved with
    | refused _ =>
      cases hr
      exact Or.inl ⟨show (-1 : Word) ≠ 0 by decide, rfl⟩
    | moved hplace _ =>
      cases hr
      exact Or.inr ⟨rfl, _, hplace, rfl⟩

theorem Takes.cwd (h : m.Takes pid what m') (hm : m.Fitting) (ha : m.alive pid = true)
    (hstays : ¬ what.Moves) : ∃ p p', m.processes.get? pid = some p ∧
      m'.processes.get? pid = some p' ∧ p'.cwd = p.cwd := by
  obtain ⟨-, p, p', hp, hp', htouches⟩ := h.isolated hm ha
  refine ⟨p, p', hp, hp', ?_⟩
  cases what with
  | noted n => exact congrArg ProcessState.cwd htouches
  | ended how =>
    obtain rfl := htouches
    rfl
  | answered c a =>
    by_cases hc : ∃ path, c = .chdir path
    · obtain ⟨path, rfl⟩ := hc
      rcases h.chdir with ⟨-, hsame⟩ | ⟨rfl, -⟩
      · rw [hsame, hp] at hp'
        rw [Option.some.inj hp']
      · exact absurd ⟨path, rfl⟩ hstays
    · exact cwd_of_touches (fun path he => hc ⟨path, he⟩) htouches

structure Stationed (m : Machine) (q : Int) (place : String) : Prop where
  taken : q ≤ m.processes.slots.length
  cwd : ∀ p, m.processes.get? q = some p → p.cwd = place

theorem Stationed.takes (h : m.Stationed q place) (hm : m.Fitting) (ha : m.alive pid = true)
    (ht : m.Takes pid what m') (hstays : pid = q → ¬ what.Moves) : m'.Stationed q place := by
  have hi := ht.isolated hm ha
  have hlength := hi.length_le
  have htaken := h.taken
  refine ⟨by omega, fun p hp => ?_⟩
  by_cases hq : q = pid
  · subst hq
    obtain ⟨p₀, p', hp₀, hp', hcwd⟩ := ht.cwd hm ha (hstays rfl)
    obtain rfl := Option.some.inj (hp.symm.trans hp')
    rw [hcwd]
    exact h.cwd p₀ hp₀
  · rcases hi.others.entry hq hp with hold | ⟨hnew, -⟩
    · exact h.cwd p hold
    · omega

theorem Stationed.run (h : m.Stationed q place) (hm : m.Fitting) (hr : m.Run log m')
    (hstays : ∀ what, ⟨q, what⟩ ∈ log → ¬ what.Moves) : m'.Stationed q place := by
  induction hr with
  | start => exact h
  | step hr ha ht ih =>
    refine (ih fun what hw => hstays what (List.mem_append_left _ hw)).takes
      (fitting_invariant.run hm hr) ha ht ?_
    rintro rfl
    exact hstays _ (List.mem_append_right _ (List.mem_singleton.mpr rfl))
  | halt _ ih =>
    obtain ⟨htaken, hcwd⟩ := ih hstays
    exact ⟨htaken, hcwd⟩

theorem Stationed.resolve (h : m.Stationed q place) (ha : m.alive q = true) (path : String) :
    m.resolve q path = Path.resolve path place := by
  obtain ⟨p, hp, -⟩ := (alive_iff m q).mp ha
  rw [Machine.resolve, hp, Option.bind_some, h.cwd p hp]

/-- Who has gone along a path is where it leads. -/
theorem Takes.stationed (ht : m.Takes pid (.answered (.chdir path) (0 : Word)) m')
    (ha : m.alive pid = true) :
    ∃ place, m.resolve pid path = some place ∧ m'.Stationed pid place := by
  obtain ⟨p, hp, -⟩ := (alive_iff m pid).mp ha
  rcases ht.chdir with ⟨hne, -⟩ | ⟨-, place, hplace, hmoved⟩
  · exact absurd rfl hne
  · refine ⟨place, hplace, ?_, fun p' hp' => ?_⟩
    · rw [hmoved, ProcessTable.length_modify]
      exact (ProcessTable.le_length_of_get? hp).2
    · rw [hmoved, ProcessTable.get?_modify, if_pos rfl, hp] at hp'
      obtain rfl := Option.some.inj hp'
      rfl

/-- What a process that has gone along `a` makes of a relative path. -/
structure Finds (m n : Machine) (pid : Pid) (a b : String) : Prop where
  resolve : n.resolve pid b = m.resolve pid (a ++ "/" ++ b)
  /-- Every call acts on what the longer path resolved to before, or is refused. -/
  serve : ∀ k : PathCall, k.serve n pid b = match m.resolve pid (a ++ "/" ++ b) with
    | none => (n, .answer (-1))
    | some canonical => k.serve n pid canonical

/-- Resolving in two hops is resolving in one, for paths and for processes that go there first. -/
theorem hops_in_one :
    (∀ a b cwd : String, (a = "/" ∨ ∃ c ∈ a.toList, c ≠ '/') → b.toList.head? ≠ some '/' →
      Path.resolve (a ++ "/" ++ b) cwd = (Path.resolve a cwd).bind fun c => Path.resolve b c) ∧
    ∀ (m m' n : Machine) (pid : Pid) (a b : String) (log : List Event), m.Reachable →
      m.alive pid = true → m.Takes pid (.answered (.chdir a) (0 : Word)) m' → m'.Run log n →
      (∀ what, ⟨pid, what⟩ ∈ log → ¬ what.Moves) → n.alive pid = true →
      b.toList.head? ≠ some '/' → m.Finds n pid a b := by
  have hrelative : ∀ b : String, b.toList.head? ≠ some '/' → Path.isAbsolute b = false :=
    fun b hb => decide_eq_false hb
  refine ⟨fun a b cwd ha hb => Path.resolve_joined ha (hrelative b hb) cwd, ?_⟩
  intro m m' n pid a b log hm ha ht hr hstays halive hb
  obtain ⟨place, hplace, hstationed⟩ := ht.stationed ha
  have hm' : m'.Reachable := hm.run (.step .start ha ht)
  have hthere := (hstationed.run (fitting_invariant.reachable hm') hr hstays).resolve halive b
  have hresolve : n.resolve pid b = m.resolve pid (a ++ "/" ++ b) := by
    obtain ⟨p, hp, -⟩ := (alive_iff m pid).mp ha
    rw [Machine.resolve, hp, Option.bind_some] at hplace
    rw [hthere, Machine.resolve, hp, Option.bind_some, Path.resolve_joined (Path.root_or_named_of_resolve hplace) (hrelative b hb),
      hplace, Option.bind_some]
  refine ⟨hresolve, fun k => ?_⟩
  rw [← hresolve]
  cases hc : n.resolve pid b with
  | none => exact serve_path_of_none hc k
  | some canonical =>
    have hhoused := housed_invariant.reachable (hm'.run hr)
    exact serve_path_of_some hc (hhoused.resolve halive hc) k

theorem mover_takes : ∃ m m' n : Machine,
    mover.Takes 1 (.answered (.mkdir "/a") (0 : Word)) m ∧ m.alive 1 = true ∧
    m.Takes 1 (.answered (.chdir "a/./../a") (0 : Word)) m' ∧ m'.alive 1 = true ∧
    m'.Takes 1 (.answered (.rmdir "../a") (-1 : Word)) n ∧ n.alive 1 = true ∧
    n.resolve 1 "../b" = some "/b" :=
  ⟨_, _, _, .answered rfl rfl rfl rfl, rfl, .answered rfl rfl rfl rfl, rfl,
    .answered rfl rfl rfl rfl, rfl, rfl⟩

theorem hops_in_one_mover : ∃ m m' n : Machine, m.Reachable ∧
    m.Takes 1 (.answered (.chdir "a/./../a") (0 : Word)) m' ∧
    m'.Run [⟨1, .answered (.rmdir "../a") (-1 : Word)⟩] n ∧ n.alive 1 = true ∧
    m.Finds n 1 "a/./../a" "../b" ∧ n.resolve 1 "../b" = some "/b" ∧
    Path.resolve ("x/../a" ++ "/" ++ "..") "/./.." =
      (Path.resolve "x/../a" "/./..").bind fun c => Path.resolve ".." c := by
  obtain ⟨m, m', n, hfirst, ha, ht, ha', hlast, halive, hb⟩ := mover_takes
  have hmover : mover.Reachable := .boot "p" [] (.build (.register "p" _ .empty))
  have hm : m.Reachable := hmover.run (.step .start rfl hfirst)
  have hr : m'.Run [⟨1, .answered (.rmdir "../a") (-1 : Word)⟩] n := .step .start ha' hlast
  refine ⟨m, m', n, hm, ht, hr, halive, ?_, hb, ?_⟩
  · refine hops_in_one.2 m m' n 1 _ _ _ hm ha ht hr ?_ halive (by decide)
    rintro what hw ⟨path, rfl⟩
    cases List.mem_singleton.mp hw
  · exact hops_in_one.1 _ _ _ (Or.inr ⟨'x', by decide, by decide⟩) (by decide)

end Machine

end KernelExam

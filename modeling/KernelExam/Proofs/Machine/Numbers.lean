import KernelExam.Proofs.Machine.Isolation

/-!
# Which numbers descriptors get

The numbers that a process is given, and whether it can give one back, follow from what
it asked for, from whether there was a file each time, and from nothing else: no other
process has a part in them.
-/

set_option autoImplicit false

namespace KernelExam

/-- What a process asks of its descriptor table. -/
inductive Demand where
  | take (found : Bool)
  | give (fd : Word)
  deriving DecidableEq, Repr

namespace Demand

def serve (taken : Finset Nat) : Demand → Finset Nat × Word
  | .take false => (taken, -1)
  | .take true => match DescriptorTable.lowest taken with
    | some n => (taken ∪ {n}, Int32.ofNat n)
    | none => (taken, -1)
  | .give fd => match DescriptorTable.place? fd with
    | some n => if n ∈ taken then (taken.erase n, 0) else (taken, -1)
    | none => (taken, -1)

def serveAll (taken : Finset Nat) (demands : List Demand) : Finset Nat × List Word :=
  demands.foldl (fun s d => ((d.serve s.1).1, s.2 ++ [(d.serve s.1).2])) (taken, [])

theorem serveAll_concat (taken : Finset Nat) (demands : List Demand) (d : Demand) :
    serveAll taken (demands ++ [d]) =
      ((d.serve (serveAll taken demands).1).1,
        (serveAll taken demands).2 ++ [(d.serve (serveAll taken demands).1).2]) := by
  simp [serveAll]

section Serve

variable {t t' : DescriptorTable} (h : t.Fits)

theorem serve_take_of_full {taken : Finset Nat} (hfull : DescriptorTable.lowest taken = none)
    (found : Bool) : (take found).serve taken = (taken, -1) := by
  cases found with
  | true => simp only [serve, hfull]
  | false => rfl

include h

theorem serve_take_of_insert {d : Descriptor} {n : Nat} (hi : t.insert d = some (t', n)) :
    (take true).serve t.taken = (t'.taken, Int32.ofNat n) := by
  have hlow : DescriptorTable.lowest t.taken = some n := by
    rw [DescriptorTable.lowest_taken h, DescriptorTable.free?_of_insert hi]
  simp only [serve, hlow, DescriptorTable.taken_insert h hi]

theorem serve_give_of_some {fd : Word} {d : Descriptor} (hd : t.get? fd = some d) :
    (give fd).serve t.taken = ((t.set fd none).taken, 0) := by
  obtain ⟨n, hn, hat⟩ := Option.bind_eq_some_iff.mp hd
  have hmem : n ∈ t.taken := (DescriptorTable.mem_taken h n).mpr (hat ▸ rfl)
  simp only [serve, hn, if_pos hmem, DescriptorTable.taken_set_none h hn hd]

theorem serve_give_of_none {fd : Word} (hd : t.get? fd = none) :
    (give fd).serve t.taken = (t.taken, -1) := by
  cases hn : DescriptorTable.place? fd with
  | none => simp only [serve, hn]
  | some n =>
    rw [DescriptorTable.get?, hn, Option.bind_some] at hd
    have hmem : n ∉ t.taken := by
      rw [DescriptorTable.mem_taken h, hd]
      exact Bool.false_ne_true
    simp only [serve, hn, if_neg hmem]

end Serve

end Demand

namespace Machine

def reaches (m : Machine) (pid : Pid) (path : String)
    (operation : String → Except FileError Nat) : Bool :=
  match m.resolve pid path with
  | some q => (operation q).isOk
  | none => false

def demand? (m : Machine) (pid : Pid) : Call → Option Demand
  | .create path => some (.take (m.reaches pid path fun q => (m.files.create q).2))
  | .openFile path => some (.take (m.reaches pid path m.files.openFile))
  | .close fd => some (.give fd)
  | _ => none

def exchange (pid : Pid) (m : Machine) (e : Event) : List (Demand × Word) :=
  match e.what with
  | .answered c a => if e.pid = pid then ((m.demand? pid c).map fun d => (d, c.code a)).toList else []
  | .noted _ => []
  | .ended _ => []

/-- The numbers that name an open descriptor of a process. A process still to come will start
with the two of the console. -/
def held (m : Machine) (pid : Pid) : Finset Nat :=
  (((m.processes.get? pid).map ProcessState.descriptors).getD .stdio).taken

theorem held_of_get? {m : Machine} {pid : Pid} {p : ProcessState}
    (h : m.processes.get? pid = some p) : m.held pid = p.descriptors.taken := by
  rw [held, h]
  rfl

/-- A process that is alive or still to come. -/
def Coming (m : Machine) (pid : Int) : Prop :=
  m.alive pid = true ∨ (m.processes.slots.length : Int) < pid

variable {m m' : Machine} {pid : Pid} {c : Call}

theorem lowest_of_crowded {p : ProcessState} (hp : m.processes.get? pid = some p)
    (hf : p.descriptors.Fits) (h : m.Crowded pid) :
    DescriptorTable.lowest p.descriptors.taken = none := by
  rw [DescriptorTable.lowest_taken hf]
  exact h p hp

theorem reaches_of_resolve {path q : String} (hq : m.resolve pid path = some q)
    (operation : String → Except FileError Nat) :
    m.reaches pid path operation = (operation q).isOk := by
  simp only [reaches, hq]

theorem reaches_of_error {path : String} {operation : String → Except FileError Nat}
    (h : ∀ q, m.resolve pid path = some q → ∃ e, operation q = .error e) :
    m.reaches pid path operation = false := by
  cases hq : m.resolve pid path with
  | none => simp only [reaches, hq]
  | some q =>
    obtain ⟨e, he⟩ := h q hq
    rw [reaches_of_resolve hq, he]
    rfl

theorem reaches_of_refuses {path : String} (h : m.Refuses pid (.openFile path)) :
    m.reaches pid path m.files.openFile = false ∨ m.Crowded pid := by
  by_cases hfull : m.Crowded pid
  · exact Or.inr hfull
  · refine Or.inl (reaches_of_error fun q hq => ?_)
    cases ho : m.files.openFile q with
    | error e => exact ⟨e, rfl⟩
    | ok o => exact absurd (h q o hq ho) hfull

theorem held_withDescriptors {p : ProcessState} (hp : m.processes.get? pid = some p)
    (ds : DescriptorTable) : (m.withDescriptors pid ds).held pid = ds.taken :=
  held_of_get? (get?_withDescriptors hp ds)

theorem Served.demand {p : ProcessState} (hf : p.descriptors.Fits)
    (hp : m.processes.get? pid = some p) {a : c.Answer} (h : m.Served pid c m' (.answer a))
    {d : Demand} (hd : m.demand? pid c = some d) :
    d.serve p.descriptors.taken = (m'.held pid, c.code a) := by
  generalize hr : Reaction.answer a = r at h
  cases h with
  | refused hrefuses =>
    cases hr
    rw [held_of_get? hp]
    cases c with
    | create path =>
      obtain rfl := Option.some.inj hd
      rw [reaches_of_error hrefuses]
      rfl
    | openFile path =>
      obtain rfl := Option.some.inj hd
      rcases reaches_of_refuses hrefuses with hnone | hfull
      · rw [hnone]
        rfl
      · exact Demand.serve_take_of_full (lowest_of_crowded hp hf hfull) _
    | close fd =>
      obtain rfl := Option.some.inj hd
      exact Demand.serve_give_of_none hf ((descriptor?_eq_get? hp fd).symm.trans hrefuses)
    | _ => cases hd
  | created hq hcreate hp' hi =>
    cases hr
    obtain rfl := Option.some.inj (hp.symm.trans hp')
    obtain rfl := Option.some.inj hd
    rw [reaches_of_resolve hq, hcreate, held_withDescriptors (by exact hp)]
    exact Demand.serve_take_of_insert hf hi
  | createdInVain hq hcreate hfull =>
    cases hr
    obtain rfl := Option.some.inj hd
    rw [held_of_get? (by exact hp)]
    exact Demand.serve_take_of_full (lowest_of_crowded hp hf hfull) _
  | opened hq hopen hp' hi =>
    cases hr
    obtain rfl := Option.some.inj (hp.symm.trans hp')
    obtain rfl := Option.some.inj hd
    rw [reaches_of_resolve hq, hopen, held_withDescriptors hp]
    exact Demand.serve_take_of_insert hf hi
  | closed hp' hget =>
    cases hr
    obtain rfl := Option.some.inj (hp.symm.trans hp')
    obtain rfl := Option.some.inj hd
    rw [held_withDescriptors hp]
    exact Demand.serve_give_of_some hf hget
  | _ => cases hd

theorem taken_of_seeks {p p' : ProcessState} {fd : Word} (h : p.Seeks fd p') :
    p'.descriptors.taken = p.descriptors.taken := by
  rcases h with rfl | ⟨d, n, ds, hget, rfl, hds⟩
  · rfl
  · refine DescriptorTable.taken_congr fun fd' => ?_
    rw [hds]
    split
    · rename_i hfd
      rw [hfd, hget]
      rfl
    · rfl

theorem taken_of_touches {p p' : ProcessState} {a : c.Answer} (h : c.Touches p p' a)
    (hd : m.demand? pid c = none) : p'.descriptors.taken = p.descriptors.taken := by
  cases c with
  | create _ | openFile _ | close _ => cases hd
  | read _ _ | write _ _ => exact taken_of_seeks h
  | chdir _ =>
    obtain ⟨cwd, rfl⟩ := h
    rfl
  | _ =>
    obtain rfl : p' = p := h
    rfl

theorem held_congr (h : m'.processes.get? pid = m.processes.get? pid) :
    m'.held pid = m.held pid := by
  rw [held, held, h]

theorem coming_congr (h : m'.processes.get? pid = m.processes.get? pid)
    (hlength : m.processes.slots.length ≤ m'.processes.slots.length) (hc : m'.Coming pid) :
    m.Coming pid := by
  rcases hc with ha | hlt
  · rw [alive, h] at ha
    exact Or.inl ha
  · exact Or.inr (by omega)

theorem not_coming_of_ended {p : ProcessState} (hp : m.processes.get? pid = some p)
    (hend : p.termination.isSome) : ¬ m.Coming pid := by
  rintro (ha | hlt)
  · obtain ⟨p', hp', hnone⟩ := (alive_iff m pid).mp ha
    obtain rfl := Option.some.inj (hp.symm.trans hp')
    rw [hnone] at hend
    cases hend
  · have hle := (ProcessTable.le_length_of_get? hp).2
    omega

theorem Spread.coming {q : Pid} {what : Happening} (h : m.Spread q what m') (hq : pid ≠ q)
    (hc : m'.Coming pid) : m.Coming pid ∧ m'.held pid = m.held pid := by
  have hsame (hget : m'.processes.get? pid = m.processes.get? pid)
      (hlength : m.processes.slots.length ≤ m'.processes.slots.length) :
      m.Coming pid ∧ m'.held pid = m.held pid := ⟨coming_congr hget hlength hc, held_congr hget⟩
  have hadmits (child : Pid) (hin : m.processes.Admits q child m'.processes) :
      m.Coming pid ∧ m'.held pid = m.held pid := by
    by_cases hchild : pid = child
    · subst hchild
      obtain ⟨p, -, hnew⟩ := hin.entered
      refine ⟨Or.inr hin.lt, ?_⟩
      rw [held_of_get? hnew, held, hin.fresh]
      rfl
    · exact hsame (hin.others pid hq hchild) (by rw [hin.length]; omega)
  cases h with
  | within _ _ hw => exact hsame (hw.others pid hq) (le_of_eq hw.length.symm)
  | @started _ _ child _ hin => exact hadmits child hin
  | abandoned _ _ hin => exact hadmits _ hin
  | @joined child _ _ _ _ hout =>
    by_cases hchild : pid = child.toInt
    · subst hchild
      obtain ⟨p, how, hp, -, -⟩ := hout.ended
      have hle : child.toInt ≤ m.processes.slots.length := (ProcessTable.le_length_of_get? hp).2
      rcases hc with ha | hlt
      · rw [alive, hout.gone] at ha
        cases ha
      · rw [hout.length] at hlt
        omega
    · exact hsame (hout.others pid hchild) (le_of_eq hout.length.symm)

/-- The demand that a process makes with a step is answered from its own numbers. -/
theorem Takes.exchange (pid : Pid) {q : Pid} {what : Happening} (hm : m.Fitting) (ha : m.alive q = true)
    (h : m.Takes q what m') :
    m.exchange pid ⟨q, what⟩ = [] ∧
        (m'.Coming pid → m.Coming pid ∧ m'.held pid = m.held pid) ∨
      ∃ d a, m.exchange pid ⟨q, what⟩ = [(d, a)] ∧ m.Coming pid ∧
        d.serve (m.held pid) = (m'.held pid, a) := by
  have hi := h.isolated hm ha
  by_cases hq : pid = q
  · subst hq
    obtain ⟨p, p', hp, hp', htouches⟩ := hi.own
    cases h with
    | @answered t c next m₁ a ht hb hh hs =>
      cases hd : m.demand? pid c with
      | none =>
        refine Or.inl ⟨by simp [Machine.exchange, hd], fun _ => ⟨Or.inl ha, ?_⟩⟩
        rw [held_of_get? hp, held_of_get? hp']
        exact taken_of_touches htouches hd
      | some d =>
        refine Or.inr ⟨d, c.code a, by simp [Machine.exchange, hd], Or.inl ha, ?_⟩
        rw [held_of_get? hp, (served_of_serve hs).demand (hm pid p hp) hp hd]
        exact congrArg (·, c.code a) (held_congr (by rw [setTask_processes])).symm
    | noted _ _ =>
      exact Or.inl ⟨rfl, fun _ => ⟨Or.inl ha, held_congr (by rw [setTask_processes])⟩⟩
    | done | exit | crash | halted | faulted =>
      obtain rfl := htouches
      exact Or.inl ⟨rfl, fun hc => absurd hc (not_coming_of_ended hp' rfl)⟩
  · refine Or.inl ⟨?_, hi.others.coming hq⟩
    cases what with
    | answered c a => exact if_neg (Ne.symm hq)
    | noted | ended => rfl

theorem Chronicle.numbers {start : Machine} {log : List Event} {exchanges : List (Demand × Word)}
    (hstart : start.Reachable) (h : Chronicle (Machine.exchange pid) start log exchanges m) :
    exchanges.map Prod.snd =
        (Demand.serveAll (start.held pid) (exchanges.map Prod.fst)).2 ∧
      (m.Coming pid →
        m.held pid = (Demand.serveAll (start.held pid) (exchanges.map Prod.fst)).1) := by
  induction h with
  | start => exact ⟨rfl, fun _ => rfl⟩
  | halt _ ih => exact ih
  | step hc ha ht ih =>
    obtain ⟨hanswers, hheld⟩ := ih
    have hfit := fitting_invariant.reachable (hstart.run hc.run)
    rcases ht.exchange pid hfit ha with ⟨hnone, hback⟩ | ⟨d, a, hone, hcoming, hserve⟩
    · rw [hnone, List.append_nil]
      refine ⟨hanswers, fun hc' => ?_⟩
      obtain ⟨hcoming, hsame⟩ := hback hc'
      rw [hsame, hheld hcoming]
    · rw [hone, List.map_append, List.map_append, List.map_singleton, List.map_singleton,
        Demand.serveAll_concat, ← hheld hcoming, hserve, hanswers]
      exact ⟨rfl, fun _ => rfl⟩

/-- Processes are isolated from each other, and the numbers of a process's descriptors
follow from its own demands. -/
theorem processes_isolated {m : Machine} (hm : m.Reachable) :
    (∀ pid what m', m.alive pid = true → m.Takes pid what m' → m.Isolated pid what m') ∧
    ∀ pid log m', m.Run log m' →
      (∃ exchanges, Chronicle (exchange pid) m log exchanges m') ∧
      ∀ exchanges, Chronicle (exchange pid) m log exchanges m' →
        exchanges.map Prod.snd = (Demand.serveAll (m.held pid) (exchanges.map Prod.fst)).2 :=
  ⟨fun _ _ _ ha ht => ht.isolated (fitting_invariant.reachable hm) ha,
    fun pid _ _ hr => ⟨hr.exists_chronicle (exchange pid), fun _ hc => (hc.numbers hm).1⟩⟩

def neighbours : Machine := ((Plan.empty.register "p" fun _ args =>
  if args = [] then
    .call (.create "/a") fun _ => .call (.exec "p" ["child"]) fun _ => .call (.close 2) fun _ => .done ()
  else
    .call (.create "/b") fun _ => .call (.openFile "/c") fun _ => .done ()).build.boot "p" []).1

def neighboursLog : List Event :=
  [⟨1, .answered (.create "/a") (2 : Word)⟩, ⟨1, .answered (.exec "p" ["child"]) (2 : Word)⟩,
    ⟨2, .answered (.create "/b") (2 : Word)⟩, ⟨1, .answered (.close 2) (0 : Word)⟩,
    ⟨2, .answered (.openFile "/c") (-1 : Word)⟩]

theorem neighbours_chronicle : ∃ exchanges m',
    Chronicle (exchange 2) neighbours neighboursLog exchanges m' ∧
      exchanges = [(.take true, 2), (.take false, -1)] := by
  refine ⟨_, _, .step (.step (.step (.step (.step .start rfl (.answered rfl rfl rfl rfl)) rfl
    (.answered rfl rfl rfl rfl)) rfl (.answered rfl rfl rfl rfl)) rfl (.answered rfl rfl rfl rfl))
    rfl (.answered rfl rfl rfl rfl), ?_⟩
  rfl

theorem processes_isolated_neighbours : ∃ m',
    neighbours.Takes 1 (.answered (.create "/a") (2 : Word)) m' ∧
    neighbours.Isolated 1 (.answered (.create "/a") (2 : Word)) m' ∧
    (Demand.serveAll (neighbours.held 2) [.take true, .take false]).2 = [2, -1] := by
  have hm : neighbours.Reachable := .boot "p" [] (.build (.register "p" _ .empty))
  obtain ⟨hisolated, hnumbers⟩ := processes_isolated hm
  obtain ⟨exchanges, m', hc, rfl⟩ := neighbours_chronicle
  obtain ⟨m₁, ht⟩ : ∃ m₁, neighbours.Takes 1 (.answered (.create "/a") (2 : Word)) m₁ :=
    ⟨_, .answered rfl rfl rfl rfl⟩
  exact ⟨m₁, ht, hisolated 1 _ m₁ rfl ht, ((hnumbers 2 _ m' hc.run).2 _ hc).symm⟩

end Machine

end KernelExam

import KernelExam.Proofs.Registration.Conduct
import KernelExam.Proofs.Slots.Packing

/-!
# Reading slots in a process

What a process loads from a run of slots is one word after the other, whatever the others
do meanwhile, as long as nobody stores there. The text that it makes of the words is the
one that the referee reads in the same slots.
-/

set_option autoImplicit false

namespace KernelExam

namespace Program

variable {α β : Type}

theorem replay_append {x : Program α} {f : α → Program β} {first rest : List Reply} {a : α} {b : β}
    (hx : x.replay first = some a) (hf : (f a).replay rest = some b) :
    (x.bind f).replay (first ++ rest) = some b := by
  induction x generalizing first with
  | done a' =>
    obtain ⟨rfl, rfl⟩ := replay_done hx
    exact hf
  | exit status => simp [replay] at hx
  | crash => simp [replay] at hx
  | note n next ih => exact ih hx
  | call c next ih =>
    obtain ⟨reply, rest', rfl, hrest⟩ := replay_call hx
    rw [List.cons_append, Program.bind, replay, dif_pos rfl]
    exact ih reply hrest

end Program

def loads (i : Word) : List Word → List Reply
  | [] => []
  | w :: ws => ⟨.ask Request.loadWord.code i 0, w⟩ :: loads (i + 1) ws

theorem mem_loads {i : Word} {ws : List Word} {r : Reply} (h : r ∈ loads i ws) :
    ∃ k < ws.length, ∃ w : Word, r = ⟨.ask Request.loadWord.code (i + Int32.ofNat k) 0, w⟩ := by
  induction ws generalizing i with
  | nil => cases h
  | cons w ws ih =>
    rcases List.mem_cons.mp h with rfl | h
    · refine ⟨0, Nat.succ_pos _, w, ?_⟩
      rw [show Int32.ofNat 0 = 0 from rfl, Int32.add_zero]
    · obtain ⟨k, hk, w', rfl⟩ := ih h
      exact ⟨k + 1, Nat.succ_lt_succ hk, w', by rw [add_one_add_ofNat]⟩

theorem eq_loadRun {r : Referee} {i : Word} {ws : List Word}
    (h : ∀ (j w : Word), ⟨.ask Request.loadWord.code j 0, w⟩ ∈ loads i ws → w = r.load j) :
    ws = r.loadRun i ws.length := by
  induction ws generalizing i with
  | nil => rfl
  | cons w ws ih =>
    have hfirst := h i w (List.mem_cons_self ..)
    have hrest := ih (i := i + 1) fun j w' hj => h j w' (List.mem_cons_of_mem _ hj)
    rw [List.length_cons, Referee.loadRun, ← hfirst, ← hrest]

namespace Session

open Program

theorem loadRun_succ (i : Word) (n : Nat) : loadRun i (n + 1) =
    .call (.ask Request.loadWord.code i 0) fun w => (loadRun (i + 1) n).bind fun ws =>
      .done (w :: ws) := rfl

theorem replay_loadRun_iff (i : Word) (n : Nat) (replies : List Reply) (ws : List Word) :
    (loadRun i n).replay replies = some ws ↔ ws.length = n ∧ replies = loads i ws := by
  constructor
  · intro h
    induction n generalizing i replies ws with
    | zero =>
      obtain ⟨rfl, rfl⟩ := replay_done h
      exact ⟨rfl, rfl⟩
    | succ n ih =>
      rw [loadRun_succ] at h
      obtain ⟨w, _, rfl, hnext⟩ := replay_call h
      obtain ⟨first, rest, ws', rfl, hrun, hend⟩ := replay_bind hnext
      obtain ⟨rfl, rfl⟩ := replay_done hend
      obtain ⟨rfl, rfl⟩ := ih _ _ _ hrun
      exact ⟨rfl, by rw [loads, List.append_nil]⟩
  · rintro ⟨rfl, rfl⟩
    induction ws generalizing i with
    | nil => rfl
    | cons w ws ih =>
      rw [List.length_cons, loadRun_succ, loads, replay, dif_pos rfl]
      have hdone : (Program.done (w :: ws)).replay [] = some (w :: ws) := rfl
      have happend := replay_append (f := fun ws => .done (w :: ws)) (ih (i + 1)) hdone
      rwa [List.append_nil] at happend

def reading {α : Type} (i : Word) (n : Nat) (f : List Word → α) : Program α :=
  (loadRun i n).bind fun ws => .done (f ws)

theorem replay_reading_iff {α : Type} (i : Word) (n : Nat) (f : List Word → α)
    (replies : List Reply) (a : α) : (reading i n f).replay replies = some a ↔
      ∃ ws, ws.length = n ∧ replies = loads i ws ∧ a = f ws := by
  constructor
  · intro h
    obtain ⟨first, rest, ws, rfl, hrun, hend⟩ := replay_bind h
    obtain ⟨rfl, rfl⟩ := replay_done hend
    obtain ⟨hlength, rfl⟩ := (replay_loadRun_iff ..).mp hrun
    exact ⟨ws, hlength, by rw [List.append_nil], rfl⟩
  · rintro ⟨ws, rfl, rfl, rfl⟩
    have hrun := (replay_loadRun_iff i ws.length (loads i ws) ws).mpr ⟨rfl, rfl⟩
    have hdone : (Program.done (f ws)).replay [] = some (f ws) := rfl
    have happend := replay_append (f := fun ws => .done (f ws)) hrun hdone
    rwa [List.append_nil] at happend

theorem length_flatMap_bytesOfWord (ws : List Word) :
    (ws.flatMap bytesOfWord).length = 4 * ws.length := by
  induction ws with
  | nil => rfl
  | cons w ws ih =>
    rw [List.flatMap_cons, List.length_append, ih, length_bytesOfWord, List.length_cons]
    omega

theorem unpack_eq_take {ws : List Word} {buffer : Bytes} (h : buffer.length ≤ 4 * ws.length) :
    unpack ws buffer = (ws.flatMap bytesOfWord).take buffer.length := by
  rw [unpack, overlay, List.drop_eq_nil_of_le, List.append_nil]
  rwa [length_flatMap_bytesOfWord]

theorem loadWords_eq_reading {slot : Slot} {buffer : Bytes}
    (h : (buffer.length + 3) / 4 < 2147483648)
    (hlast : slot.index.toInt + ((buffer.length + 3) / 4 : Nat) ≤ 2147483648) :
    loadWords slot buffer =
      reading slot.index ((buffer.length + 3) / 4) fun ws => unpack ws buffer :=
  loadWords_eq h hlast

theorem stringArgument_eq_reading (slot : Slot) {n : Nat}
    (h : slot.index.toInt + n ≤ 2147483647) :
    stringArgument slot n =
      reading slot.index n fun ws => Text.lossy (untilNul (unpack ws (zeros (4 * n)))) := by
  have hlow := slot.toInt_index.1
  have hlength : (zeros (4 * n)).length = 4 * n := List.length_replicate
  have hcount : ((zeros (4 * n)).length + 3) / 4 = n := by
    rw [hlength]
    omega
  have hroom : 4 * n < bufferLimit := by
    rw [bufferLimit]
    omega
  rw [stringArgument, Referee.checkRoom_ok hroom]
  show (loadWords slot (zeros (4 * n))).bind _ = _
  rw [loadWords_eq_reading (by omega) (by omega), hcount, reading, Program.bind_assoc]
  rfl

end Session

def Happening.storesTo? : Happening → Option Word
  | .answered (.ask request a0 _) _ => if request = Request.storeWord.code then some a0 else none
  | _ => none

/-- No word is stored in the `n` slots from slot `first` on. -/
def Undisturbed (log : List Event) (first : Word) (n : Nat) : Prop :=
  ∀ e ∈ log, ∀ k < n, e.what.storesTo? ≠ some (first + Int32.ofNat k)

instance (log : List Event) (first : Word) (n : Nat) : Decidable (Undisturbed log first n) :=
  inferInstanceAs (Decidable (∀ e ∈ log, ∀ k < n, _))

def Reply.event (pid : Pid) (r : Reply) : Event := ⟨pid, .answered r.call r.answer⟩

theorem repliesTo_map_event (pid : Pid) (replies : List Reply) :
    repliesTo pid (replies.map (Reply.event pid)) = replies := by
  rw [repliesTo, List.filterMap_map]
  refine (List.filterMap_congr fun r _ => ?_).trans List.filterMap_some
  exact (Event.replyTo?_eq_some_iff pid _ r).mpr rfl

theorem undisturbed_loads (pid : Pid) (i : Word) (ws : List Word) (first : Word) (n : Nat) :
    Undisturbed ((loads i ws).map (Reply.event pid)) first n := by
  intro e he k _
  obtain ⟨r, hr, rfl⟩ := List.mem_map.mp he
  obtain ⟨j, -, w, rfl⟩ := mem_loads hr
  nofun

namespace Machine

variable {m m' : Machine} {pid : Pid}

theorem Asked.load {request a0 a1 i : Word} {r : Reaction Word}
    (h : m.Asked pid request a0 a1 m' r)
    (hstore : request = Request.storeWord.code → a0 ≠ i) :
    m'.referee.load i = m.referee.load i := by
  cases h with
  | unknown | taken | waits | released | overfull | loaded | marked | sought => rfl
  | stored => exact if_neg (Ne.symm (hstore rfl))
  | reported o r _ => exact congrFun (m.report_referee o pid).1 i

theorem Served.load {c : Call} {i : Word} {r : Reaction c.Answer} (h : m.Served pid c m' r)
    (hstore : ∀ value, c ≠ .ask Request.storeWord.code i value) :
    m'.referee.load i = m.referee.load i := by
  cases h with
  | asked ha =>
    refine ha.load ?_
    rintro rfl rfl
    exact hstore _ rfl
  | _ => rfl

theorem Takes.load {what : Happening} {i : Word} (ht : m.Takes pid what m')
    (hstore : what.storesTo? ≠ some i) : m'.referee.load i = m.referee.load i := by
  cases ht with
  | answered _ _ _ hs =>
    rw [setTask_referee]
    refine (served_of_serve hs).load ?_
    rintro value rfl
    exact hstore rfl
  | noted => rw [setTask_referee]
  | done | exit | crash | halted => rfl
  | @faulted t c next m₁ f _ _ _ hs =>
    refine (served_of_serve hs).load (i := i) ?_
    rintro value rfl
    rw [serve_storeWord] at hs
    cases hs

theorem Takes.loaded {a0 a1 : Word} {a : Word}
    (ht : m.Takes pid (.answered (.ask Request.loadWord.code a0 a1) a) m') :
    a = m.referee.load a0 := by
  cases ht with
  | answered _ _ _ hs =>
    rw [serve_loadWord] at hs
    obtain ⟨-, h⟩ := Prod.mk.inj hs
    exact (Reaction.answer.inj h).symm

variable {log : List Event} {first : Word} {n : Nat}

theorem undisturbed_concat {e : Event} (h : Undisturbed (log ++ [e]) first n) :
    Undisturbed log first n ∧ Undisturbed [e] first n :=
  ⟨fun e' he => h e' (List.mem_append_left _ he), fun e' he => h e' (List.mem_append_right _ he)⟩

theorem Run.load (hr : m.Run log m') (h : Undisturbed log first n) {k : Nat} (hk : k < n) :
    m'.referee.load (first + Int32.ofNat k) = m.referee.load (first + Int32.ofNat k) := by
  induction hr with
  | start => rfl
  | step _ _ ht ih =>
    obtain ⟨hlog, hlast⟩ := undisturbed_concat h
    exact (ht.load (hlast _ (List.mem_singleton_self _) k hk)).trans (ih hlog)
  | halt _ ih => exact ih h

/-- Words loaded from slots that nobody stores to are those that were there before the run. -/
theorem Run.loads_eq (hr : m.Run log m') (h : Undisturbed log first n) {ws : List Word}
    {earlier later : List Reply} (hlength : ws.length = n)
    (hreplies : repliesTo pid log = earlier ++ loads first ws ++ later) :
    ws = m.referee.loadRun first n := by
  subst hlength
  refine eq_loadRun fun j w hj => ?_
  have hmem : ⟨.ask Request.loadWord.code j 0, w⟩ ∈ repliesTo pid log := by
    rw [hreplies]
    exact List.mem_append_left _ (List.mem_append_right _ hj)
  obtain ⟨e, he, hreply⟩ := List.mem_filterMap.mp hmem
  obtain rfl := (Event.replyTo?_eq_some_iff pid e _).mp hreply
  obtain ⟨before, after, rfl⟩ := List.append_of_mem he
  obtain ⟨b, b', hbefore, -, htake, -⟩ := hr.split rfl
  obtain ⟨k, hk, w', hkth⟩ := mem_loads hj
  obtain rfl : j = first + Int32.ofNat k := by
    injection hkth with hcall _
    injection hcall
  have hquiet : Undisturbed before first ws.length := fun e he => h e (List.mem_append_left _ he)
  have hloaded : w = b.referee.load (first + Int32.ofNat k) := htake.loaded
  rw [hloaded, hbefore.load hquiet hk]

/-- What a process gets from a program that reads `n` slots from slot `first` on: `a`, whatever
the others do that store nothing there, and it does come to that. -/
structure Obtains {α : Type} (m : Machine) (x : Program α) (first : Word) (n : Nat) (a : α) :
    Prop where
  always : ∀ log m' pid earlier replies later b, m.Run log m' → Undisturbed log first n →
    repliesTo pid log = earlier ++ replies ++ later → x.replay replies = some b → b = a
  reached : ∀ pid t next, m.alive pid = true → m.referee.halted = false →
    m.task? pid = some t → t.body = x.bind next →
    ∃ log m', m.Run log m' ∧ Undisturbed log first n ∧
      repliesTo pid log = loads first (m.referee.loadRun first n) ∧
      m'.task? pid = some { t with body := next a } ∧ m'.referee = m.referee

theorem run_loads {t : Task} {next : List Word → Program Unit} (ha : m.alive pid = true)
    (hh : m.referee.halted = false) (ht : m.task? pid = some t)
    (hb : t.body = (Session.loadRun first n).bind next) :
    ∃ m', m.Run ((loads first (m.referee.loadRun first n)).map (Reply.event pid)) m' ∧
      m'.task? pid = some { t with body := next (m.referee.loadRun first n) } ∧
      m'.referee = m.referee := by
  induction n generalizing m t first next with
  | zero =>
    have hsame : { t with body := next [] } = t := by
      rw [← show t.body = next [] from hb]
    refine ⟨m, .start, ?_, rfl⟩
    rw [Referee.loadRun, hsame, ht]
  | succ n ih =>
    rw [Session.loadRun_succ, Program.bind] at hb
    have htake := Takes.answered ht hb hh (m.serve_loadWord pid first 0)
    generalize hm₁ : m.setTask pid _ = m₁ at htake
    have href : m₁.referee = m.referee := by rw [← hm₁, setTask_referee]
    have halive : m₁.alive pid = true := by rw [alive, ← hm₁, setTask_processes, ← alive, ha]
    have htask := task?_setTask_self ht
      { t with body := ((Session.loadRun (first + 1) n).bind fun ws =>
          .done (m.referee.load first :: ws)).bind next }
    rw [hm₁, Program.bind_assoc] at htask
    obtain ⟨m', hrest, hend, href'⟩ := ih halive (by rw [href, hh]) htask rfl
    rw [href] at hrest hend href'
    have hfirst : m.Run [⟨pid, _⟩] m₁ := .step .start ha htake
    exact ⟨m', hfirst.trans hrest, hend, href'⟩

theorem obtains_reading {α : Type} (m : Machine) (first : Word) (n : Nat) (f : List Word → α) :
    m.Obtains (Session.reading first n f) first n (f (m.referee.loadRun first n)) where
  always log m' pid earlier replies later b hr hquiet hreplies hb := by
    obtain ⟨ws, hlength, rfl, rfl⟩ := (Session.replay_reading_iff first n f replies b).mp hb
    rw [hr.loads_eq hquiet hlength hreplies]
  reached pid t next ha hh ht hb := by
    rw [Session.reading, Program.bind_assoc] at hb
    obtain ⟨m', hr, htask, href⟩ := run_loads ha hh ht hb
    refine ⟨_, m', hr, undisturbed_loads pid first _ first n, repliesTo_map_event ..,
      htask, href⟩

end Machine

end KernelExam

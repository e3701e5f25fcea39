import KernelExam.Proofs.Machine.Frame
import KernelExam.Session

/-!
# Programs that take their numbers properly

A program is orderly if it touches the process count and the process lock in no
other way than by registering. Such a program is outside of every registration or
at one of a few places inside of one, and where it is says which call it makes next.
-/

set_option autoImplicit false

namespace KernelExam

def lockId : Word := Semaphore.processLock.id
def countSlot : Word := Slot.processCount.index

namespace Program

variable {α β : Type}

/-- What a program comes to with these answers, given that it asks for just them. -/
def replay : Program α → List Reply → Option α
  | .done a, [] => some a
  | .note _ next, replies => next.replay replies
  | .call c next, r :: rest => if h : r.call = c then (next (h ▸ r.answer)).replay rest else none
  | _, _ => none

theorem replay_done {a b : α} {replies : List Reply} (h : (done a).replay replies = some b) :
    replies = [] ∧ b = a := by
  cases replies with
  | nil => exact ⟨rfl, (Option.some.inj h).symm⟩
  | cons r rest => simp [replay] at h

theorem replay_call {c : Call} {next : c.Answer → Program α} {replies : List Reply} {b : α}
    (h : (call c next).replay replies = some b) :
    ∃ a rest, replies = ⟨c, a⟩ :: rest ∧ (next a).replay rest = some b := by
  cases replies with
  | nil => simp [replay] at h
  | cons r rest =>
    rw [replay] at h
    split at h
    · rename_i hr
      subst hr
      exact ⟨r.answer, rest, rfl, h⟩
    · cases h

inductive Sparing : Program α → Prop
  | done (a : α) : Sparing (.done a)
  | exit (status : Word) : Sparing (.exit status)
  | crash : Sparing .crash
  | note {n : Note} {next : Program α} : Sparing next → Sparing (.note n next)
  | call {c : Call} {next : c.Answer → Program α} : c.Spares countSlot lockId →
      (∀ a, Sparing (next a)) → Sparing (.call c next)

theorem Sparing.bind {x : Program α} {f : α → Program β} (hx : x.Sparing)
    (hf : ∀ a, (f a).Sparing) : (x.bind f).Sparing := by
  induction hx with
  | done a => exact hf a
  | exit status => exact .exit status
  | crash => exact .crash
  | note _ ih => exact .note ih
  | call hc _ ih => exact .call hc ih

theorem Sparing.replay {x : Program α} (hx : x.Sparing) {replies : List Reply} {a : α}
    (h : x.replay replies = some a) : ∀ r ∈ replies, r.call.Spares countSlot lockId := by
  induction hx generalizing replies with
  | done b =>
    obtain ⟨rfl, -⟩ := replay_done h
    simp
  | exit status => simp [Program.replay] at h
  | crash => simp [Program.replay] at h
  | note _ ih => exact ih h
  | call hc _ ih =>
    obtain ⟨a, rest, rfl, hrest⟩ := replay_call h
    intro r hr
    rcases List.mem_cons.mp hr with rfl | hr
    · exact hc
    · exact ih a hrest r hr

theorem replay_bind {x : Program α} {f : α → Program β} {replies : List Reply} {b : β}
    (h : (x.bind f).replay replies = some b) :
    ∃ first rest a, replies = first ++ rest ∧ x.replay first = some a ∧
      (f a).replay rest = some b := by
  induction x generalizing replies with
  | done a => exact ⟨[], replies, a, rfl, rfl, h⟩
  | exit status => simp [Program.bind, replay] at h
  | crash => simp [Program.bind, replay] at h
  | note n next ih => exact ih h
  | call c next ih =>
    obtain ⟨reply, rest, rfl, hrest⟩ := replay_call h
    obtain ⟨first, rest, a, rfl, hx, hf⟩ := ih reply hrest
    refine ⟨⟨c, reply⟩ :: first, rest, a, rfl, ?_, hf⟩
    rw [replay, dif_pos rfl]
    exact hx

end Program

namespace Session

open Program

theorem spares_load (i : Word) :
    (Call.ask Request.loadWord.code i 0).Spares countSlot lockId := by
  rintro request a0 a1 ⟨⟩
  exact ⟨fun h => absurd h (by decide), fun h => absurd h (by decide),
    fun h => absurd h (by decide)⟩

theorem loadAt_sparing (i : Word) : (loadAt i).Sparing :=
  .call (spares_load i) fun w => .done w

theorem loadRun_sparing (i : Word) (n : Nat) : (loadRun i n).Sparing := by
  induction n generalizing i with
  | zero => exact .done []
  | succ n ih =>
    refine (loadAt_sparing i).bind fun w => ?_
    exact (ih (i + 1)).bind fun ws => .done (w :: ws)

theorem stringArgument_sparing (slot : Slot) (words : Nat) :
    (stringArgument slot words).Sparing := by
  rw [stringArgument]
  split
  · exact .crash
  · refine Sparing.bind ?_ fun buffer => .done _
    rw [loadWords]
    split
    · exact (loadRun_sparing _ _).bind fun ws => .done _
    · exact (loadRun_sparing _ _).bind fun ws => .crash

def introduce (n : Word) : Program Session := do
  let shellProgram ← stringArgument .shellProgram Slot.shellProgramWords
  let testId ← load .testId
  pure ⟨n, testId, shellProgram⟩

theorem introduce_sparing (n : Word) : (introduce n).Sparing := by
  refine (stringArgument_sparing _ _).bind fun shellProgram => ?_
  exact (loadAt_sparing _).bind fun testId => .done _

theorem register_eq : register .referee = takeNumber.bind introduce := rfl

theorem register_firstProcess : register .firstProcess =
    .call (.ask Request.loadWord.code countSlot 0) fun n =>
      if n = 0 then .call (.ask Request.v.code lockId 0) fun _ => register .referee
      else register .referee := rfl

theorem takeNumber_eq : takeNumber =
    .call (.ask Request.p.code lockId 0) fun _ =>
      .call (.ask Request.loadWord.code countSlot 0) fun n =>
        if n = Int32.maxValue then .crash
        else .call (.ask Request.storeWord.code countSlot (n + 1)) fun _ =>
          .call (.ask Request.v.code lockId 0) fun _ => .done n := rfl

theorem replay_takeNumber {replies : List Reply} {n : Word}
    (h : takeNumber.replay replies = some n) :
    ∃ entered stored released,
      replies = [⟨.ask Request.p.code lockId 0, entered⟩,
        ⟨.ask Request.loadWord.code countSlot 0, n⟩,
        ⟨.ask Request.storeWord.code countSlot (n + 1), stored⟩,
        ⟨.ask Request.v.code lockId 0, released⟩] := by
  rw [takeNumber_eq] at h
  obtain ⟨entered, _, rfl, hload⟩ := replay_call h
  obtain ⟨loaded, _, rfl, hstore⟩ := replay_call hload
  split at hstore
  · simp [replay] at hstore
  · obtain ⟨stored, _, rfl, hrelease⟩ := replay_call hstore
    obtain ⟨released, _, rfl, hend⟩ := replay_call hrelease
    obtain ⟨rfl, rfl⟩ := replay_done hend
    exact ⟨entered, stored, released, rfl⟩

theorem replay_introduce {n : Word} {replies : List Reply} {s : Session}
    (h : (introduce n).replay replies = some s) : s.processId = n := by
  obtain ⟨_, _, shellProgram, -, -, hload⟩ := replay_bind h
  obtain ⟨_, _, testId, -, -, hend⟩ := replay_bind hload
  obtain ⟨-, rfl⟩ := replay_done hend
  rfl

theorem replay_register {replies : List Reply} {s : Session}
    (h : (register .referee).replay replies = some s) :
    ∃ entered stored released others,
      replies = ⟨.ask Request.p.code lockId 0, entered⟩ ::
        ⟨.ask Request.loadWord.code countSlot 0, s.processId⟩ ::
        ⟨.ask Request.storeWord.code countSlot (s.processId + 1), stored⟩ ::
        ⟨.ask Request.v.code lockId 0, released⟩ :: others ∧
      ∀ r ∈ others, r.call.Spares countSlot lockId := by
  rw [register_eq] at h
  obtain ⟨first, others, n, rfl, hfirst, hrest⟩ := replay_bind h
  obtain ⟨entered, stored, released, rfl⟩ := replay_takeNumber hfirst
  obtain rfl := replay_introduce hrest
  exact ⟨entered, stored, released, others, rfl, (introduce_sparing _).replay hrest⟩

theorem replay_firstProcess {replies : List Reply} {s : Session}
    (h : (register .firstProcess).replay replies = some s) :
    ∃ earlier entered others, replies = earlier ++ ⟨.ask Request.p.code lockId 0, entered⟩ ::
      ⟨.ask Request.loadWord.code countSlot 0, s.processId⟩ :: others := by
  rw [register_firstProcess] at h
  obtain ⟨n, _, rfl, hnext⟩ := replay_call h
  split at hnext
  · obtain ⟨a, _, rfl, hnext⟩ := replay_call hnext
    obtain ⟨entered, _, _, _, rfl, -⟩ := replay_register hnext
    exact ⟨[_, _], entered, _, rfl⟩
  · obtain ⟨entered, _, _, _, rfl, -⟩ := replay_register hnext
    exact ⟨[_], entered, _, rfl⟩

end Session

namespace Program

/-- Outside of its registrations the program spares the process count and the lock. -/
inductive Orderly : Program Unit → Prop
  | done : Orderly (.done ())
  | exit (status : Word) : Orderly (.exit status)
  | crash : Orderly .crash
  | note {n : Note} {next : Program Unit} : Orderly next → Orderly (.note n next)
  | call {c : Call} {next : c.Answer → Program Unit} : c.Spares countSlot lockId →
      (∀ a, Orderly (next a)) → Orderly (.call c next)
  | register {next : Session → Program Unit} : (∀ s, Orderly (next s)) →
      Orderly ((Session.register .referee).bind next)

/-- How far a registration has come inside of the lock. -/
inductive Stage where
  | entered
  | loaded (n : Word)
  | stored
  /-- The count has no successor and the lock stays taken. -/
  | stuck

inductive Inside : Stage → Program Unit → Prop
  | entered {next : Word → Program Unit} :
      (∀ n, n = Int32.maxValue → Inside .stuck (next n)) →
      (∀ n, n ≠ Int32.maxValue → Inside (.loaded n) (next n)) →
      Inside .entered (.call (.ask Request.loadWord.code countSlot 0) next)
  | loaded {n : Word} {next : Word → Program Unit} : n ≠ Int32.maxValue →
      (∀ a, Inside .stored (next a)) →
      Inside (.loaded n) (.call (.ask Request.storeWord.code countSlot (n + 1)) next)
  | stored {next : Word → Program Unit} : (∀ a, (next a).Orderly) →
      Inside .stored (.call (.ask Request.v.code lockId 0) next)
  | stuck : Inside .stuck .crash

theorem Sparing.orderly_bind {α : Type} {x : Program α} {f : α → Program Unit} (hx : x.Sparing)
    (hf : ∀ a, (f a).Orderly) : (x.bind f).Orderly := by
  induction hx with
  | done a => exact hf a
  | exit status => exact .exit status
  | crash => exact .crash
  | note _ ih => exact .note ih
  | call hc _ ih => exact .call hc ih

theorem Sparing.orderly {x : Program Unit} (hx : x.Sparing) : x.Orderly := by
  rw [← x.bind_done]
  exact hx.orderly_bind fun _ => .done

theorem inside_register {next : Session → Program Unit} (h : ∀ s, (next s).Orderly) :
    ∃ rest, (Session.register .referee).bind next =
        .call (.ask Request.p.code lockId 0) (fun _ => rest) ∧ Inside .entered rest := by
  rw [Session.register_eq, Session.takeNumber_eq]
  refine ⟨_, rfl, .entered ?_ ?_⟩
  · intro n hn
    simp only [if_pos hn]
    exact .stuck
  · intro n hn
    simp only [if_neg hn]
    refine .loaded hn fun _ => .stored fun _ => ?_
    exact (Session.introduce_sparing n).orderly_bind h

theorem Orderly.call_cases {c : Call} {next : c.Answer → Program Unit}
    (h : (Program.call c next).Orderly) :
    (c.Spares countSlot lockId ∧ ∀ a, (next a).Orderly) ∨
      c = .ask Request.p.code lockId 0 ∧ ∀ a, Inside .entered (next a) := by
  generalize hx : Program.call c next = x at h
  cases h with
  | done | exit | crash | note => cases hx
  | call hc hn =>
    cases hx
    exact Or.inl ⟨hc, hn⟩
  | register hn =>
    obtain ⟨rest, he, hi⟩ := inside_register hn
    rw [he] at hx
    cases hx
    exact Or.inr ⟨rfl, fun _ => hi⟩

theorem Orderly.of_note {n : Note} {next : Program Unit} (h : (Program.note n next).Orderly) :
    next.Orderly := by
  generalize hx : Program.note n next = x at h
  cases h with
  | done | exit | crash | call => cases hx
  | note hn =>
    cases hx
    exact hn
  | register hn =>
    obtain ⟨rest, he, -⟩ := inside_register hn
    rw [he] at hx
    cases hx

/-- What is asked of the programs outside of the lock: the next call of one spares the count
and the lock or enters the lock, and so on as long as it is answered what may be `Heard`. -/
structure Outside (Out : Program Unit → Prop) (Heard : Reply → Prop) : Prop where
  orderly : ∀ {x}, x.Orderly → Out x
  note : ∀ {n x}, Out (.note n x) → Out x
  call : ∀ {c next}, Out (.call c next) →
    c.Spares countSlot lockId ∧ (∀ a, Heard ⟨c, a⟩ → Out (next a)) ∨
      c = .ask Request.p.code lockId 0 ∧ ∀ a, Inside .entered (next a)

theorem outside_orderly : Outside Orderly fun _ => True where
  orderly := id
  note := Orderly.of_note
  call h := h.call_cases.imp_left fun ⟨hspare, hnext⟩ => ⟨hspare, fun a _ => hnext a⟩

end Program

end KernelExam

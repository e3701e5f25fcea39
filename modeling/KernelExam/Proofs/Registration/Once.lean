import KernelExam.Proofs.Registration.Lock

/-!
# How often the lock is entered

A bound for a program is one for each process that runs it, whatever the others do: what
a process has entered and what it may still enter together stay within the bound.
-/

set_option autoImplicit false

namespace KernelExam

namespace Program

variable {α : Type}

inductive Enters : Nat → Program α → Prop
  | done {n : Nat} (a : α) : Enters n (.done a)
  | exit {n : Nat} (status : Word) : Enters n (.exit status)
  | crash {n : Nat} : Enters n .crash
  | note {n : Nat} {k : Note} {next : Program α} : Enters n next → Enters n (.note k next)
  | enter {n : Nat} {a1 : Word} {next : Word → Program α} : (∀ a, Enters n (next a)) →
      Enters (n + 1) (.call (.ask Request.p.code lockId a1) next)
  | call {n : Nat} {c : Call} {next : c.Answer → Program α} :
      (∀ a1, c ≠ .ask Request.p.code lockId a1) → (∀ a, Enters n (next a)) →
      Enters n (.call c next)

theorem Sparing.enters {x : Program α} (hx : x.Sparing) : x.Enters 0 := by
  induction hx with
  | done a => exact .done a
  | exit status => exact .exit status
  | crash => exact .crash
  | note _ ih => exact .note ih
  | call hc _ ih =>
    refine .call ?_ ih
    rintro a1 rfl
    exact (hc _ _ _ rfl).2.1 rfl rfl

theorem enters_register {next : Session → Program Unit} (h : ∀ s, (next s).Sparing) :
    ((Session.register .referee).bind next).Enters 1 := by
  rw [Session.register_eq, Session.takeNumber_eq]
  refine .enter fun _ => .call (by nofun) fun n => ?_
  dsimp only
  split
  · exact .crash
  · exact .call (by nofun) fun _ => .call (by nofun) fun _ =>
      ((Session.introduce_sparing n).bind h).enters

theorem Enters.of_note {n : Nat} {k : Note} {next : Program α}
    (h : (Program.note k next).Enters n) : next.Enters n := by
  cases h with
  | note h => exact h

end Program

namespace Machine

variable {n : Nat} {m m' : Machine} {l : Ledger} {pid : Pid} {what : Happening} {log : List Event}

/-- No process has entered more often than `n` times, what it may still do included. -/
structure Rationed (n : Nat) (m : Machine) (l : Ledger) : Prop where
  images : ∀ name image, m.registry.lookup name = some image → ∀ pid args, (image pid args).Enters n
  strangers : ∀ pid, m.task? pid = none → l.entered.count pid = 0
  tasks : ∀ pid t, m.task? pid = some t → ∃ k, t.body.Enters k ∧ k + l.entered.count pid ≤ n

theorem Rationed.advance {k : Nat} {x y : Program Unit} (hx : x.Enters k)
    (hk : k + l.entered.count pid ≤ n) (h : Advances x what y) :
    ∃ k', y.Enters k' ∧ k' + (l.enter ⟨pid, what⟩).entered.count pid ≤ n := by
  rcases l.entered_enter ⟨pid, what⟩ with ⟨⟨a1, a, rfl⟩, he⟩ | ⟨hother, he⟩
  · rw [he, List.count_append, List.count_singleton_self]
    cases h with
    | answered =>
      cases hx with
      | @enter k _ _ hnext => exact ⟨k, hnext a, by omega⟩
      | call hc _ => exact absurd rfl (hc a1)
  · rw [he]
    cases h with
    | answered a =>
      cases hx with
      | @enter k a1 _ hnext => exact absurd rfl (hother a1 a)
      | call _ hnext => exact ⟨k, hnext a, hk⟩
    | noted => exact ⟨k, hx.of_note, hk⟩
    | ended => exact ⟨k, hx, hk⟩

theorem Rationed.step (h : Rationed n m l) (ht : m.Takes pid what m') :
    Rationed n m' (l.enter ⟨pid, what⟩) := by
  obtain ⟨t, t', hold, hnew, hadvance⟩ := ht.advances
  refine ⟨?_, ?_, ?_⟩
  · rw [ht.registry]
    exact h.images
  · intro q hq
    have hne : q ≠ pid := by
      rintro rfl
      rw [hnew] at hq
      cases hq
    rw [l.count_entered_of_ne hne]
    rcases ht.others hne with hsame | ⟨hnone, -⟩
    · exact h.strangers q (hsame.symm.trans hq)
    · exact h.strangers q hnone
  · intro q u hu
    by_cases hne : q = pid
    · subst hne
      obtain rfl := Option.some.inj (hnew.symm.trans hu)
      obtain ⟨k, hx, hk⟩ := h.tasks q t hold
      exact Rationed.advance hx hk hadvance
    · rw [l.count_entered_of_ne hne]
      rcases ht.others hne with hsame | ⟨hnone, hbegun⟩
      · exact h.tasks q u (hsame.symm.trans hu)
      · obtain ⟨name, image, child, args, hi, hb⟩ := hbegun u hu
        refine ⟨n, hb ▸ h.images name image hi child args, ?_⟩
        rw [h.strangers q hnone, Nat.add_zero]

theorem Rationed.run (h : Rationed n m .empty) (hr : m.Run log m') :
    Rationed n m' (.ofLog log) := by
  induction hr with
  | start => exact h
  | step _ _ ht ih =>
    rw [Ledger.ofLog_concat]
    exact ih.step ht
  | halt _ ih => exact ⟨ih.images, ih.strangers, ih.tasks⟩

theorem Rationed.nodup (h : Rationed 1 m l) : l.entered.Nodup := by
  rw [List.nodup_iff_count]
  intro pid
  cases ht : m.task? pid with
  | none =>
    rw [h.strangers pid ht]
    exact Nat.zero_le 1
  | some t =>
    obtain ⟨k, -, hk⟩ := h.tasks pid t ht
    omega

end Machine

end KernelExam

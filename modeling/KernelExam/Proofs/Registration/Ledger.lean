import KernelExam.Proofs.Registration.Conduct

/-!
# Who took the lock and who gave it back

The ledger of a run is read off its log. Entries and returns are only ever added, and
somebody who is inside stays there until a call of its own is answered.
-/

set_option autoImplicit false

namespace KernelExam

/-- Whose operations on the process lock were answered, each list in that order. -/
structure Ledger where
  entered : List Pid
  released : List Pid
  inside : List Pid

namespace Ledger

def empty : Ledger := ⟨[], [], []⟩

def reply (l : Ledger) (pid : Pid) : (c : Call) → c.Answer → Ledger
  | .ask request a0 _, _ =>
    if request = Request.p.code ∧ a0 = lockId then
      { l with entered := l.entered ++ [pid], inside := l.inside ++ [pid] }
    else if request = Request.v.code ∧ a0 = lockId then
      { l with released := l.released ++ [pid], inside := l.inside.erase pid }
    else l
  | _, _ => l

def enter (l : Ledger) (e : Event) : Ledger :=
  match e.what with
  | .answered c a => l.reply e.pid c a
  | .noted _ => l
  | .ended _ => l

def ofLog (log : List Event) : Ledger := log.foldl enter empty

theorem enter_answered (l : Ledger) (pid : Pid) (c : Call) (a : c.Answer) :
    l.enter ⟨pid, .answered c a⟩ = l.reply pid c a := rfl

theorem ofLog_concat (log : List Event) (e : Event) :
    ofLog (log ++ [e]) = (ofLog log).enter e := by
  rw [ofLog, List.foldl_append]
  rfl

theorem ofLog_ended (log : List Event) (pid : Pid) (how : Termination) :
    ofLog (log ++ [⟨pid, .ended how⟩]) = ofLog log := ofLog_concat ..

theorem reply_of_spares (l : Ledger) (pid : Pid) {c : Call} (hc : c.Spares countSlot lockId)
    (a : c.Answer) : l.reply pid c a = l := by
  cases c with
  | ask request a0 a1 =>
    obtain ⟨-, htake, hrelease⟩ := hc request a0 a1 rfl
    rw [reply, if_neg (fun h => htake h.1 h.2), if_neg (fun h => hrelease h.1 h.2)]
  | _ => rfl

theorem reply_enter (l : Ledger) (pid : Pid) (a : Word) :
    l.reply pid (.ask Request.p.code lockId 0) a =
      { l with entered := l.entered ++ [pid], inside := l.inside ++ [pid] } := by
  rw [reply, if_pos ⟨rfl, rfl⟩]

theorem reply_release (l : Ledger) (pid : Pid) (a1 a : Word) :
    l.reply pid (.ask Request.v.code lockId a1) a =
      { l with released := l.released ++ [pid], inside := l.inside.erase pid } := by
  rw [reply, if_neg (by decide), if_pos ⟨rfl, rfl⟩]

theorem reply_load (l : Ledger) (pid : Pid) (a : Word) :
    l.reply pid (.ask Request.loadWord.code countSlot 0) a = l := by
  rw [reply, if_neg (by decide), if_neg (by decide)]

theorem reply_store (l : Ledger) (pid : Pid) (value a : Word) :
    l.reply pid (.ask Request.storeWord.code countSlot value) a = l := by
  rw [reply, if_neg (by decide), if_neg (by decide)]

theorem entered_enter (l : Ledger) (e : Event) :
    (∃ a1 a, e.what = .answered (.ask Request.p.code lockId a1) a) ∧
        (l.enter e).entered = l.entered ++ [e.pid] ∨
      (∀ a1 a, e.what ≠ .answered (.ask Request.p.code lockId a1) a) ∧
        (l.enter e).entered = l.entered := by
  obtain ⟨pid, what⟩ := e
  cases what with
  | noted n => exact Or.inr ⟨nofun, rfl⟩
  | ended how => exact Or.inr ⟨nofun, rfl⟩
  | answered c a =>
    cases c with
    | ask request a0 a1 =>
      rw [enter_answered, reply]
      split
      · rename_i hp
        obtain ⟨rfl, rfl⟩ := hp
        exact Or.inl ⟨⟨a1, a, rfl⟩, rfl⟩
      · rename_i hp
        refine Or.inr ⟨?_, ?_⟩
        · rintro a1' a' ⟨⟩
          exact hp ⟨rfl, rfl⟩
        · split
          · rfl
          · rfl
    | _ => exact Or.inr ⟨nofun, rfl⟩

theorem count_entered_of_ne (l : Ledger) {e : Event} {q : Pid} (h : q ≠ e.pid) :
    (l.enter e).entered.count q = l.entered.count q := by
  rcases l.entered_enter e with ⟨-, he⟩ | ⟨-, he⟩
  · rw [he, List.count_append, List.count_singleton, beq_false_of_ne (Ne.symm h)]
    rfl
  · rw [he]

/-- A process gives the lock a permit that it has not taken. -/
def Opens (l : Ledger) (e : Event) : Prop :=
  e.pid ∉ l.inside ∧ ∃ a1 a, e.what = .answered (.ask Request.v.code lockId a1) a

def opened (l : Ledger) : Ledger := { l with released := 1 :: l.released }

theorem opened_enter (l : Ledger) (e : Event) : l.opened.enter e = (l.enter e).opened := by
  obtain ⟨pid, what⟩ := e
  cases what with
  | answered c a =>
    cases c with
    | ask request a0 a1 =>
      simp only [enter, reply]
      split
      · rfl
      · split
        · rfl
        · rfl
    | _ => rfl
  | _ => rfl

theorem mem_inside_ofLog {pid : Pid} {log mid : List Event} (h : pid ∈ (ofLog log).inside)
    (hmid : repliesTo pid mid = []) : pid ∈ (ofLog (log ++ mid)).inside := by
  induction mid using List.reverseRecOn with
  | nil => rwa [List.append_nil]
  | append_singleton mid e ih =>
    rw [repliesTo_append, List.append_eq_nil_iff] at hmid
    rw [← List.append_assoc, ofLog_concat]
    have hin := ih hmid.1
    obtain ⟨q, what⟩ := e
    cases what with
    | noted | ended => exact hin
    | answered c a =>
      have hne : pid ≠ q := by
        rintro rfl
        simp [repliesTo, Event.replyTo?] at hmid
      cases c with
      | ask request a0 a1 =>
        rw [enter_answered, reply]
        split
        · exact List.mem_append_left _ hin
        · split
          · exact (List.mem_erase_of_ne hne).mpr hin
          · exact hin
      | _ => exact hin

theorem reply_grows (l : Ledger) (pid : Pid) (c : Call) (a : c.Answer) :
    l.entered <+: (l.reply pid c a).entered ∧ l.released <+: (l.reply pid c a).released := by
  cases c with
  | ask request a0 a1 =>
    rw [reply]
    split
    · exact ⟨List.prefix_append _ _, List.prefix_refl _⟩
    · split
      · exact ⟨List.prefix_refl _, List.prefix_append _ _⟩
      · exact ⟨List.prefix_refl _, List.prefix_refl _⟩
  | _ => exact ⟨List.prefix_refl _, List.prefix_refl _⟩

theorem enter_grows (l : Ledger) (e : Event) :
    l.entered <+: (l.enter e).entered ∧ l.released <+: (l.enter e).released := by
  obtain ⟨pid, what⟩ := e
  cases what with
  | answered c a => exact l.reply_grows pid c a
  | _ => exact ⟨List.prefix_refl _, List.prefix_refl _⟩

theorem ofLog_grows (before after : List Event) :
    (ofLog before).entered <+: (ofLog (before ++ after)).entered ∧
      (ofLog before).released <+: (ofLog (before ++ after)).released := by
  induction after using List.reverseRecOn with
  | nil => simp
  | append_singleton after e ih =>
    rw [← List.append_assoc, ofLog_concat]
    have hlast := (ofLog (before ++ after)).enter_grows e
    exact ⟨ih.1.trans hlast.1, ih.2.trans hlast.2⟩

theorem Opens.ne_empty {before mid : List Event} {e : Event} (h : (ofLog before).Opens e) :
    ofLog (before ++ e :: mid) ≠ .empty := by
  obtain ⟨pid, what⟩ := e
  obtain ⟨-, a1, a, rfl⟩ := h
  intro hempty
  obtain ⟨-, hgrows⟩ :=
    ofLog_grows (before ++ [⟨pid, .answered (.ask Request.v.code lockId a1) a⟩]) mid
  rw [List.append_assoc, List.singleton_append, hempty, ofLog_concat, enter_answered,
    reply_release] at hgrows
  exact List.append_ne_nil_of_right_ne_nil _ (List.cons_ne_nil _ _) (List.prefix_nil.mp hgrows)

theorem Opens.eq_nil {before mid after after' : List Event} {e e' : Event}
    (h : (ofLog before).Opens e) (hmid : e :: after = mid ++ e' :: after')
    (hempty : ofLog (before ++ mid) = .empty) : mid = [] := by
  cases mid with
  | nil => rfl
  | cons _ mid =>
    obtain ⟨rfl, -⟩ := List.cons.inj hmid
    exact absurd hempty h.ne_empty

theorem Opens.unique {before before' after after' : List Event} {e e' : Event}
    (h : (ofLog before).Opens e) (h' : (ofLog before').Opens e')
    (hempty : ofLog before = .empty) (hempty' : ofLog before' = .empty)
    (hlog : before ++ e :: after = before' ++ e' :: after') : before = before' := by
  rcases List.append_eq_append_iff.mp hlog with ⟨mid, rfl, hmid⟩ | ⟨mid, rfl, hmid⟩
  · rw [h.eq_nil hmid hempty', List.append_nil]
  · rw [h'.eq_nil hmid hempty, List.append_nil]

end Ledger

end KernelExam

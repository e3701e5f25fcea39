import KernelExam.Proofs.Machine.Crowd
import KernelExam.Proofs.Machine.Refusal

/-!
# A parent that waits for its child

A test starts a child and waits until the child releases it, which the child does once or twice
before it exits. What a child does while its parent waits comes first in every order of steps;
where both can write, each order comes to the same end.
-/

set_option autoImplicit false

namespace KernelExam

def waitId : Word := Semaphore.childWait.id

def awaits (x : Program Unit) : Program Unit := .call (.ask Request.p.code waitId 0) fun _ => x

def releases (x : Program Unit) : Program Unit := .call (.ask Request.v.code waitId 0) fun _ => x

def writes (bs : Bytes) (x : Program Unit) : Program Unit := .call (.write stdout bs) fun _ => x

namespace Solo

def permitting (s : Solo) (v : Nat) : Solo :=
  { s with permits := fun j => if j = waitId then v else s.permits j }

variable {s : Solo} {v : Nat}

theorem permits_permitting : (s.permitting v).permits waitId = v := by
  rw [permitting]
  simp only [if_true]

theorem permitting_self (h : s.permits waitId = v) : s.permitting v = s := by
  have hsame : (fun j => if j = waitId then v else s.permits j) = s.permits := by
    funext j
    by_cases hj : j = waitId
    · rw [if_pos hj, hj, h]
    · rw [if_neg hj]
  rw [permitting, hsame]

theorem permitting_permitting (w : Nat) : (s.permitting v).permitting w = s.permitting w := by
  have hsame : (fun j => if j = waitId then w else if j = waitId then v else s.permits j) =
      fun j => if j = waitId then w else s.permits j := by
    funext j
    by_cases hj : j = waitId
    · rw [if_pos hj, if_pos hj]
    · rw [if_neg hj, if_neg hj, if_neg hj]
  rw [permitting, permitting, permitting, hsame]

theorem acts_awaits : (s.permitting (v + 1)).Acts (.ask Request.p.code waitId 0) (0 : Word)
    (s.permitting v) := by
  have hacts := acts_p (s := s.permitting (v + 1)) waitId 0
    (permits_permitting.symm ▸ Nat.succ_pos v)
  rw [permits_permitting] at hacts
  rw [← permitting_permitting (s := s) (v := v + 1) v]
  exact hacts

theorem acts_releases (hv : v < Referee.maxPermits) :
    (s.permitting v).Acts (.ask Request.v.code waitId 0) (0 : Word) (s.permitting (v + 1)) := by
  have hacts := acts_v (s := s.permitting v) waitId 0 (permits_permitting.symm ▸ hv)
  rw [permits_permitting] at hacts
  rw [← permitting_permitting (s := s) (v := v) (v + 1)]
  exact hacts

end Solo

section Rendezvous

open Solo

variable {registry : List (String × Image)} {o : Outcome} {n k : Nat} {r q : Int}
  {s : Solo} {x : Program Unit} {cwd : String} {ds : DescriptorTable} {status : Word}

theorem quiet_awaits {permits : Word → Nat} (h : permits waitId = 0) :
    Quiet (some (q, ⟨cwd, ds, awaits x⟩)) permits := by
  rintro _ _ ⟨⟩
  exact ⟨waitId, 0, _, rfl, h⟩

theorem comesTo_release (hwait : s.permits waitId = 0)
    (h : ComesTo registry o n k q (s.seenBy ⟨cwd, ds, awaits x⟩) x none) :
    ComesTo registry o n (k + 3) r s (releases (.exit status)) (some (q, ⟨cwd, ds, awaits x⟩)) := by
  have hrelease := acts_releases (s := s) (v := 0) (by decide)
  rw [permitting_self hwait] at hrelease
  have hawait := acts_awaits (s := s.seenBy ⟨cwd, ds, awaits x⟩) (v := 0)
  rw [permitting_self (s := s.seenBy ⟨cwd, ds, awaits x⟩) hwait] at hawait
  exact .call hrelease (quiet_awaits hwait) (.retire (.call hawait (quiet_none _) h))

theorem comesTo_restart {session : Session} {image : Image} {g : Program Unit}
    {F : Unit → Program Unit}
    (hi : registry.lookup (Path.dropSlashes session.shellProgram) = some image)
    (hpath : '\x00' ∉ session.shellProgram.toList) (hn : n < 2147483646)
    (h : ComesTo registry o (n + 1) k (n + 1) s.child (image (n + 1) [])
      (some (r, ⟨s.cwd, s.descriptors, awaits (g.bind F)⟩))) :
    ComesTo registry o n (k + 1) r s ((do
      let pid ← session.restart
      Session.ensure (pid ≠ -1)
      Session.waitChild
      g : Program Unit).bind F) none := by
  have hpid : Int32.ofInt (n + 1) ≠ -1 := ofInt_ne_neg_one (by omega) (by omega)
  refine .exec hi hpath hn ?_
  have hnext : ((Session.ensure (decide (Int32.ofInt (n + 1) ≠ -1)) >>= fun _ =>
      Session.waitChild >>= fun _ => g).bind F) = awaits (g.bind F) := by
    rw [decide_eq_true hpid]
    rfl
  rw [← hnext] at h
  exact h

/-- What a writer has before it is its standard output. -/
def Writer (ds : DescriptorTable) : Prop := ds.get? stdout = some ⟨.stdout, false, true⟩

section Writers

/-! A child writes and releases its parent once more, while the parent waits, writes and waits
again. Where both can go on either may have the next step. -/

variable {bs : Bytes} (hx : ∀ s, ComesTo registry o n k q s x none)
include hx

theorem comesTo_writes_alone (h : Writer s.descriptors) :
    ComesTo registry o n (k + 2) q (s.permitting 1) (writes bs (awaits x)) none :=
  .call (acts_write_stdout bs h) (quiet_none _) <|
    .call (acts_awaits (s := { s with stdout := s.stdout ++ bs })) (quiet_none _) (hx _)

variable (hchild : Writer s.descriptors) (hparent : Writer ds)

include hchild in
theorem comesTo_write_last :
    ComesTo registry o n (k + 4) r (s.permitting 0) (writes bs (releases (.exit status)))
      (some (q, ⟨cwd, ds, awaits x⟩)) :=
  .call (acts_write_stdout bs hchild) (quiet_awaits permits_permitting) <|
    comesTo_release (permits_permitting (s := s)) (hx _)

include hparent in
theorem comesTo_parent_writes :
    ComesTo registry o n (k + 4) r (s.permitting 0) (releases (.exit status))
      (some (q, ⟨cwd, ds, writes bs (awaits x)⟩)) := by
  refine .either (acts_releases (by decide)) ?_
    (acts_write_stdout (s := (s.permitting 0).seenBy _) bs hparent) ?_
  · exact .retire (comesTo_writes_alone (s := s.seenBy ⟨cwd, ds, writes bs (awaits x)⟩) hx hparent)
  · exact .swap (comesTo_release (permits_permitting (s := s)) (hx _))

include hchild hparent in
theorem comesTo_both_write :
    ComesTo registry o n (k + 5) r (s.permitting 0) (writes bs (releases (.exit status)))
      (some (q, ⟨cwd, ds, writes bs (awaits x)⟩)) := by
  refine .either (acts_write_stdout bs hchild) ?_
    (acts_write_stdout (s := (s.permitting 0).seenBy _) bs hparent) ?_
  · exact comesTo_parent_writes (s := { s with stdout := s.stdout ++ bs }) hx hparent
  · exact .swap (comesTo_write_last (s := { s with stdout := s.stdout ++ bs }) hx hchild)

include hparent in
theorem comesTo_parent_behind :
    ComesTo registry o n (k + 5) r (s.permitting 1) (releases (.exit status))
      (some (q, ⟨cwd, ds, awaits (writes bs (awaits x))⟩)) := by
  have hfirst := acts_awaits (s := s.seenBy ⟨cwd, ds, awaits (writes bs (awaits x))⟩) (v := 0)
  have hsecond := acts_awaits (s := s.seenBy ⟨cwd, ds, awaits (writes bs (awaits x))⟩) (v := 1)
  refine .either (acts_releases (by decide)) ?_ hfirst ?_
  · refine .retire (.call hsecond (quiet_none _) ?_)
    exact comesTo_writes_alone (s := s.seenBy ⟨cwd, ds, _⟩) hx hparent
  · exact .swap (comesTo_parent_writes (s := s) hx hparent)

include hchild hparent in
/-- From the first release on the two are done with in any order. -/
theorem comesTo_writers :
    ComesTo registry o n (k + 6) r (s.permitting 1) (writes bs (releases (.exit status)))
      (some (q, ⟨cwd, ds, awaits (writes bs (awaits x))⟩)) := by
  have hfirst := acts_awaits (s := s.seenBy ⟨cwd, ds, awaits (writes bs (awaits x))⟩) (v := 0)
  refine .either (acts_write_stdout bs hchild) ?_ hfirst ?_
  · exact comesTo_parent_behind (s := { s with stdout := s.stdout ++ bs }) hx hparent
  · exact .swap (comesTo_both_write (s := s) hx hchild hparent)

end Writers

end Rendezvous

end KernelExam

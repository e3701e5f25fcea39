import KernelExam.Proofs.FileSystem.Refusal
import KernelExam.Proofs.History

/-!
# Contents as a replay of writes

What a file holds follows from how it was last emptied and from the writes since then:
it reaches as far as the furthest of them, and each of its bytes is the one written
there last, the byte it began with, or zero.
-/

set_option autoImplicit false

namespace KernelExam

def splice (old : Bytes) (position : Nat) (bs : Bytes) : Bytes :=
  let long := old ++ zeros (position + bs.length - old.length)
  long.take position ++ bs ++ long.drop (position + bs.length)

theorem length_splice (old : Bytes) (position : Nat) (bs : Bytes) :
    (splice old position bs).length = max old.length (position + bs.length) := by
  simp only [splice, zeros, List.length_append, List.length_take, List.length_drop,
    List.length_replicate]
  omega

theorem getD_append_zeros (bs : Bytes) (n i : Nat) : (bs ++ zeros n).getD i 0 = bs.getD i 0 := by
  simp only [List.getD_eq_getElem?_getD, List.getElem?_append, zeros, List.getElem?_replicate]
  split
  · rfl
  · rw [List.getElem?_eq_none (by omega)]
    split <;> rfl

theorem getD_replaced {long : Bytes} {position : Nat} {bs : Bytes}
    (h : position + bs.length ≤ long.length) (i : Nat) :
    (long.take position ++ bs ++ long.drop (position + bs.length)).getD i 0 =
      if position ≤ i ∧ i < position + bs.length then bs.getD (i - position) 0
      else long.getD i 0 := by
  have htake : (long.take position).length = position := by
    rw [List.length_take]
    omega
  have hfront : (long.take position ++ bs).length = position + bs.length := by
    rw [List.length_append, htake]
  simp only [List.getD_eq_getElem?_getD]
  rcases Nat.lt_or_ge i (position + bs.length) with hi | hi
  · rw [List.getElem?_append_left (by omega)]
    rcases Nat.lt_or_ge i position with hlow | hhigh
    · rw [List.getElem?_append_left (by omega), List.getElem?_take_of_lt hlow, if_neg (by omega)]
    · rw [List.getElem?_append_right (by omega), htake, if_pos ⟨hhigh, hi⟩]
  · rw [List.getElem?_append_right (by omega), hfront, List.getElem?_drop, if_neg (by omega),
      Nat.add_sub_cancel' hi]

theorem getD_splice (old : Bytes) (position : Nat) (bs : Bytes) (i : Nat) :
    (splice old position bs).getD i 0 =
      if position ≤ i ∧ i < position + bs.length then bs.getD (i - position) 0
      else old.getD i 0 := by
  rw [splice, getD_replaced, getD_append_zeros]
  rw [List.length_append, zeros, List.length_replicate]
  omega

namespace Objects

theorem overwrite_eq_put (os : Objects) (o position : Nat) (bs : Bytes) :
    os.overwrite o position bs = os.put o (splice (os.contents o) position bs) := rfl

theorem contents_put_nil (os : Objects) (o : Nat) : (os.put o []).contents o = [] := by
  rcases Nat.lt_or_ge o os.length with h | h
  · exact contents_put os o [] h
  · rw [put, List.set_eq_of_length_le h, contents, List.getD_eq_getElem?_getD,
      List.getElem?_eq_none h]
    rfl

end Objects

namespace FileSystem

variable {fs fs' : FileSystem} {path : String}

theorem unlink_objects {r : Except FileError Unit} (h : fs.unlink path = (fs', r)) :
    fs'.objects = fs.objects := by
  obtain rfl : (fs.unlink path).1 = fs' := congrArg Prod.fst h
  rw [unlink]
  repeat' split
  all_goals rfl

theorem mkdir_objects {r : Except FileError Unit} (h : fs.mkdir path = (fs', r)) :
    fs'.objects = fs.objects := by
  obtain rfl : (fs.mkdir path).1 = fs' := congrArg Prod.fst h
  rw [mkdir]
  repeat' split
  all_goals rfl

theorem rmdir_objects {r : Except FileError Unit} (h : fs.rmdir path = (fs', r)) :
    fs'.objects = fs.objects := by
  obtain rfl : (fs.rmdir path).1 = fs' := congrArg Prod.fst h
  rw [rmdir]
  repeat' split
  all_goals rfl

theorem create_objects {o : Nat} (h : fs.create path = (fs', .ok o)) :
    fs'.objects = fs.objects.put o [] ∨
      fs'.objects = fs.objects ++ [[]] ∧ o = fs.objects.length := by
  rw [create] at h
  repeat' split at h
  · cases h
  · cases h
  · cases h
    exact Or.inl rfl
  · cases h
  · cases h
    exact Or.inr ⟨rfl, rfl⟩

theorem create_contents {o : Nat} (h : fs.create path = (fs', .ok o)) (o' : Nat) :
    fs'.objects.contents o' = if o' = o then [] else fs.objects.contents o' := by
  rcases create_objects h with hos | ⟨hos, rfl⟩
  · rw [hos]
    by_cases ho : o' = o
    · rw [if_pos ho, ho, Objects.contents_put_nil]
    · rw [if_neg ho, Objects.contents_put_of_ne _ _ _ _ (Ne.symm ho)]
  · rw [hos, Objects.contents, Objects.contents, List.getD_eq_getElem?_getD,
      List.getD_eq_getElem?_getD]
    rcases Nat.lt_trichotomy o' fs.objects.length with ho | rfl | ho
    · rw [List.getElem?_append_left ho, if_neg (Nat.ne_of_lt ho)]
    · rw [List.getElem?_concat_length, if_pos rfl]
      rfl
    · rw [List.getElem?_eq_none (by rw [List.length_append, List.length_singleton]; omega),
        List.getElem?_eq_none (by omega), if_neg (by omega)]

theorem length_le_of_create {o : Nat} (h : fs.create path = (fs', .ok o)) :
    fs.objects.length ≤ fs'.objects.length := by
  rcases create_objects h with hos | ⟨hos, -⟩
  · rw [hos, Objects.put, List.length_set]
  · rw [hos, List.length_append]
    exact Nat.le_add_right _ _

end FileSystem

/-- A change of the contents of a file. -/
inductive Revision where
  | emptied
  | wrote (position : Nat) (bytes : Bytes)
  deriving DecidableEq, Repr

namespace Revision

def apply : Revision → Bytes → Bytes
  | .emptied, _ => []
  | .wrote position bs, old => splice old position bs

def applyAll (seed : Bytes) (revisions : List Revision) : Bytes :=
  revisions.foldl (fun bs r => r.apply bs) seed

def remains? : Revision → Option Bytes
  | .emptied => some []
  | .wrote _ _ => none

def of (o : Nat) : Option (Nat × Revision) → List Revision
  | some (o', r) => if o = o' then [r] else []
  | none => []

def reach : Revision → Nat
  | .emptied => 0
  | .wrote position bs => position + bs.length

def byte? (i : Nat) : Revision → Option UInt8
  | .emptied => none
  | .wrote position bs => if position ≤ i then bs[i - position]? else none

/-- How a file began after it was last emptied, as `seed` if it never was, and the writes
since. -/
def account (seed : Bytes) (revisions : List Revision) : Bytes × List Revision :=
  sinceLast remains? seed revisions

def lastByte? (i : Nat) (revisions : List Revision) : Option UInt8 :=
  revisions.reverse.findSome? (byte? i)

theorem applyAll_append (seed : Bytes) (first second : List Revision) :
    applyAll seed (first ++ second) = applyAll (applyAll seed first) second :=
  List.foldl_append

theorem applyAll_of (bs : Bytes) (o o' : Nat) (r : Revision) :
    applyAll bs (of o (some (o', r))) = if o = o' then r.apply bs else bs := by
  rw [of]
  split <;> rfl

theorem applyAll_concat (seed : Bytes) (revisions : List Revision) (r : Revision) :
    applyAll seed (revisions ++ [r]) = r.apply (applyAll seed revisions) :=
  applyAll_append seed revisions [r]

theorem account_concat_emptied (seed : Bytes) (revisions : List Revision) :
    account seed (revisions ++ [.emptied]) = ([], []) := by
  have hvalue : remains? .emptied = some [] := rfl
  exact sinceLast_concat_of_some hvalue seed revisions

theorem account_concat_wrote (seed : Bytes) (revisions : List Revision) (position : Nat)
    (bs : Bytes) : account seed (revisions ++ [.wrote position bs]) =
      ((account seed revisions).1, (account seed revisions).2 ++ [.wrote position bs]) :=
  sinceLast_concat_of_none rfl ..

theorem lastByte?_concat (i : Nat) (revisions : List Revision) (r : Revision) :
    lastByte? i (revisions ++ [r]) = (r.byte? i).or (lastByte? i revisions) := by
  rw [lastByte?, List.reverse_append, List.reverse_singleton, List.findSome?_append,
    List.findSome?_singleton, lastByte?]

theorem getD_byte?_wrote (i position : Nat) (bs : Bytes) (other : UInt8) :
    ((wrote position bs).byte? i).getD other =
      if position ≤ i ∧ i < position + bs.length then bs.getD (i - position) 0 else other := by
  rw [byte?]
  by_cases hlow : position ≤ i
  · rw [if_pos hlow]
    by_cases hhigh : i < position + bs.length
    · rw [if_pos ⟨hlow, hhigh⟩, List.getD_eq_getElem?_getD,
        List.getElem?_eq_getElem (by omega)]
      rfl
    · rw [if_neg (fun h => hhigh h.2), List.getElem?_eq_none (by omega)]
      rfl
  · rw [if_neg hlow, if_neg (fun h => hlow h.1)]
    rfl

end Revision

/-- Contents that the revisions of a file account for. -/
structure Replays (seed : Bytes) (revisions : List Revision) (bs : Bytes) : Prop where
  length : bs.length = ((Revision.account seed revisions).2.map Revision.reach).foldl max
    (Revision.account seed revisions).1.length
  byte : ∀ i, bs.getD i 0 = (Revision.lastByte? i (Revision.account seed revisions).2).getD
    ((Revision.account seed revisions).1.getD i 0)

theorem Replays.emptied (seed : Bytes) (revisions : List Revision) :
    Replays seed (revisions ++ [.emptied]) [] := by
  constructor
  · rw [Revision.account_concat_emptied]
    rfl
  · intro i
    rw [Revision.account_concat_emptied]
    rfl

theorem Replays.wrote {seed bs : Bytes} {revisions : List Revision} (h : Replays seed revisions bs)
    (position : Nat) (written : Bytes) :
    Replays seed (revisions ++ [.wrote position written]) (splice bs position written) := by
  constructor
  · rw [Revision.account_concat_wrote, length_splice, h.length, List.map_append, List.foldl_append]
    rfl
  · intro i
    rw [Revision.account_concat_wrote, getD_splice, h.byte, Revision.lastByte?_concat,
      Option.getD_or, Revision.getD_byte?_wrote]

/-- Revisions carried out one after the other leave what the account says. -/
theorem replays_applyAll (seed : Bytes) (revisions : List Revision) :
    Replays seed revisions (Revision.applyAll seed revisions) := by
  induction revisions using List.reverseRecOn with
  | nil => exact ⟨rfl, fun _ => rfl⟩
  | append_singleton revisions r ih =>
    rw [Revision.applyAll_concat]
    cases r with
    | emptied => exact .emptied seed revisions
    | wrote position bs => exact ih.wrote position bs

/-- What a read of `n` bytes at position `k` should answer. -/
structure Reads (bs : Bytes) (k n : Nat) (a : Word × Bytes) : Prop where
  bytes : a.2 = (bs.drop k).take n
  length : a.2.length = min n (bs.length - k)
  count : a.1 = Int32.ofNat a.2.length
  /-- The bytes go to the front of the reader's buffer, and the rest of it stays. -/
  buffer : ∀ buffer : Bytes, buffer.length = n → (overlay a.2 buffer).length = n ∧
    ∀ i, (overlay a.2 buffer).getD i 0 =
      if i < a.2.length then bs.getD (k + i) 0 else buffer.getD i 0

theorem getD_overlay {src dst : Bytes} (h : src.length ≤ dst.length) (i : Nat) :
    (overlay src dst).getD i 0 = if i < src.length then src.getD i 0 else dst.getD i 0 := by
  simp only [overlay, List.take_of_length_le h, List.getD_eq_getElem?_getD]
  split
  · rename_i hi
    rw [List.getElem?_append_left hi]
  · rename_i hi
    rw [List.getElem?_append_right (by omega), List.getElem?_drop, Nat.add_sub_cancel' (by omega)]

theorem reads_take_drop (bs : Bytes) (k n : Nat) :
    Reads bs k n (Int32.ofNat ((bs.drop k).take n).length, (bs.drop k).take n) := by
  have hlength : ((bs.drop k).take n).length = min n (bs.length - k) := by
    rw [List.length_take, List.length_drop]
  refine ⟨rfl, hlength, rfl, fun buffer hbuffer => ?_⟩
  dsimp only
  refine ⟨by rw [length_overlay, hbuffer], fun i => ?_⟩
  rw [getD_overlay (by omega)]
  split
  · rename_i hi
    rw [List.getD_eq_getElem?_getD, List.getD_eq_getElem?_getD,
      List.getElem?_take_of_lt (by omega), List.getElem?_drop]
  · rfl

end KernelExam

import KernelExam.Proofs.FileSystem.Topmost
import KernelExam.Proofs.Suite.Rendezvous
import KernelExam.Scenario

/-!
# The steps of the tests of files

What each part of a test makes of a state that has all a test is given: names of a file that is
there and of one that is not, a random word and an open lock.
-/

set_option autoImplicit false

namespace KernelExam.Suite.Files

open Session Solo

/-- What a test of files is given. -/
structure Furnished (random test : Word) (o : Nat) (s : Solo) : Prop where
  cwd : s.cwd = "/"
  lock : s.permits lockId = 1
  wait : s.permits waitId = 0
  present : s.text presentFile nameWords = .ok "input"
  absent : s.text absentFile nameWords = .ok "aa"
  shell : s.text .shellProgram Slot.shellProgramWords = .ok "file_tests"
  random : s.slots Slot.random.index = random
  testId : s.slots Slot.testId.index = test
  input : s.files.root.find? "input" = some (.file o)
  free : s.files.root.find? "aa" = none

def desk (ds : List (Option Descriptor)) : DescriptorTable := ⟨DescriptorTable.stdio.slots ++ ds⟩

def stored (s : Solo) (i value : Word) : Solo :=
  { s with slots := fun j => if j = i then value else s.slots j }

theorem slots_stored (s : Solo) (i value : Word) : (stored s i value).slots i = value := by
  rw [stored]
  simp only [if_true]

theorem slots_stored_of_ne (s : Solo) {i j : Word} (value : Word) (hj : j ≠ i) :
    (stored s i value).slots j = s.slots j := by
  rw [stored]
  exact if_neg hj

/-- The state in which the absent file was made, with those bytes in it. -/
def made (s : Solo) (bs : Bytes) (descriptors : DescriptorTable) : Solo :=
  { s with
    files := ⟨.file "aa" s.files.objects.length s.files.root, s.files.objects ++ [bs]⟩
    descriptors }

theorem find?_made (s : Solo) (bs : Bytes) (descriptors : DescriptorTable) :
    (made s bs descriptors).files.root.find? "aa" = some (.file s.files.objects.length) :=
  if_pos rfl

theorem topmost_input : Path.Topmost "/input" "input" := ⟨by decide, by decide⟩

theorem topmost_aa : Path.Topmost "/aa" "aa" := ⟨by decide, by decide⟩

theorem resolve_input : Path.resolve "input" "/" = some "/input" := by decide

theorem resolve_aa : Path.resolve "aa" "/" = some "/aa" := by decide

namespace Furnished

variable {random test : Word} {o : Nat} {s : Solo} (h : Furnished random test o s)
include h

theorem with_slots {slots : Word → Word}
    (hsame : ∀ j, j ≠ countSlot → j ≠ descriptorSlot.index → slots j = s.slots j) :
    Furnished random test o { s with slots } := by
  have htext : ∀ {slot : Slot} {n : Nat}, (∀ k < n, slot.index + Int32.ofNat k ≠ countSlot) →
      (∀ k < n, slot.index + Int32.ofNat k ≠ descriptorSlot.index) →
      ({ s with slots } : Solo).text slot n = s.text slot n := fun hcount hdescriptor =>
    Referee.text_congr _ _ fun k hk => hsame _ (hcount k hk) (hdescriptor k hk)
  exact {
    cwd := h.cwd
    lock := h.lock
    wait := h.wait
    present := (htext (by decide) (by decide)).trans h.present
    absent := (htext (by decide) (by decide)).trans h.absent
    shell := (htext (by decide) (by decide)).trans h.shell
    random := (hsame _ (by decide) (by decide)).trans h.random
    testId := (hsame _ (by decide) (by decide)).trans h.testId
    input := h.input
    free := h.free }

theorem counted : Furnished random test o s.counted :=
  h.with_slots fun _ hj _ => if_neg hj

theorem stored (value : Word) : Furnished random test o (stored s descriptorSlot.index value) :=
  h.with_slots fun _ _ hj => if_neg hj

theorem with_descriptors (descriptors : DescriptorTable) :
    Furnished random test o { s with descriptors } := { h with }

theorem openFile : s.files.openFile "/input" = .ok o :=
  (FileSystem.openFile_topmost topmost_input).mpr h.input

theorem not_exists : s.files.fileExists "/aa" = false := by
  rw [FileSystem.fileExists_topmost topmost_aa, h.free]
  rfl

end Furnished

theorem insert_desk {k : Nat} (hk : k < 14) (d : Descriptor) :
    (desk (List.replicate k (some d))).insert d =
      some (desk (List.replicate (k + 1) (some d)), k + 2) := by
  have hlength : (desk (List.replicate k (some d))).slots.length = k + 2 := by
    rw [desk, List.length_append, List.length_replicate, Nat.add_comm]
    rfl
  have hfull : (desk (List.replicate k (some d))).slots.findIdx Option.isNone = k + 2 := by
    rw [← hlength, List.findIdx_eq_length]
    have hstdio : ∀ e ∈ DescriptorTable.stdio.slots, e.isNone = false := by decide
    intro e he
    rcases List.mem_append.mp he with he | he
    · exact hstdio e he
    · rw [List.eq_of_mem_replicate he]
      rfl
  have hroom : k + 2 < DescriptorTable.capacity := by
    rw [DescriptorTable.capacity]
    omega
  rw [DescriptorTable.insert, DescriptorTable.free?, hfull, hlength, if_pos (Or.inr hroom),
    Option.map_some, if_neg (Nat.lt_irrefl _), List.replicate_succ', desk, desk,
    List.append_assoc]

theorem insert_desk_full (d : Descriptor) :
    (desk (List.replicate 14 (some d))).insert d = none := by
  rfl

theorem insert_stdio {table : DescriptorTable} (h : table = .stdio) (d : Descriptor) :
    table.insert d = some (desk [some d], 2) := by
  rw [h]
  rfl

theorem firstWord_take (bs : Bytes) : firstWord (bs.take 4) = firstWord bs := by
  match bs with
  | [] | [_] | [_, _] | [_, _, _] | _ :: _ :: _ :: _ :: _ => rfl

section Runs

variable {I : (Word → Nat) → Prop} {s : Solo} {fd : Word} {n : Nat} {table : DescriptorTable}

theorem runs_ensure {right : Bool} (h : right = true) : Runs I 0 s (ensure right) s () := by
  rw [h]
  exact .done

theorem runs_ensureOpened {path q : String} {o : Nat} (hq : Path.resolve path s.cwd = some q)
    (ho : s.files.openFile q = .ok o)
    (hplace : s.descriptors.insert (.ofObject o) = some (table, n)) (hfd : Int32.ofNat n ≠ -1)
    (hi : I s.permits) :
    Runs I 1 s (ensureOpened path) { s with descriptors := table } (Int32.ofNat n) :=
  .call hi (acts_openFile hq ho hplace) ((runs_ensure (decide_eq_true hfd)).bind 0 .done)

theorem runs_ensureCreated (hcwd : s.cwd = "/") (hfree : s.files.root.find? "aa" = none)
    (hplace : s.descriptors.insert (.ofObject s.files.objects.length) = some (table, n))
    (hfd : Int32.ofNat n ≠ -1) (hi : I s.permits) :
    Runs I 1 s (ensureCreated "aa") (made s [] table) (Int32.ofNat n) := by
  have hq : Path.resolve "aa" s.cwd = some "/aa" := by rw [hcwd, resolve_aa]
  exact .call hi (acts_create hq (FileSystem.create_free topmost_aa hfree) hplace)
    ((runs_ensure (decide_eq_true hfd)).bind 0 .done)

theorem runs_ensureExists {expected : Bool} (hname : s.text absentFile nameWords = .ok "aa")
    (h : s.files.fileExists "/aa" = expected) (hi : I s.permits) :
    Runs I 1 s (ensureExists expected) s () := by
  refine .call hi (acts_fileExists (by decide) hname resolve_aa) (runs_ensure ?_)
  rw [h]
  cases expected <;> decide

theorem runs_ensureClosed {d : Descriptor} (hd : s.descriptors.get? fd = some d)
    (hi : I s.permits) :
    Runs I 1 s (ensureClosed fd) { s with descriptors := (s.descriptors.remove fd).1 } () :=
  .call hi (acts_close hd) (runs_ensure rfl)

theorem runs_ensureExists_made (hname : s.text absentFile nameWords = .ok "aa")
    (hi : I s.permits) (descriptors : DescriptorTable) :
    Runs I 1 (made s [] descriptors) (ensureExists true) (made s [] descriptors) () := by
  have hfound : (made s [] descriptors).files.fileExists "/aa" = true := by
    rw [FileSystem.fileExists_topmost topmost_aa, find?_made]
    rfl
  exact runs_ensureExists (s := made s [] descriptors) hname hfound hi

theorem runs_cycle (hcwd : s.cwd = "/") (hname : s.text absentFile nameWords = .ok "aa")
    (hfree : s.files.root.find? "aa" = none)
    (hplace : ∀ d, s.descriptors.insert d = some (desk [some d], 2)) (hi : I s.permits) :
    Runs I 5 s (cycle "aa")
      { s with
        files := ⟨s.files.root, s.files.objects ++ [[]]⟩
        descriptors := desk [none] } () := by
  generalize hafter : ({ s with
    files := ⟨s.files.root, s.files.objects ++ [[]]⟩
    descriptors := desk [none] } : Solo) = after
  have hcreate := runs_ensureCreated hcwd hfree (hplace _) (by decide) hi
  have hfound := runs_ensureExists_made hname hi (desk [some (.ofObject s.files.objects.length)])
  have hclose : Runs I 1 (made s [] (desk [some (.ofObject s.files.objects.length)]))
      (ensureClosed 2) (made s [] (desk [none])) () := runs_ensureClosed rfl hi
  have hunlink : (made s [] (desk [none])).Acts (.unlink "aa") (0 : Word) after := by
    have hback : (made s [] (desk [none])).files.root.erase "aa" = s.files.root := if_pos rfl
    have hgone := FileSystem.unlink_topmost topmost_aa (find?_made s [] (desk [none]))
    rw [hback] at hgone
    rw [← hafter]
    exact acts_unlink (s := made s [] (desk [none])) (hcwd ▸ resolve_aa) hgone
  have hmissing : Runs I 1 after (ensureExists false) after () := by
    rw [← hafter]
    refine runs_ensureExists (s := { s with
      files := ⟨s.files.root, s.files.objects ++ [[]]⟩
      descriptors := desk [none] }) hname ?_ hi
    rw [FileSystem.fileExists_topmost topmost_aa, hfree]
    rfl
  exact hcreate.bind 4 <| hfound.bind 3 <| hclose.bind 2 <|
    .call hi hunlink hmissing

/-- Any number of rounds, with a new place for the descriptor in the first of them only. -/
theorem exists_runs_cycles (k : Nat) (hcwd : s.cwd = "/")
    (hname : s.text absentFile nameWords = .ok "aa") (hfree : s.files.root.find? "aa" = none)
    (hplace : ∀ d, s.descriptors.insert d = some (desk [some d], 2)) (hi : I s.permits) :
    ∃ s', Runs I (5 * k) s (cycles "aa" k) s' () := by
  induction k generalizing s with
  | zero => exact ⟨s, .done⟩
  | succ k ih =>
    obtain ⟨s', hrest⟩ := ih (s := { s with
      files := ⟨s.files.root, s.files.objects ++ [[]]⟩
      descriptors := desk [none] }) hcwd hname hfree (fun _ => rfl) hi
    refine ⟨s', ?_⟩
    rw [Nat.mul_succ, Nat.add_comm]
    exact (runs_cycle hcwd hname hfree hplace hi).bind _ hrest

theorem runs_opens {path q : String} {o j : Nat} (k : Nat) (hq : Path.resolve path s.cwd = some q)
    (ho : s.files.openFile q = .ok o)
    (hd : s.descriptors = desk (List.replicate j (some (.ofObject o)))) (hle : j + k ≤ 14)
    (hi : I s.permits) :
    Runs I k s (opens path k)
      { s with descriptors := desk (List.replicate (j + k) (some (.ofObject o))) } () := by
  induction k generalizing s j with
  | zero =>
    rw [Nat.add_zero, ← hd]
    exact .done
  | succ k ih =>
    have hplace := insert_desk (show j < 14 by omega) (.ofObject o)
    rw [← hd] at hplace
    have hfd : Int32.ofNat (j + 2) ≠ -1 := ofNat_ne_neg_one (by omega)
    have hrest := ih
      (s := { s with descriptors := desk (List.replicate (j + 1) (some (.ofObject o))) })
      hq ho rfl (by omega) hi
    rw [Nat.add_assoc, Nat.add_comm 1 k] at hrest
    have hall := (runs_ensureOpened hq ho hplace hfd hi).bind (f := fun _ => opens path k) k hrest
    rw [Nat.add_comm 1 k] at hall
    exact hall

theorem runs_readValue {o : Nat} {writable : Bool}
    (hd : s.descriptors.get? fd = some ⟨.file o 0, true, writable⟩)
    (hlong : 4 ≤ (s.files.objects.contents o).length) (hi : I s.permits) :
    Runs I 1 s (readValue fd)
      { s with descriptors := s.descriptors.set fd (some ⟨.file o 4, true, writable⟩) }
      (firstWord (s.files.objects.contents o)) := by
  have hread := acts_read fd 4 hd (Nat.zero_le _)
  have hslice : s.files.objects.slice o 0 4 = (s.files.objects.contents o).take 4 := rfl
  have hlength : ((s.files.objects.contents o).take 4).length = 4 := List.length_take_of_le hlong
  rw [hslice, hlength] at hread
  have hbuffer : overlay ((s.files.objects.contents o).take 4) (zeros 4) =
      (s.files.objects.contents o).take 4 := by
    have hzeros : (zeros 4).length = 4 := rfl
    rw [overlay, hzeros, hlength, List.drop_eq_nil_of_le hzeros.le, List.append_nil, List.take_take,
      Nat.min_self]
  refine .call hi hread ?_
  show Runs I 0 _ (.done (firstWord (overlay ((s.files.objects.contents o).take 4) (zeros 4)))) _ _
  rw [hbuffer, firstWord_take]
  exact .done

theorem acts_write_made (s : Solo) (bs : Bytes) (d : Option Descriptor) :
    (made s [] (desk [d, some (.ofObject s.files.objects.length)])).Acts (.write 3 bs)
      (Int32.ofNat bs.length)
      (made s bs
        (desk [d, some ((Descriptor.ofObject s.files.objects.length).seek bs.length)])) := by
  have hopen : (desk [d, some (.ofObject s.files.objects.length)]).get? 3 =
      some ⟨.file s.files.objects.length 0, true, true⟩ := rfl
  have hacts := acts_write_file
    (s := made s [] (desk [d, some (.ofObject s.files.objects.length)])) 3 bs hopen
  have hover : Objects.overwrite
      (made s [] (desk [d, some (.ofObject s.files.objects.length)])).files.objects
      s.files.objects.length 0 bs = s.files.objects ++ [bs] := Objects.overwrite_fresh _ _
  rw [hover, Nat.zero_add] at hacts
  exact hacts

theorem runs_reopen (hcwd : s.cwd = "/") (bs : Bytes) (hi : I s.permits) :
    Runs I 1 (made s bs (desk [none, none])) (ensureOpened "aa")
      (made s bs (desk [some (.ofObject s.files.objects.length), none])) 2 :=
  runs_ensureOpened (s := made s bs (desk [none, none])) (hcwd ▸ resolve_aa)
    ((FileSystem.openFile_topmost topmost_aa).mpr (find?_made s bs _)) rfl (by decide) hi

theorem runs_readBack (s : Solo) (value : Word) (d : Option Descriptor) (hi : I s.permits) :
    Runs I 1 (made s (bytesOfWord value) (desk [some (.ofObject s.files.objects.length), d]))
      (readValue 2)
      (made s (bytesOfWord value)
        (desk [some ((Descriptor.ofObject s.files.objects.length).seek 4), d])) value := by
  have hopen : (desk [some (.ofObject s.files.objects.length), d]).get? 2 =
      some ⟨.file s.files.objects.length 0, true, true⟩ := rfl
  have hcontents : Objects.contents (s.files.objects ++ [bytesOfWord value])
      s.files.objects.length = bytesOfWord value :=
    Objects.contents_allocate s.files.objects (bytesOfWord value)
  have hread := runs_readValue
    (s := made s (bytesOfWord value) (desk [some (.ofObject s.files.objects.length), d])) hopen
    (by rw [made, hcontents]; exact Nat.le_refl 4) hi
  have hvalue : firstWord ((made s (bytesOfWord value)
      (desk [some (.ofObject s.files.objects.length), d])).files.objects.contents
        s.files.objects.length) = value := by
    rw [made, hcontents, firstWord_bytesOfWord]
  rw [hvalue] at hread
  exact hread

theorem acts_read_byte {writable : Bool} {b : UInt8} {rest : Bytes}
    (hd : s.descriptors.get? stdin = some ⟨.stdin, true, writable⟩) (hs : s.stdin = b :: rest) :
    s.Acts (.read stdin 1) (1, [b]) { s with stdin := rest } := by
  have hacts := acts_read_console 1 hd
  rw [hs] at hacts
  exact hacts

theorem runs_readBytes {writable : Bool} (k : Nat)
    (hd : s.descriptors.get? stdin = some ⟨.stdin, true, writable⟩) (hlong : k ≤ s.stdin.length)
    (hi : I s.permits) :
    Runs I k s (readBytes k) { s with stdin := s.stdin.drop k } (s.stdin.take k) := by
  induction k generalizing s with
  | zero => exact .done
  | succ k ih =>
    cases hs : s.stdin with
    | nil =>
      rw [hs] at hlong
      exact absurd hlong (Nat.not_succ_le_zero k)
    | cons b rest =>
      rw [hs] at hlong
      have hrest := ih (s := { s with stdin := rest }) hd (Nat.le_of_succ_le_succ hlong) hi
      exact .call hi (acts_read_byte hd hs) (hrest.map _)

theorem runs_checkValue (hi : I s.permits) :
    Runs I 1 s (checkValue (s.slots Slot.random.index)) s () :=
  .call hi (acts_load _ 0) (runs_ensure (decide_eq_true rfl))

end Runs

end KernelExam.Suite.Files

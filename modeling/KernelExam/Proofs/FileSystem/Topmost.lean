import KernelExam.Proofs.FileSystem.Handles
import KernelExam.Proofs.Machine.Contents

/-!
# Entries of the root

What the operations do at an entry of the root and one step below it, said of the listings
themselves, and what is left of a file system when such an entry is taken away.
-/

set_option autoImplicit false

namespace KernelExam

namespace Listing

variable {l inside contents : Listing} {name : String} {e : Entry}

theorem erase_refill (h : l.find? name = some (.folder inside)) :
    (l.refill name contents).erase name = l.erase name := by
  induction l with
  | empty => rfl
  | file n o more ih =>
    by_cases hn : n = name
    · simp [find?, hn] at h
    · simp only [find?, hn, if_false] at h
      simp only [refill, erase, hn, if_false, ih h]
  | folder n sub more _ ih =>
    by_cases hn : n = name
    · simp only [refill, erase, hn, if_true]
    · simp only [find?, hn, if_false] at h
      simp only [refill, erase, hn, if_false, ih h]

theorem eq_add_of_erase (h : l.find? name = some e) (hempty : l.erase name = .empty) :
    l = Listing.empty.add name e := by
  cases l with
  | empty => cases h
  | file n o more =>
    rw [erase] at hempty
    split at hempty
    · rename_i hn
      rw [find?, if_pos hn] at h
      obtain rfl := Option.some.inj h
      rw [hn, hempty]
      rfl
    · cases hempty
  | folder n sub more =>
    rw [erase] at hempty
    split at hempty
    · rename_i hn
      rw [find?, if_pos hn] at h
      obtain rfl := Option.some.inj h
      rw [hn, hempty]
      rfl
    · cases hempty

theorem ne_empty_of_find? (h : l.find? name = some e) : l ≠ .empty := by
  rintro rfl
  cases h

end Listing

namespace Objects

theorem contents_fresh (os : Objects) (o : Nat) : contents (os ++ [[]]) o = os.contents o := by
  rw [contents, contents, List.getD_eq_getElem?_getD, List.getD_eq_getElem?_getD]
  rcases Nat.lt_or_ge o os.length with hlt | hge
  · rw [List.getElem?_append_left hlt]
  · rw [List.getElem?_append_right hge, List.getElem?_eq_none hge]
    cases o - os.length <;> rfl

theorem overwrite_fresh (os : Objects) (bs : Bytes) :
    overwrite (os ++ [[]]) os.length 0 bs = os ++ [bs] := by
  have hnew : contents (os ++ [[]]) os.length = [] := contents_allocate os []
  rw [overwrite, hnew, put, List.take_zero, List.nil_append, List.nil_append,
    Nat.zero_add, List.drop_eq_nil_of_le (by simp [zeros]), List.append_nil,
    List.set_append_right _ _ (Nat.le_refl _), Nat.sub_self]
  rfl

end Objects

/-- A path to an entry of the root. -/
structure Path.Topmost (q name : String) : Prop where
  components : Path.components q = [name]
  parentFile : Path.parentFile q = some ("/", name)

theorem Path.head?_components_root (name : String) : (Path.components "/").head? ≠ some name := by
  have hroot : Path.components "/" = [] := by decide
  rw [hroot]
  nofun

namespace FileSystem

variable {fs : FileSystem} {q p name below : String} {inside : Listing} {e : Entry} {o : Nat}

section Topmost

variable (hq : Path.Topmost q name)
include hq

theorem isDir_topmost :
    fs.isDir q = true ↔ ∃ inside, fs.root.find? name = some (.folder inside) := by
  rw [isDir, folder, hq.components, Listing.folderAt]
  rcases fs.root.find? name with _ | o | inside
  · simp [Except.isOk, Except.toBool]
  · simp [Except.isOk, Except.toBool]
  · simp [Except.isOk, Except.toBool, Listing.folderAt]

theorem mkdir_free (h : fs.root.find? name = none) :
    fs.mkdir q = (⟨.folder name .empty fs.root, fs.objects⟩, .ok ()) := by
  have hroot : fs.folder "/" = .ok fs.root := rfl
  simp only [mkdir, hq.parentFile, hroot, h]
  rfl

theorem mkdir_taken (h : fs.root.find? name = some e) :
    fs.mkdir q = (fs, .error .alreadyExists) := by
  have hroot : fs.folder "/" = .ok fs.root := rfl
  simp only [mkdir, hq.parentFile, hroot, h]

theorem rmdir_empty (h : fs.root.find? name = some (.folder .empty)) :
    fs.rmdir q = (⟨fs.root.erase name, fs.objects⟩, .ok ()) := by
  have hroot : fs.folder "/" = .ok fs.root := rfl
  simp only [rmdir, hq.parentFile, hroot, h]
  rfl

theorem rmdir_full (h : fs.root.find? name = some (.folder inside)) (hne : inside ≠ .empty) :
    fs.rmdir q = (fs, .error .directoryNotEmpty) := by
  have hroot : fs.folder "/" = .ok fs.root := rfl
  simp only [rmdir, hq.parentFile, hroot, h]

theorem entry_topmost : fs.entry q = match fs.root.find? name with
    | none => .error .notFound
    | some found => .ok found := by
  have hroot : fs.folder "/" = .ok fs.root := rfl
  cases hfound : fs.root.find? name <;> simp only [entry, hq.parentFile, hroot, hfound]

theorem fileExists_topmost : fs.fileExists q = (fs.root.find? name).isSome := by
  have hne : q ≠ "/" := by
    rintro rfl
    cases hq.parentFile
  rw [fileExists, decide_eq_false hne, Bool.false_or, entry_topmost hq]
  cases fs.root.find? name <;> rfl

theorem create_free (h : fs.root.find? name = none) :
    fs.create q = (⟨.file name fs.objects.length fs.root, fs.objects ++ [[]]⟩,
      .ok fs.objects.length) := by
  have hroot : fs.folder "/" = .ok fs.root := rfl
  simp only [create, hq.parentFile, hroot, h]
  rfl

theorem openFile_topmost : fs.openFile q = .ok o ↔ fs.root.find? name = some (.file o) := by
  rw [openFile, entry_topmost hq]
  rcases fs.root.find? name with _ | o' | inside <;> simp

theorem unlink_topmost (h : fs.root.find? name = some (.file o)) :
    fs.unlink q = (⟨fs.root.erase name, fs.objects⟩, .ok ()) := by
  have hroot : fs.folder "/" = .ok fs.root := rfl
  simp only [unlink, hq.parentFile, hroot, h]
  rfl

variable (h : fs.root.find? name = some (.folder inside))
include h

theorem folder_topmost : fs.folder q = .ok inside := by
  rw [folder, hq.components, Listing.folderAt, h]
  rfl

variable (hp : Path.parentFile p = some (q, below))
include hp

theorem openFile_below (hf : inside.find? below = some (.file o)) : fs.openFile p = .ok o := by
  simp only [openFile, entry, hp, folder_topmost hq h, hf]

theorem openFile_below_error (hf : ∀ o, inside.find? below ≠ some (.file o)) :
    ∃ e, fs.openFile p = .error e := by
  simp only [openFile, entry, hp, folder_topmost hq h]
  rcases hfound : inside.find? below with _ | o | sub
  · exact ⟨_, rfl⟩
  · exact absurd hfound (hf o)
  · exact ⟨_, rfl⟩

theorem unlink_below (hf : inside.find? below = some (.file o)) :
    fs.unlink p = (⟨fs.root.refill name (inside.erase below), fs.objects⟩, .ok ()) := by
  simp only [unlink, hp, folder_topmost hq h, hf, remove, hq.components, Listing.editAt, h]

end Topmost

/-- What is left of a file system when an entry of the root is gone, with all below it. -/
structure Without (fs : FileSystem) (name : String) (fs' : FileSystem) : Prop where
  root : fs'.root = fs.root.erase name
  gone : ∀ q, Path.Canonical q → (Path.components q).head? = some name →
    fs'.isDir q = false ∧ fs'.fileExists q = false
  kept : ∀ q, Path.Canonical q → (Path.components q).head? ≠ some name →
    fs'.isDir q = fs.isDir q ∧ fs'.fileExists q = fs.fileExists q ∧ fs'.fileBytes q = fs.fileBytes q

section Erase

variable {fs' : FileSystem} (hroot : fs'.root = fs.root.erase name)
include hroot

theorem folderAt_erase {first : String} (rest : List String) (hne : name ≠ first) :
    fs'.root.folderAt (first :: rest) = fs.root.folderAt (first :: rest) := by
  rw [hroot, Listing.folderAt, Listing.folderAt, Listing.find?_erase_of_ne _ _ _ hne]

theorem isDir_erase (hne : (Path.components q).head? ≠ some name) : fs'.isDir q = fs.isDir q := by
  rw [isDir, isDir, folder, folder]
  cases hc : Path.components q with
  | nil => rfl
  | cons first rest =>
    rw [hc] at hne
    rw [folderAt_erase hroot rest fun h => hne (congrArg some h.symm)]

theorem entry_erase (hq : Path.Canonical q) (hne : (Path.components q).head? ≠ some name) :
    fs'.entry q = fs.entry q := by
  rcases hq.root_or_concat with rfl | ⟨above, last, ha, hlast, rfl⟩
  · rfl
  · rw [Path.components_render _ (Path.proper_concat ha hlast)] at hne
    have hparent := Path.parentFile_render above last hlast
    have hdir := Shows.folder_render fs above ha
    have hdir' := Shows.folder_render fs' above ha
    cases above with
    | nil =>
      have hfind := Listing.find?_erase_of_ne fs.root name last fun h => hne (congrArg some h.symm)
      rw [← hroot] at hfind
      simp only [entry, hparent, hdir, hdir', Listing.folderAt, hfind]
    | cons first rest =>
      have hsame := folderAt_erase hroot rest fun h => hne (congrArg some h.symm)
      simp only [entry, hparent, hdir, hdir', hsame]

theorem isDir_erased (ht : fs.root.Tidy) (hq : (Path.components q).head? = some name) :
    fs'.isDir q = false := by
  rw [isDir, folder]
  cases hc : Path.components q with
  | nil =>
    rw [hc] at hq
    cases hq
  | cons first rest =>
    rw [hc] at hq
    obtain rfl := Option.some.inj hq
    rw [hroot, Listing.folderAt, ht.find?_erase first]
    rfl

theorem entry_erased (ht : fs.root.Tidy) (hq : Path.Canonical q)
    (hhead : (Path.components q).head? = some name) : fs'.entry q = .error .notFound := by
  rcases hq.root_or_concat with rfl | ⟨above, last, ha, hlast, rfl⟩
  · exact absurd hhead (Path.head?_components_root name)
  · rw [Path.components_render _ (Path.proper_concat ha hlast)] at hhead
    have hparent := Path.parentFile_render above last hlast
    have hdir := Shows.folder_render fs' above ha
    have hnone := ht.find?_erase name
    rw [← hroot] at hnone
    cases above with
    | nil =>
      obtain rfl := Option.some.inj hhead
      simp only [entry, hparent, hdir, Listing.folderAt, hnone]
    | cons first rest =>
      obtain rfl := Option.some.inj hhead
      simp only [entry, hparent, hdir, Listing.folderAt, hnone]

end Erase

theorem without_erase (hm : fs.Mapped) (name : String) (bs : Bytes) :
    fs.Without name ⟨fs.root.erase name, fs.objects ++ [bs]⟩ := by
  have ht : fs.root.Tidy := by
    obtain ⟨s, hs⟩ := hm
    exact hs.tidy
  refine ⟨rfl, fun q hq hhead => ?_, fun q hq hhead => ⟨isDir_erase rfl hhead, ?_, ?_⟩⟩
  · have hne : q ≠ "/" := by
      rintro rfl
      exact absurd hhead (Path.head?_components_root name)
    refine ⟨isDir_erased rfl ht hhead, ?_⟩
    rw [fileExists, entry_erased rfl ht hq hhead, decide_eq_false hne]
    rfl
  · rw [fileExists, fileExists, entry_erase rfl hq hhead]
  · have hopen : FileSystem.openFile ⟨fs.root.erase name, fs.objects ++ [bs]⟩ q =
        fs.openFile q := by
      rw [openFile, openFile, entry_erase rfl hq hhead]
    rw [fileBytes, fileBytes, hopen]
    cases ho : fs.openFile q with
    | error e => rfl
    | ok o => exact congrArg Except.ok (contents_concat _ _ (hm.lt_of_openFile hq ho))

end FileSystem

end KernelExam

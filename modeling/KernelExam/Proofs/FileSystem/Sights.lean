import KernelExam.Proofs.FileSystem.Handles

/-!
# What can be seen of a file system

Object numbers tell when a file was made, and nobody reads them off a path. What a path shows
is a directory, or a file with its contents. Two file systems that show the same everywhere
give the same answers.
-/

set_option autoImplicit false

namespace KernelExam

inductive Sight where
  | folder
  | file (contents : Bytes)
  deriving DecidableEq, Repr

def Kind.sight (os : Objects) : Kind → Sight
  | .folder => .folder
  | .file o => .file (os.contents o)

/-- What stands in the way of a walk, as far as it can be seen. -/
def Sight.obstacle? : Option Sight → Option FileError
  | some .folder => none
  | some (.file _) => some .notADirectory
  | none => some .notFound

def Sight.bytes : Option Sight → Except FileError Bytes
  | some .folder => .error .isADirectory
  | some (.file bs) => .ok bs
  | none => .error .notFound

def FileSystem.sight (fs : FileSystem) (place : List String) : Option Sight :=
  (fs.root.kindAt place).map (Kind.sight fs.objects)

namespace PathMap

def sight (s : PathMap) (place : List String) : Option Sight :=
  (s.kind place).map (Kind.sight s.objects)

variable {s s' : PathMap} {names place : List String} {bs : Bytes}

theorem sight_eq_folder_iff : s.sight place = some .folder ↔ s.kind place = some .folder := by
  rw [sight]
  rcases s.kind place with _ | _ | o
  · simp
  · simp [Kind.sight]
  · simp [Kind.sight]

theorem sight_eq_none_iff : s.sight place = none ↔ s.kind place = none := Option.map_eq_none_iff

theorem obstacle?_sight (place : List String) :
    Kind.obstacle? (s.kind place) = Sight.obstacle? (s.sight place) := by
  rw [sight]
  rcases s.kind place with _ | _ | o <;> rfl

theorem clear_iff : s.Clear names ↔
    ∀ above, above <+: names → ∀ bs, s.sight above ≠ some (.file bs) := by
  simp only [Clear, List.mem_inits]
  refine forall₂_congr fun above _ => ?_
  rcases hk : s.kind above with _ | _ | o
  · simp [sight, hk]
  · simp [sight, hk, Kind.sight]
  · simp [sight, hk, Kind.sight]

theorem sight_fill (h : s.Clear names) (place : List String) :
    (s.fill names).sight place = if place <+: names then some .folder else s.sight place := by
  rw [sight, s.kind_fill names place h, objects_fill]
  split <;> rfl

theorem sight_link (hn : names ≠ []) (hd : s.kind names.dropLast = some .folder)
    (hnone : s.kind names = none) (bs : Bytes) (place : List String) :
    ((s.allocate.link names (.file s.objects.length)).put s.objects.length bs).sight place =
      if place = names then some (.file bs) else s.sight place := by
  have hwithin : (Kind.file s.objects.length).Within s.allocate.objects.length := by
    simp [Kind.Within, allocate, Objects.allocate]
  have hobjects :
      ((s.allocate.link names (.file s.objects.length)).put s.objects.length bs).objects =
        (s.objects ++ [[]]).put s.objects.length bs := by
    show (s.allocate.link names (.file s.objects.length)).objects.put s.objects.length bs = _
    rw [objects_link]
    rfl
  rw [sight, hobjects, kind_put, s.allocate.kind_link names place _ hn hd hnone hwithin]
  split
  · have hnew : s.objects.length < (s.objects ++ [[]] : Objects).length := by simp
    rw [Option.map_some, Kind.sight, Objects.contents_put _ _ _ hnew]
  · rw [sight]
    show (s.kind place).map _ = _
    rcases hk : s.kind place with _ | _ | o
    · rfl
    · rfl
    · have ho : o < s.objects.length := s.grounded place _ hk
      rw [Option.map_some, Option.map_some, Kind.sight, Kind.sight,
        Objects.contents_put_of_ne _ _ _ _ (Nat.ne_of_gt ho), FileSystem.contents_concat _ _ ho]

theorem writeFile_new (hn : names ≠ []) (hclear : s.Clear names.dropLast)
    (hnone : s.sight names = none) (bs : Bytes) :
    ∃ s', s.writeFile names bs = (s', .ok ()) ∧ ∀ place, s'.sight place =
      if place = names then some (.file bs)
      else if place <+: names.dropLast then some .folder else s.sight place := by
  have hfolder : (s.fill names.dropLast).kind names.dropLast = some .folder := by
    rw [s.kind_fill _ _ hclear, if_pos List.prefix_rfl]
  have hfree : (s.fill names.dropLast).kind names = none := by
    rw [s.kind_fill _ _ hclear, if_neg, sight_eq_none_iff.mp hnone]
    intro hp
    have hle := hp.length_le
    have hpos := List.length_pos_iff.mpr hn
    rw [List.length_dropLast] at hle
    omega
  have hway := ((s.fill names.dropLast).obstacle?_eq_none_iff names).mpr hfolder
  refine ⟨((s.fill names.dropLast).allocate.link names
    (.file (s.fill names.dropLast).objects.length)).put (s.fill names.dropLast).objects.length bs,
    by simp only [writeFile, makeFolders, if_pos hclear, create, hway, hfree], fun place => ?_⟩
  rw [sight_link hn hfolder hfree, sight_fill hclear]

theorem writeFile_folder (h : s.sight names = some .folder) (bs : Bytes) :
    ∃ e, s.writeFile names bs = (s, .error e) := by
  rw [writeFile, makeFolders]
  by_cases hclear : s.Clear names.dropLast
  · have hfolder : (s.fill names.dropLast).kind names = some .folder := by
      rw [s.kind_fill _ _ hclear, sight_eq_folder_iff.mp h, ite_self]
    have hway := (s.fill names.dropLast).obstacle?_of_kind names _ hfolder
    exact ⟨.isADirectory, by simp only [if_pos hclear, create, hway, hfolder]⟩
  · exact ⟨.notADirectory, by simp only [if_neg hclear]⟩

theorem writeFile_blocked (h : ¬ s.Clear names.dropLast) (bs : Bytes) :
    s.writeFile names bs = (s, .error .notADirectory) := by
  simp only [writeFile, makeFolders, if_neg h]

theorem fileBytes_eq (s : PathMap) (names : List String) :
    s.fileBytes names = (s.obstacle? names).elim (Sight.bytes (s.sight names)) .error := by
  rw [fileBytes, openFile, sight]
  rcases s.obstacle? names with _ | e
  · rcases s.kind names with _ | _ | o <;> rfl
  · rfl

section Same

variable (h : ∀ place, s'.sight place = s.sight place)
include h

theorem obstacle?_of_sights (names : List String) : s'.obstacle? names = s.obstacle? names := by
  simp only [obstacle?, Kind.firstObstacle?, obstacle?_sight, h]

theorem fileBytes_of_sights (names : List String) : s'.fileBytes names = s.fileBytes names := by
  rw [fileBytes_eq, fileBytes_eq, obstacle?_of_sights h, h]

theorem isDir_of_sights (names : List String) : s'.isDir names = s.isDir names := by
  rw [isDir, isDir, Bool.eq_iff_iff, decide_eq_true_iff, decide_eq_true_iff,
    ← sight_eq_folder_iff, ← sight_eq_folder_iff, h]

theorem fileExists_of_sights (names : List String) : s'.fileExists names = s.fileExists names := by
  have hseen : ∀ s : PathMap, s.fileExists names = (s.sight names).isSome := fun s =>
    (Option.isSome_map ..).symm
  rw [hseen, hseen, h]

end Same

end PathMap

/-- The same directories, and the same files with the same contents. -/
structure FileSystem.Same (fs fs' : FileSystem) : Prop where
  sight : ∀ place, fs'.sight place = fs.sight place
  isDir : ∀ path, fs'.isDir path = fs.isDir path
  fileExists : ∀ path, Path.Canonical path → fs'.fileExists path = fs.fileExists path
  fileBytes : ∀ path, Path.Canonical path → fs'.fileBytes path = fs.fileBytes path

theorem FileSystem.Shows.sight {fs : FileSystem} {s : PathMap} (h : fs.Shows s)
    (place : List String) : fs.sight place = s.sight place := by
  rw [FileSystem.sight, h.kinds, h.objects, PathMap.sight]

theorem FileSystem.Same.of_sights {fs fs' : FileSystem} {s s' : PathMap} (hs : fs.Shows s)
    (hs' : fs'.Shows s') (h : ∀ place, s'.sight place = s.sight place) : fs.Same fs' where
  sight place := by rw [hs'.sight, hs.sight, h]
  isDir path := by rw [hs'.isDir, hs.isDir, PathMap.isDir_of_sights h]
  fileExists path hp := by rw [hs'.fileExists hp, hs.fileExists hp, PathMap.fileExists_of_sights h]
  fileBytes path hp := by rw [hs'.fileBytes hp, hs.fileBytes hp, PathMap.fileBytes_of_sights h]

end KernelExam

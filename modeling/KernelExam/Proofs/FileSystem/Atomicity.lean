import KernelExam.Proofs.FileSystem.Handles

/-!
# Operations succeed whole or not at all

An operation that answers with an error leaves the tree and all objects as they were, those
that no path leads to any more included. So a history tells the same file system with the
refused operations and without them. Paths may be any text here, canonical or not.
-/

set_option autoImplicit false

namespace KernelExam

def FileAnswer.refused : FileAnswer → Bool
  | .object (.error _) | .made (.error _) | .bytes (.error _) => true
  | _ => false

namespace FileSystem

/-- The acts that are not refused when they are done one after the other. -/
def effective : FileSystem → List FileAct → List FileAct
  | _, [] => []
  | fs, a :: rest =>
    if (fs.act a).2.refused then effective fs rest else a :: effective (fs.act a).1 rest

variable {fs : FileSystem}

theorem eq_of_made_refused {r : FileSystem × Except FileError Unit}
    (h : (FileAnswer.made r.2).refused = true) (he : ∀ fs' e, r = (fs', .error e) → fs' = fs) :
    r.1 = fs := by
  obtain ⟨fs', e | _⟩ := r
  · exact he fs' e rfl
  · cases h

theorem act_refused (a : FileAct) (h : (fs.act a).2.refused = true) : (fs.act a).1 = fs := by
  cases a with
  | append o bs => cases h
  | overwrite o position bs => cases h
  | operate op =>
    cases op with
    | create path =>
      simp only [act, perform] at h ⊢
      rcases hc : fs.create path with ⟨fs', e | o⟩
      · exact create_error hc
      · rw [hc] at h
        cases h
    | unlink path => exact eq_of_made_refused h fun _ _ => unlink_error
    | mkdir path => exact eq_of_made_refused h fun _ _ => mkdir_error
    | rmdir path => exact eq_of_made_refused h fun _ _ => rmdir_error
    | makeFolders path => exact eq_of_made_refused h fun _ _ => makeFolders_error
    | writeFile path bs => exact eq_of_made_refused h fun _ _ => writeFile_error
    | openFile path => rfl
    | fileBytes path => rfl
    | isDir path => rfl
    | fileExists path => rfl

theorem actAll_effective (fs : FileSystem) (acts : List FileAct) :
    fs.actAll (fs.effective acts) =
      ((fs.actAll acts).1, (fs.actAll acts).2.filter fun answer => !answer.refused) := by
  induction acts generalizing fs with
  | nil => rfl
  | cons a rest ih =>
    simp only [effective, actAll]
    cases hr : (fs.act a).2.refused with
    | true =>
      rw [if_pos rfl, ih, act_refused a hr, List.filter_cons_of_neg (by simp [hr])]
    | false =>
      rw [if_neg (by simp), actAll, ih, List.filter_cons_of_pos (by simp [hr])]

theorem makeFolders_refused_iff (fs : FileSystem) (path : String) :
    (FileAnswer.made (fs.makeFolders path).2).refused = true ↔
      ∃ above o, above <+: Path.components path ∧ fs.object? above = some o := by
  simp only [object?_eq_some_iff, makeFolders]
  rcases hm : fs.root.makeFolders (Path.components path) with ⟨root, _ | e⟩
  · refine iff_of_false (by simp [FileAnswer.refused]) ?_
    rintro ⟨above, o, hp, hk⟩
    rcases (Listing.makeFolders_ok _ _ _ hm).1 above hp with hfolder | hnone
    · rw [hfolder] at hk
      cases hk
    · rw [hnone] at hk
      cases hk
  · exact iff_of_true rfl (Listing.makeFolders_error _ _ _ _ hm).2.2

theorem kindAt_makeFolders {fs' : FileSystem} {path : String}
    (h : fs.makeFolders path = (fs', .ok ())) (place : List String) :
    fs'.root.kindAt place =
      if place <+: Path.components path then some .folder else fs.root.kindAt place := by
  rw [makeFolders] at h
  rcases hm : fs.root.makeFolders (Path.components path) with ⟨root, _ | e⟩
  · rw [hm] at h
    obtain rfl : { fs with root } = fs' := congrArg Prod.fst h
    exact (Listing.makeFolders_ok _ _ _ hm).2 place
  · rw [hm] at h
    cases h

theorem folder_of_makeFolders {fs' : FileSystem} {path : String}
    (h : fs.makeFolders path = (fs', .ok ())) : ∃ dir, fs'.folder path = .ok dir := by
  have hok := Listing.isOk_folderAt (Path.components path) fs'.root
  rw [kindAt_makeFolders h, if_pos List.prefix_rfl] at hok
  cases hd : fs'.folder path with
  | ok dir => exact ⟨dir, rfl⟩
  | error e =>
    rw [show fs'.root.folderAt (Path.components path) = .error e from hd] at hok
    cases hok

theorem writeFile_refused_iff (path : String) (bs : Bytes) :
    (FileAnswer.made (fs.writeFile path bs).2).refused = true ↔
      ∀ place, Path.place? path = some place →
        (∃ above o, above <+: place.dropLast ∧ fs.object? above = some o) ∨
          fs.root.kindAt place = some .folder := by
  cases hp : Path.parentFile path with
  | none => exact iff_of_true (by rw [writeFile, hp]; rfl) (by simp [Path.place?, hp])
  | some found =>
    obtain ⟨parent, name⟩ := found
    have hplace : Path.place? path = some (Path.components parent ++ [name]) := by
      rw [Path.place?, hp]
      rfl
    have hfolders := fs.makeFolders_refused_iff parent
    simp only [hplace, Option.some.injEq, forall_eq', List.dropLast_concat, ← hfolders]
    rcases hm : fs.makeFolders parent with ⟨fs₁, e | _⟩
    · simp [writeFile, hp, hm, FileAnswer.refused]
    · have hkinds := kindAt_makeFolders hm
      have hplace_kind := hkinds (Path.components parent ++ [name])
      rw [if_neg fun h => absurd h.length_le (by simp)] at hplace_kind
      obtain ⟨dir, hd⟩ := folder_of_makeFolders hm
      have hk := Listing.kindAt_of_folderAt _ [name] fs₁.root dir hd
      rw [hplace_kind, Listing.kindAt_singleton] at hk
      simp only [writeFile, hp, hm, create, hd, hk]
      rcases dir.find? name with _ | o | inside
      · simp [FileAnswer.refused]
      · simp [FileAnswer.refused, Entry.kind]
      · simp [FileAnswer.refused, Entry.kind]

/-- What holds of operations that answer with an error, and of the folders that a deep path
needs. -/
structure Atomic (fs : FileSystem) : Prop where
  /-- The whole tree and every object, named or not, stay as they are. -/
  refused : ∀ op, (fs.perform op).2.refused = true → (fs.perform op).1 = fs
  /-- Folders are refused for a file that stands on the way, and for nothing else. -/
  folders : ∀ path, (fs.perform (.makeFolders path)).2.refused = true ↔
    ∃ above o, above <+: Path.components path ∧ fs.object? above = some o
  file : ∀ path bs, (fs.perform (.writeFile path bs)).2.refused = true ↔
    ∀ place, Path.place? path = some place →
      (∃ above o, above <+: place.dropLast ∧ fs.object? above = some o) ∨
        fs.root.kindAt place = some .folder
  /-- Whatever is done from here on, the acts that are refused might be left out. -/
  skipped : ∀ later, fs.actAll (fs.effective later) =
    ((fs.actAll later).1, (fs.actAll later).2.filter fun answer => !answer.refused)

/-- Every operation is atomic on error. -/
theorem operations_atomic (fs : FileSystem) : fs.Atomic where
  refused op := act_refused (.operate op)
  folders := fs.makeFolders_refused_iff
  file := writeFile_refused_iff
  skipped := actAll_effective fs

/-- A file at the end of a deep path, and odd paths, once `/a/f` is a file. -/
example :
    let fs := (empty.perform (.writeFile "/a/f" [1])).1
    ["/a/f/b/x", "/b/c/x", "/a", "/a/", "//a", "a", ""].map
        (fun path => (fs.perform (.writeFile path [2])).2.refused) =
      [true, false, true, false, true, true, true] := by
  decide

end FileSystem

end KernelExam

import KernelExam.FileSystem.Basic
import KernelExam.Proofs.FileSystem.PathMap
import KernelExam.Proofs.Path.Canonical

/-!
# The tree of listings shows a path map

One relation between a file system and a path map is kept by every operation on
a canonical path, and the two give the same answer. A sequence of operations
from the empty file system can therefore not be told from the same sequence on
the flat map.
-/

set_option autoImplicit false

namespace KernelExam

structure FileSystem.Shows (fs : FileSystem) (s : PathMap) : Prop where
  tidy : fs.root.Tidy
  kinds : ∀ names, fs.root.kindAt names = s.kind names
  objects : fs.objects = s.objects

/-- The same answer, and file systems that still belong together. -/
structure Agree {α : Type} (tree : FileSystem × α) (flat : PathMap × α) : Prop where
  answer : tree.2 = flat.2
  shows : tree.1.Shows flat.1

theorem Agree.map {α β : Type} {tree : FileSystem × α} {flat : PathMap × α} (f : α → β)
    (h : Agree tree flat) : Agree (tree.1, f tree.2) (flat.1, f flat.2) :=
  ⟨congrArg f h.answer, h.shows⟩

namespace PathMap

theorem kind_root (s : PathMap) : s.kind (Path.components "/") = some .folder := s.kind_nil

theorem obstacle?_root (s : PathMap) : s.obstacle? (Path.components "/") = none :=
  s.obstacle?_of_kind _ _ s.kind_root

end PathMap

namespace FileSystem.Shows

variable {fs : FileSystem} {s : PathMap}

theorem empty : FileSystem.empty.Shows PathMap.empty where
  tidy := trivial
  kinds names := by
    by_cases h : names = []
    · rw [h, PathMap.kind_nil]
      rfl
    · rw [Eq.comm, FileSystem.empty, Listing.kindAt_empty names h, PathMap.kind_eq_none_iff]
      exact fun hm => h ((Finmap.mem_singleton _ _ _).mp hm)
  objects := rfl

theorem folder_render (fs : FileSystem) (names : List String) (hn : ∀ n ∈ names, Path.Proper n) :
    fs.folder (Path.render names) = fs.root.folderAt names := by
  rw [FileSystem.folder, Path.components_render names hn]

theorem firstObstacle? (h : fs.Shows s) (names : List String) :
    Kind.firstObstacle? s.kind names = FileError.of? (fs.root.folderAt names) := by
  rw [← fs.root.firstObstacle?_kindAt, show fs.root.kindAt = s.kind from funext h.kinds]

theorem obstacle? (h : fs.Shows s) (above : List String) (name : String) :
    s.obstacle? (above ++ [name]) = FileError.of? (fs.root.folderAt above) := by
  rw [PathMap.obstacle?, List.dropLast_concat, h.firstObstacle?]

theorem kind_below (h : fs.Shows s) {above : List String} {dir : Listing}
    (hd : fs.root.folderAt above = .ok dir) (more : List String) :
    s.kind (above ++ more) = dir.kindAt more := by
  rw [← h.kinds, Listing.kindAt_of_folderAt above more fs.root dir hd]

theorem kind_concat (h : fs.Shows s) {above : List String} {dir : Listing}
    (hd : fs.root.folderAt above = .ok dir) (name : String) :
    s.kind (above ++ [name]) = (dir.find? name).map Entry.kind := by
  rw [h.kind_below hd, Listing.kindAt_singleton]

theorem kind_folder (h : fs.Shows s) {above : List String} {dir : Listing}
    (hd : fs.root.folderAt above = .ok dir) : s.kind above = some .folder := by
  simpa [Listing.kindAt] using h.kind_below hd []

theorem put (h : fs.Shows s) (o : Nat) (bs : Bytes) :
    FileSystem.Shows { fs with objects := fs.objects.put o bs } (s.put o bs) where
  tidy := h.tidy
  kinds := h.kinds
  objects := by rw [h.objects]; rfl

theorem allocate (h : fs.Shows s) :
    FileSystem.Shows { fs with objects := (fs.objects.allocate []).1 } s.allocate where
  tidy := h.tidy
  kinds := h.kinds
  objects := by rw [h.objects]; rfl

theorem insert (h : fs.Shows s) {above : List String} {dir : Listing} {name : String} {e : Entry}
    (hp : ∀ n ∈ above, Path.Proper n) (hd : fs.root.folderAt above = .ok dir)
    (hn : dir.find? name = none) (he : ∀ inside, e = .folder inside → inside = .empty)
    (hk : e.kind.Within s.objects.length) :
    (fs.insert (Path.render above) name e).Shows (s.link (above ++ [name]) e.kind) where
  tidy := by
    rw [FileSystem.insert, Path.components_render above hp]
    refine h.tidy.editAt hd ?_
    have ht := h.tidy.folderAt hd
    cases e with
    | file o => exact ht.add_file name o hn
    | folder inside =>
      obtain rfl := he inside rfl
      have hempty : Listing.empty.Tidy := trivial
      exact ht.add_folder hempty name hn
  kinds place := by
    rw [FileSystem.insert, Path.components_render above hp]
    have hfree : s.kind (above ++ [name]) = none := by rw [h.kind_concat hd, hn]; rfl
    rw [s.kind_link _ place _ (by simp) (by simpa using h.kind_folder hd) hfree hk,
      Listing.kindAt_link hd hn he, h.kinds]
  objects := by rw [PathMap.objects_link, ← h.objects]; rfl

theorem remove (h : fs.Shows s) {above : List String} {dir : Listing} {name : String}
    (hp : ∀ n ∈ above, Path.Proper n) (hd : fs.root.folderAt above = .ok dir)
    (hc : s.Childless (above ++ [name])) :
    (fs.remove (Path.render above) name).Shows (s.forget (above ++ [name])) where
  tidy := by
    rw [FileSystem.remove, Path.components_render above hp]
    exact h.tidy.editAt hd ((h.tidy.folderAt hd).erase name)
  kinds place := by
    have hbelow : ∀ next more, fs.root.kindAt (above ++ name :: next :: more) = none := by
      intro next more
      rw [h.kinds]
      by_contra hk
      obtain ⟨k, hk⟩ := Option.ne_none_iff_exists'.mp hk
      have hne := (s.childless_iff _).mp hc next
      by_cases hm : more = []
      · subst hm
        simp [hk] at hne
      · have hpre := s.kind_prefix _ (above ++ [name] ++ [next]) k hk
          ⟨more, by simp⟩ (by simpa using Ne.symm hm)
        exact absurd (hpre.symm.trans hne) (by simp)
    rw [FileSystem.remove, Path.components_render above hp, s.kind_forget _ place (by simp) hc,
      h.tidy.kindAt_unlink hd hbelow, h.kinds]
  objects := by rw [PathMap.objects_forget, ← h.objects]; rfl

/-- Looking up the parent of a place: either something stands in the way, in the
tree as in the map, or the parent's listing has what the map has at the place. -/
theorem parent_cases (h : fs.Shows s) {above : List String} (ha : ∀ n ∈ above, Path.Proper n)
    (name : String) :
    (∃ e, fs.folder (Path.render above) = .error e ∧ s.obstacle? (above ++ [name]) = some e) ∨
    ∃ dir, fs.folder (Path.render above) = .ok dir ∧ fs.root.folderAt above = .ok dir ∧
      s.obstacle? (above ++ [name]) = none ∧
      s.kind (above ++ [name]) = (dir.find? name).map Entry.kind := by
  rw [folder_render fs above ha, h.obstacle?]
  cases hd : fs.root.folderAt above with
  | error e => exact Or.inl ⟨e, rfl, rfl⟩
  | ok dir => exact Or.inr ⟨dir, rfl, rfl, rfl, h.kind_concat hd name⟩

theorem create (h : fs.Shows s) {path : String} (hp : Path.Canonical path) :
    Agree (fs.create path) (s.create (Path.components path)) := by
  rcases hp.root_or_concat with rfl | ⟨above, name, ha, hname, rfl⟩
  · simp only [PathMap.create, s.obstacle?_root, s.kind_root]
    exact ⟨rfl, h⟩
  rw [Path.components_render _ (Path.proper_concat ha hname)]
  rcases h.parent_cases ha name with ⟨e, hd, ho⟩ | ⟨dir, hd, hdir, ho, hk⟩
  · simp only [FileSystem.create, Path.parentFile_render above name hname, hd, PathMap.create, ho]
    exact ⟨rfl, h⟩
  · simp only [FileSystem.create, Path.parentFile_render above name hname, hd, PathMap.create, ho]
    cases hf : dir.find? name with
    | none =>
      rw [hf] at hk
      simp only [hk, Option.map_none]
      refine ⟨congrArg (Except.ok ∘ List.length) h.objects, ?_⟩
      have hmade := h.allocate.insert ha hdir hf (e := .file fs.objects.length)
        (by simp) (by simp [Entry.kind, Kind.Within, PathMap.allocate, Objects.allocate, h.objects])
      simpa [Entry.kind, h.objects, Objects.allocate] using hmade
    | some e =>
      rw [hf] at hk
      cases e with
      | file o =>
        simp only [hk, Option.map_some, Entry.kind]
        exact ⟨rfl, h.put o []⟩
      | folder inside =>
        simp only [hk, Option.map_some, Entry.kind]
        exact ⟨rfl, h⟩

theorem openFile (h : fs.Shows s) {path : String} (hp : Path.Canonical path) :
    fs.openFile path = s.openFile (Path.components path) := by
  rcases hp.root_or_concat with rfl | ⟨above, name, ha, hname, rfl⟩
  · simp only [PathMap.openFile, s.obstacle?_root, s.kind_root]
    rfl
  rw [Path.components_render _ (Path.proper_concat ha hname)]
  rcases h.parent_cases ha name with ⟨e, hd, ho⟩ | ⟨dir, hd, -, ho, hk⟩
  · simp only [FileSystem.openFile, FileSystem.entry, Path.parentFile_render above name hname, hd,
      PathMap.openFile, ho]
  · simp only [FileSystem.openFile, FileSystem.entry, Path.parentFile_render above name hname, hd,
      PathMap.openFile, ho, hk]
    rcases dir.find? name with _ | _ | _ <;> rfl

theorem unlink (h : fs.Shows s) {path : String} (hp : Path.Canonical path) :
    Agree (fs.unlink path) (s.unlink (Path.components path)) := by
  rcases hp.root_or_concat with rfl | ⟨above, name, ha, hname, rfl⟩
  · simp only [PathMap.unlink, s.obstacle?_root, s.kind_root]
    exact ⟨rfl, h⟩
  rw [Path.components_render _ (Path.proper_concat ha hname)]
  rcases h.parent_cases ha name with ⟨e, hd, ho⟩ | ⟨dir, hd, hdir, ho, hk⟩
  · simp only [FileSystem.unlink, Path.parentFile_render above name hname, hd, PathMap.unlink, ho]
    exact ⟨rfl, h⟩
  · simp only [FileSystem.unlink, Path.parentFile_render above name hname, hd, PathMap.unlink, ho]
    cases hf : dir.find? name with
    | none =>
      rw [hf] at hk
      simp only [hk, Option.map_none]
      exact ⟨rfl, h⟩
    | some e =>
      rw [hf] at hk
      cases e with
      | file o =>
        have hc := s.childless_of_file _ o hk
        simp only [hk, Option.map_some, Entry.kind]
        exact ⟨rfl, h.remove ha hdir hc⟩
      | folder inside =>
        simp only [hk, Option.map_some, Entry.kind]
        exact ⟨rfl, h⟩

theorem mkdir (h : fs.Shows s) {path : String} (hp : Path.Canonical path) :
    Agree (fs.mkdir path) (s.mkdir (Path.components path)) := by
  rcases hp.root_or_concat with rfl | ⟨above, name, ha, hname, rfl⟩
  · simp only [PathMap.mkdir, s.obstacle?_root, s.kind_root]
    exact ⟨rfl, h⟩
  rw [Path.components_render _ (Path.proper_concat ha hname)]
  rcases h.parent_cases ha name with ⟨e, hd, ho⟩ | ⟨dir, hd, hdir, ho, hk⟩
  · simp only [FileSystem.mkdir, Path.parentFile_render above name hname, hd, PathMap.mkdir, ho]
    exact ⟨rfl, h⟩
  · simp only [FileSystem.mkdir, Path.parentFile_render above name hname, hd, PathMap.mkdir, ho]
    cases hf : dir.find? name with
    | none =>
      rw [hf] at hk
      simp only [hk, Option.map_none]
      exact ⟨rfl, h.insert ha hdir hf (e := .folder .empty) (by simp) trivial⟩
    | some e =>
      rw [hf] at hk
      simp only [hk, Option.map_some]
      exact ⟨rfl, h⟩

theorem rmdir (h : fs.Shows s) {path : String} (hp : Path.Canonical path) :
    Agree (fs.rmdir path) (s.rmdir (Path.components path)) := by
  rcases hp.root_or_concat with rfl | ⟨above, name, ha, hname, rfl⟩
  · exact ⟨rfl, h⟩
  rw [Path.components_render _ (Path.proper_concat ha hname)]
  simp only [FileSystem.rmdir, Path.parentFile_render above name hname, PathMap.rmdir,
    List.append_eq_nil_iff, List.cons_ne_self, and_false, if_false]
  rcases h.parent_cases ha name with ⟨e, hd, ho⟩ | ⟨dir, hd, hdir, ho, hk⟩
  · simp only [hd, ho]
    exact ⟨rfl, h⟩
  · simp only [hd, ho]
    cases hf : dir.find? name with
    | none =>
      rw [hf] at hk
      simp only [hk, Option.map_none]
      exact ⟨rfl, h⟩
    | some e =>
      rw [hf] at hk
      cases e with
      | file o =>
        simp only [hk, Option.map_some, Entry.kind]
        exact ⟨rfl, h⟩
      | folder inside =>
        have hc : s.Childless (above ++ [name]) ↔ inside = .empty := by
          rw [s.childless_iff, inside.eq_empty_iff]
          refine forall_congr' fun n => ?_
          rw [List.append_assoc, List.singleton_append, h.kind_below hdir,
            Listing.kindAt_folder dir inside name [n] hf]
        simp only [hk, Option.map_some, Entry.kind]
        by_cases he : inside = .empty
        · subst he
          rw [if_pos (hc.mpr rfl)]
          exact ⟨rfl, h.remove ha hdir (hc.mpr rfl)⟩
        · rw [if_neg (fun hs => he (hc.mp hs))]
          cases inside with
          | empty => exact absurd rfl he
          | file n o more => exact ⟨rfl, h⟩
          | folder n sub more => exact ⟨rfl, h⟩

theorem isDir (h : fs.Shows s) (path : String) : fs.isDir path = s.isDir (Path.components path) := by
  rw [FileSystem.isDir, FileSystem.folder, Listing.isOk_folderAt, h.kinds, PathMap.isDir]

theorem fileExists (h : fs.Shows s) {path : String} (hp : Path.Canonical path) :
    fs.fileExists path = s.fileExists (Path.components path) := by
  rcases hp.root_or_concat with rfl | ⟨above, name, ha, hname, rfl⟩
  · rw [PathMap.fileExists, s.kind_root]
    rfl
  rw [Path.components_render _ (Path.proper_concat ha hname), PathMap.fileExists,
    FileSystem.fileExists, decide_eq_false (Path.render_concat_ne_root above name hname),
    Bool.false_or, FileSystem.entry]
  simp only [Path.parentFile_render above name hname]
  rcases h.parent_cases ha name with ⟨e, hd, ho⟩ | ⟨dir, hd, -, -, hk⟩
  · have hk : s.kind (above ++ [name]) = none := by
      by_contra hc
      obtain ⟨k, hk⟩ := Option.ne_none_iff_exists'.mp hc
      exact absurd (ho.symm.trans (s.obstacle?_of_kind _ k hk)) (by simp)
    rw [hd, hk]
    rfl
  · simp only [hd]
    rw [hk]
    rcases dir.find? name with _ | e
    · rfl
    · rfl

theorem makeFolders (h : fs.Shows s) {names : List String} (hn : ∀ n ∈ names, Path.Proper n) :
    Agree (fs.makeFolders (Path.render names)) (s.makeFolders names) := by
  rw [FileSystem.makeFolders, Path.components_render names hn, PathMap.makeFolders]
  rcases hr : fs.root.makeFolders names with ⟨l, _ | e⟩
  · obtain ⟨hfree, hkind⟩ := Listing.makeFolders_ok names fs.root l hr
    have hclear : s.Clear names := by
      intro above ha
      rw [← h.kinds]
      exact hfree above ((List.mem_inits _ _).mp ha)
    rw [if_pos hclear]
    refine ⟨rfl, ?_, ?_, ?_⟩
    · have ht := h.tidy.makeFolders names
      rw [hr] at ht
      exact ht
    · intro place
      rw [s.kind_fill names place hclear, ← h.kinds]
      exact hkind place
    · rw [PathMap.objects_fill, ← h.objects]
  · obtain ⟨rfl, rfl, above, o, hpre, hfile⟩ := Listing.makeFolders_error names fs.root l e hr
    have hblocked : ¬ s.Clear names := by
      intro hclear
      rcases hclear above ((List.mem_inits _ _).mpr hpre) with hf | hf
      · rw [← h.kinds, hfile] at hf
        cases hf
      · rw [← h.kinds, hfile] at hf
        cases hf
    rw [if_neg hblocked]
    exact ⟨rfl, h⟩

theorem append (h : fs.Shows s) {o : Nat} (ho : s.objects.contents o = []) (bs : Bytes) :
    FileSystem.Shows { fs with objects := fs.objects.append o bs } (s.put o bs) := by
  rw [Objects.append, h.objects, ho, List.nil_append, ← h.objects]
  exact h.put o bs

theorem writeFile (h : fs.Shows s) {path : String} (hp : Path.Canonical path) (bs : Bytes) :
    Agree (fs.writeFile path bs) (s.writeFile (Path.components path) bs) := by
  rcases hp.root_or_concat with rfl | ⟨above, name, ha, hname, rfl⟩
  · have hclear : s.Clear [] := by
      intro above ha
      obtain rfl : above = [] := by simpa using ha
      exact Or.inl s.kind_nil
    have hk : (s.fill []).kind [] = some .folder := (s.fill []).kind_nil
    show Agree _ (s.writeFile [] bs)
    simp only [PathMap.writeFile, PathMap.makeFolders, List.dropLast_nil, if_pos hclear,
      PathMap.create, PathMap.obstacle?_of_kind _ _ _ hk, hk]
    exact ⟨rfl, h⟩
  have hcomp := Path.components_render _ (Path.proper_concat ha hname)
  have hfolders := h.makeFolders ha
  simp only [hcomp, FileSystem.writeFile, Path.parentFile_render above name hname,
    PathMap.writeFile, List.dropLast_concat]
  rcases hm : fs.makeFolders (Path.render above) with ⟨fs₁, e | _⟩ <;>
    rcases hs : s.makeFolders above with ⟨s₁, e' | _⟩ <;> rw [hm, hs] at hfolders
  · obtain rfl := PathMap.makeFolders_error hs
    exact ⟨congrArg (fun r => Except.error r) (Except.error.inj hfolders.answer), hfolders.shows⟩
  · exact absurd hfolders.answer (by simp)
  · exact absurd hfolders.answer (by simp)
  · obtain ⟨hclear, rfl⟩ := PathMap.makeFolders_ok hs
    have hcreate := hfolders.shows.create hp
    rw [hcomp] at hcreate
    dsimp only at hcreate ⊢
    rcases hf : fs₁.create (Path.render (above ++ [name])) with ⟨fs₂, e | o⟩ <;>
      rcases hg : (s.fill above).create (above ++ [name]) with ⟨s₂, e' | o'⟩ <;>
      rw [hf, hg] at hcreate
    · obtain ⟨hkinds, hobjects⟩ := PathMap.create_fill_error hclear hg
      have hshows := hcreate.shows
      refine ⟨congrArg Except.error (Except.error.inj hcreate.answer), hshows.tidy, ?_, ?_⟩
      · intro names
        rw [hshows.kinds, hkinds]
      · rw [hshows.objects, hobjects]
    · exact absurd hcreate.answer (by simp)
    · exact absurd hcreate.answer (by simp)
    · obtain rfl : o = o' := Except.ok.inj hcreate.answer
      exact ⟨rfl, hcreate.shows.append (PathMap.create_ok hg).2.1 bs⟩

theorem fileBytes (h : fs.Shows s) {path : String} (hp : Path.Canonical path) :
    fs.fileBytes path = s.fileBytes (Path.components path) := by
  rw [FileSystem.fileBytes, h.openFile hp, h.objects, PathMap.fileBytes]

end FileSystem.Shows

end KernelExam

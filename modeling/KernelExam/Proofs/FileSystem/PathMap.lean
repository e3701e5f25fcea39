import KernelExam.FileSystem.Objects
import KernelExam.Proofs.FileSystem.Listing
import Mathlib.Data.Finmap

/-!
# The file system as one flat map

A path map is a finite map from lists of names to kinds that has the root, holds
with every place the folder above it, and names only objects that are there. The
operations look places up in the whole map at once and walk down nothing; they
say what an operation on files means, the refusals included.
-/

set_option autoImplicit false

namespace KernelExam

def Kind.Within (n : Nat) : Kind → Prop
  | .folder => True
  | .file o => o < n

instance (n : Nat) (k : Kind) : Decidable (k.Within n) :=
  match k with
  | .folder => inferInstanceAs (Decidable True)
  | .file o => inferInstanceAs (Decidable (o < n))

theorem Kind.Within.mono {m n : Nat} {k : Kind} (h : k.Within m) (hmn : m ≤ n) : k.Within n := by
  cases k with
  | folder => trivial
  | file o => exact Nat.lt_of_lt_of_le h hmn

structure PathMap where
  kinds : Finmap fun _ : List String => Kind
  objects : Objects
  root : kinds.lookup [] = some .folder
  closed : ∀ names ∈ kinds, names ≠ [] → kinds.lookup names.dropLast = some .folder
  grounded : ∀ names k, kinds.lookup names = some k → k.Within objects.length

namespace PathMap

def kind (s : PathMap) (names : List String) : Option Kind := s.kinds.lookup names

def empty : PathMap where
  kinds := Finmap.singleton [] .folder
  objects := []
  root := Finmap.lookup_singleton_eq
  closed := by
    intro names hn h
    exact absurd ((Finmap.mem_singleton _ _ _).mp hn) h
  grounded := by
    intro names k h
    have hm : names ∈ (Finmap.singleton [] .folder : Finmap fun _ : List String => Kind) :=
      Finmap.mem_iff.mpr ⟨k, h⟩
    rw [(Finmap.mem_singleton _ _ _).mp hm, Finmap.lookup_singleton_eq] at h
    obtain rfl := Option.some.inj h
    trivial

def obstacle? (s : PathMap) (names : List String) : Option FileError :=
  Kind.firstObstacle? s.kind names.dropLast

def Childless (s : PathMap) (names : List String) : Prop :=
  ∀ place ∈ s.kinds.keys, place ≠ [] → place.dropLast ≠ names

instance (s : PathMap) (names : List String) : Decidable (s.Childless names) :=
  inferInstanceAs (Decidable (∀ place ∈ s.kinds.keys, _))

/-- No file lies on the way along some names, their end included. -/
def Clear (s : PathMap) (names : List String) : Prop :=
  ∀ above ∈ names.inits, s.kind above = some .folder ∨ s.kind above = none

instance (s : PathMap) (names : List String) : Decidable (s.Clear names) :=
  inferInstanceAs (Decidable (∀ above ∈ names.inits, _))

def put (s : PathMap) (o : Nat) (bs : Bytes) : PathMap where
  kinds := s.kinds
  objects := s.objects.put o bs
  root := s.root
  closed := s.closed
  grounded names k h := by simpa [Objects.put] using s.grounded names k h

/-- One more object, with nothing in it and no name yet. -/
def allocate (s : PathMap) : PathMap where
  kinds := s.kinds
  objects := (s.objects.allocate []).1
  root := s.root
  closed := s.closed
  grounded names k h := (s.grounded names k h).mono (by simp [Objects.allocate])

def link (s : PathMap) (names : List String) (k : Kind) : PathMap :=
  if h : names ≠ [] ∧ s.kind names.dropLast = some .folder ∧ s.kind names = none ∧
      k.Within s.objects.length then
    { kinds := s.kinds.insert names k
      objects := s.objects
      root := by rw [Finmap.lookup_insert_of_ne _ (Ne.symm h.1)]; exact s.root
      closed := by
        intro place hp hne
        have hd : s.kinds.lookup place.dropLast = some .folder := by
          rcases Finmap.mem_insert.mp hp with rfl | hp
          · exact h.2.1
          · exact s.closed place hp hne
        have hn : place.dropLast ≠ names := by
          rintro he
          rw [he] at hd
          exact absurd (hd.symm.trans h.2.2.1) (by simp)
        rw [Finmap.lookup_insert_of_ne _ hn, hd]
      grounded := by
        intro place k' hk
        by_cases hp : place = names
        · rw [hp, Finmap.lookup_insert] at hk
          obtain rfl := Option.some.inj hk
          exact h.2.2.2
        · rw [Finmap.lookup_insert_of_ne _ hp] at hk
          exact s.grounded place k' hk }
  else s

def forget (s : PathMap) (names : List String) : PathMap :=
  if h : names ≠ [] ∧ s.Childless names then
    { kinds := s.kinds.erase names
      objects := s.objects
      root := by rw [Finmap.lookup_erase_ne (Ne.symm h.1)]; exact s.root
      closed := by
        intro place hp hne
        have hm := (Finmap.mem_erase.mp hp).2
        rw [Finmap.lookup_erase_ne (h.2 place (Finmap.mem_keys.mpr hm) hne)]
        exact s.closed place hm hne
      grounded := by
        intro place k hk
        by_cases hp : place = names
        · rw [hp, Finmap.lookup_erase] at hk
          cases hk
        · rw [Finmap.lookup_erase_ne hp] at hk
          exact s.grounded place k hk }
  else s

def folders (places : List (List String)) : Finmap fun _ : List String => Kind :=
  places.foldr (fun place m => m.insert place .folder) ∅

theorem lookup_folders (places : List (List String)) (place : List String) :
    (folders places).lookup place = if place ∈ places then some .folder else none := by
  induction places with
  | nil => rfl
  | cons p places ih =>
    rw [folders, List.foldr_cons, ← folders]
    by_cases h : place = p
    · rw [h, Finmap.lookup_insert, if_pos (by simp)]
    · rw [Finmap.lookup_insert_of_ne _ h, ih]
      simp [h]

theorem lookup_union_folders (m : Finmap fun _ : List String => Kind)
    (places : List (List String)) (place : List String) :
    (m ∪ folders places).lookup place =
      if place ∈ m then m.lookup place
      else if place ∈ places then some .folder else none := by
  by_cases h : place ∈ m
  · rw [if_pos h, Finmap.lookup_union_left h]
  · rw [if_neg h, Finmap.lookup_union_right h, lookup_folders]

theorem kind_eq_none_iff (s : PathMap) (names : List String) :
    s.kind names = none ↔ names ∉ s.kinds := Finmap.lookup_eq_none

/-- The folders that are missing along some names, all at once. -/
def fill (s : PathMap) (names : List String) : PathMap :=
  if h : s.Clear names then
    { kinds := s.kinds ∪ folders names.inits
      objects := s.objects
      root := by
        rw [Finmap.lookup_union_left (Finmap.mem_iff.mpr ⟨_, s.root⟩)]
        exact s.root
      closed := by
        intro place hp hne
        rcases Finmap.mem_union.mp hp with hp | hp
        · have hd := s.closed place hp hne
          rw [Finmap.lookup_union_left (Finmap.mem_iff.mpr ⟨_, hd⟩), hd]
        · obtain ⟨k, hk⟩ := Finmap.mem_iff.mp hp
          have hm : place ∈ names.inits := by
            by_contra hc
            simp [lookup_folders, hc] at hk
          have hd : place.dropLast ∈ names.inits :=
            (List.mem_inits _ _).mpr
              ((List.dropLast_prefix place).trans ((List.mem_inits _ _).mp hm))
          rw [lookup_union_folders, if_pos hd]
          split
          · rename_i hin
            rcases h _ hd with hf | hf
            · exact hf
            · exact absurd hin ((kind_eq_none_iff s _).mp hf)
          · rfl
      grounded := by
        intro place k hk
        rw [lookup_union_folders] at hk
        split at hk
        · exact s.grounded place k hk
        · split at hk
          · obtain rfl := Option.some.inj hk
            trivial
          · cases hk }
  else s

def create (s : PathMap) (names : List String) : PathMap × Except FileError Nat :=
  match s.obstacle? names, s.kind names with
  | some e, _ => (s, .error e)
  | none, some .folder => (s, .error .isADirectory)
  | none, some (.file o) => (s.put o [], .ok o)
  | none, none => (s.allocate.link names (.file s.objects.length), .ok s.objects.length)

def openFile (s : PathMap) (names : List String) : Except FileError Nat :=
  match s.obstacle? names, s.kind names with
  | some e, _ => .error e
  | none, some .folder => .error .isADirectory
  | none, some (.file o) => .ok o
  | none, none => .error .notFound

def unlink (s : PathMap) (names : List String) : PathMap × Except FileError Unit :=
  match s.obstacle? names, s.kind names with
  | some e, _ => (s, .error e)
  | none, some .folder => (s, .error .isADirectory)
  | none, some (.file _) => (s.forget names, .ok ())
  | none, none => (s, .error .notFound)

def mkdir (s : PathMap) (names : List String) : PathMap × Except FileError Unit :=
  match s.obstacle? names, s.kind names with
  | some e, _ => (s, .error e)
  | none, some _ => (s, .error .alreadyExists)
  | none, none => (s.link names .folder, .ok ())

def rmdir (s : PathMap) (names : List String) : PathMap × Except FileError Unit :=
  if names = [] then (s, .error .invalidPath)
  else match s.obstacle? names, s.kind names with
    | some e, _ => (s, .error e)
    | none, some .folder =>
      if s.Childless names then (s.forget names, .ok ()) else (s, .error .directoryNotEmpty)
    | none, some (.file _) => (s, .error .notADirectory)
    | none, none => (s, .error .notFound)

def isDir (s : PathMap) (names : List String) : Bool := s.kind names = some .folder

def fileExists (s : PathMap) (names : List String) : Bool := (s.kind names).isSome

def makeFolders (s : PathMap) (names : List String) : PathMap × Except FileError Unit :=
  if s.Clear names then (s.fill names, .ok ()) else (s, .error .notADirectory)

/-- A refused write leaves nothing behind, not even the folders above the file. -/
def writeFile (s : PathMap) (names : List String) (bs : Bytes) :
    PathMap × Except FileError Unit :=
  match s.makeFolders names.dropLast with
  | (_, .error e) => (s, .error e)
  | (s', .ok ()) => match s'.create names with
    | (_, .error e) => (s, .error e)
    | (s', .ok o) => (s'.put o bs, .ok ())

def fileBytes (s : PathMap) (names : List String) : Except FileError Bytes :=
  (s.openFile names).map s.objects.contents

theorem kind_nil (s : PathMap) : s.kind [] = some .folder := s.root

theorem kind_dropLast (s : PathMap) (names : List String) (k : Kind) (h : s.kind names = some k)
    (hn : names ≠ []) : s.kind names.dropLast = some .folder :=
  s.closed names (Finmap.mem_iff.mpr ⟨k, h⟩) hn

theorem kind_prefix (s : PathMap) (names above : List String) (k : Kind) (h : s.kind names = some k)
    (hp : above <+: names) (hne : above ≠ names) : s.kind above = some .folder := by
  induction names using List.reverseRecOn generalizing k with
  | nil => exact absurd (List.prefix_nil.mp hp) hne
  | append_singleton names last ih =>
    have hd := s.kind_dropLast _ k h (by simp)
    rw [List.dropLast_concat] at hd
    have hp' : above <+: names := by
      rcases List.prefix_concat_iff.mp hp with rfl | hp
      · exact absurd rfl hne
      · exact hp
    by_cases he : above = names
    · rw [he, hd]
    · exact ih .folder hd hp' he

theorem obstacle?_eq_none_iff (s : PathMap) (names : List String) :
    s.obstacle? names = none ↔ s.kind names.dropLast = some .folder := by
  rw [obstacle?, Kind.firstObstacle?, List.findSome?_eq_none_iff]
  constructor
  · intro h
    have hfree := h _ ((List.mem_inits _ _).mpr (List.prefix_refl names.dropLast))
    rcases hp : s.kind names.dropLast with _ | _ | _
    · simp [hp, Kind.obstacle?] at hfree
    · rfl
    · simp [hp, Kind.obstacle?] at hfree
  · intro h above ha
    have hp := (List.mem_inits _ _).mp ha
    by_cases he : above = names.dropLast
    · rw [he, h]
      rfl
    · rw [s.kind_prefix _ above .folder h hp he]
      rfl

theorem obstacle?_of_kind (s : PathMap) (names : List String) (k : Kind)
    (h : s.kind names = some k) : s.obstacle? names = none := by
  rw [obstacle?_eq_none_iff]
  by_cases hn : names = []
  · rw [hn]
    exact s.kind_nil
  · exact s.kind_dropLast names k h hn

theorem kind_put (s : PathMap) (o : Nat) (bs : Bytes) : (s.put o bs).kind = s.kind := rfl

theorem kind_link (s : PathMap) (names place : List String) (k : Kind) (hn : names ≠ [])
    (hd : s.kind names.dropLast = some .folder) (h : s.kind names = none)
    (hk : k.Within s.objects.length) :
    (s.link names k).kind place = if place = names then some k else s.kind place := by
  rw [link, dif_pos ⟨hn, hd, h, hk⟩]
  by_cases hp : place = names
  · rw [if_pos hp, hp, kind, Finmap.lookup_insert]
  · rw [if_neg hp, kind, Finmap.lookup_insert_of_ne _ hp, kind]

theorem objects_link (s : PathMap) (names : List String) (k : Kind) :
    (s.link names k).objects = s.objects := by
  rw [link]
  split <;> rfl

theorem kind_forget (s : PathMap) (names place : List String) (hn : names ≠ [])
    (h : s.Childless names) :
    (s.forget names).kind place = if place = names then none else s.kind place := by
  rw [forget, dif_pos ⟨hn, h⟩]
  by_cases hp : place = names
  · rw [if_pos hp, hp, kind, Finmap.lookup_erase]
  · rw [if_neg hp, kind, Finmap.lookup_erase_ne hp, kind]

theorem objects_forget (s : PathMap) (names : List String) :
    (s.forget names).objects = s.objects := by
  rw [forget]
  split <;> rfl

theorem kind_fill (s : PathMap) (names place : List String) (h : s.Clear names) :
    (s.fill names).kind place = if place <+: names then some .folder else s.kind place := by
  rw [fill, dif_pos h, kind, lookup_union_folders]
  by_cases hp : place <+: names
  · rw [if_pos hp, if_pos ((List.mem_inits _ _).mpr hp)]
    split
    · rename_i hm
      rcases h _ ((List.mem_inits _ _).mpr hp) with hf | hf
      · exact hf
      · exact absurd hm ((kind_eq_none_iff s _).mp hf)
    · rfl
  · rw [if_neg hp, if_neg (fun hm => hp ((List.mem_inits _ _).mp hm))]
    split
    · rfl
    · rename_i hm
      exact ((kind_eq_none_iff s _).mpr hm).symm

theorem objects_fill (s : PathMap) (names : List String) : (s.fill names).objects = s.objects := by
  rw [fill]
  split <;> rfl

theorem childless_iff (s : PathMap) (names : List String) :
    s.Childless names ↔ ∀ name, s.kind (names ++ [name]) = none := by
  constructor
  · intro h name
    rw [kind_eq_none_iff]
    intro hm
    exact h _ (Finmap.mem_keys.mpr hm) (by simp) (by simp)
  · intro h place hm hne hd
    have hc := h (place.getLast hne)
    rw [← hd, List.dropLast_concat_getLast hne, kind_eq_none_iff] at hc
    exact hc (Finmap.mem_keys.mp hm)

theorem childless_of_file (s : PathMap) (names : List String) (o : Nat)
    (h : s.kind names = some (.file o)) : s.Childless names := by
  rw [childless_iff]
  intro name
  by_contra hc
  obtain ⟨k, hk⟩ := Option.ne_none_iff_exists'.mp hc
  have hd := s.kind_dropLast _ k hk (by simp)
  rw [List.dropLast_concat, h] at hd
  cases hd

theorem kind_link_of_some {s : PathMap} {names place : List String} {k k' : Kind}
    (h : s.kind place = some k) : (s.link names k').kind place = some k := by
  rw [link]
  split
  · rename_i hfree
    have hne : place ≠ names := by
      rintro rfl
      rw [hfree.2.2.1] at h
      cases h
    rw [kind, Finmap.lookup_insert_of_ne _ hne]
    exact h
  · exact h

theorem kind_forget_of_ne (s : PathMap) {names place : List String} (h : place ≠ names) :
    (s.forget names).kind place = s.kind place := by
  rw [forget]
  split
  · rw [kind, Finmap.lookup_erase_ne h, kind]
  · rfl

section Folders

variable {s : PathMap} {place : List String} (h : s.kind place = some .folder)
include h

theorem create_keeps_folder (names : List String) : (s.create names).1.kind place = some .folder := by
  rw [create]
  split
  · exact h
  · exact h
  · exact h
  · exact kind_link_of_some (s := s.allocate) h

theorem unlink_keeps_folder (names : List String) : (s.unlink names).1.kind place = some .folder := by
  rw [unlink]
  split
  · exact h
  · exact h
  · rename_i hfile
    have hne : place ≠ names := by
      rintro rfl
      rw [h] at hfile
      cases hfile
    rw [s.kind_forget_of_ne hne]
    exact h
  · exact h

theorem mkdir_keeps_folder (names : List String) : (s.mkdir names).1.kind place = some .folder := by
  rw [mkdir]
  split
  · exact h
  · exact h
  · exact kind_link_of_some h

theorem rmdir_keeps_folder {names : List String} (hne : place ≠ names) :
    (s.rmdir names).1.kind place = some .folder := by
  rw [rmdir]
  split
  · exact h
  · split
    · exact h
    · split
      · rw [s.kind_forget_of_ne hne]
        exact h
      · exact h
    · exact h
    · exact h

end Folders

theorem fill_of_folder (s : PathMap) (names : List String) (hk : s.kind names = some .folder)
    (h : s.Clear names) : (s.fill names).kind = s.kind := by
  funext place
  rw [s.kind_fill names place h]
  split
  · rename_i hp
    by_cases he : place = names
    · rw [he, hk]
    · exact (s.kind_prefix names place .folder hk hp he).symm
  · rfl

theorem create_error {s s' : PathMap} {names : List String} {e : FileError}
    (h : s.create names = (s', .error e)) :
    s' = s ∧ (s.obstacle? names = some e ∨ s.kind names = some .folder) := by
  rw [create] at h
  rcases ho : s.obstacle? names with _ | e'
  · rcases hk : s.kind names with _ | _ | o
    · simp [ho, hk] at h
    · simp only [ho, hk, Prod.mk.injEq] at h
      exact ⟨h.1.symm, Or.inr rfl⟩
    · simp [ho, hk] at h
  · simp only [ho, Prod.mk.injEq, Except.error.injEq] at h
    exact ⟨h.1.symm, Or.inl (congrArg some h.2)⟩

theorem makeFolders_ok {s s' : PathMap} {names : List String}
    (h : s.makeFolders names = (s', .ok ())) : s.Clear names ∧ s' = s.fill names := by
  rw [makeFolders] at h
  split at h
  · rename_i hc
    exact ⟨hc, (congrArg Prod.fst h).symm⟩
  · cases h

theorem makeFolders_error {s s' : PathMap} {names : List String} {e : FileError}
    (h : s.makeFolders names = (s', .error e)) : s' = s := by
  rw [makeFolders] at h
  split at h
  · cases h
  · exact (congrArg Prod.fst h).symm

/-- Only a folder at the place itself keeps a file from being made once the folders
above it are there; then none of them was missing. -/
theorem create_fill_error {s s' : PathMap} {above : List String} {name : String} {e : FileError}
    (hc : s.Clear above) (h : (s.fill above).create (above ++ [name]) = (s', .error e)) :
    s'.kind = s.kind ∧ s'.objects = s.objects := by
  obtain ⟨rfl, ho | hk⟩ := create_error h
  · have hfree : (s.fill above).obstacle? (above ++ [name]) = none := by
      rw [obstacle?_eq_none_iff, List.dropLast_concat, s.kind_fill above above hc,
        if_pos (List.prefix_refl above)]
    rw [hfree] at ho
    cases ho
  · have hlonger : ¬ (above ++ [name]) <+: above := by
      intro hp
      have hl := hp.length_le
      rw [List.length_append, List.length_singleton] at hl
      omega
    rw [s.kind_fill above _ hc, if_neg hlonger] at hk
    have habove := s.kind_dropLast _ _ hk (by simp)
    rw [List.dropLast_concat] at habove
    exact ⟨s.fill_of_folder above habove hc, s.objects_fill above⟩

theorem create_ok {s s' : PathMap} {names : List String} {o : Nat}
    (h : s.create names = (s', .ok o)) :
    s'.kind names = some (.file o) ∧ s'.objects.contents o = [] ∧ o < s'.objects.length := by
  rw [create] at h
  cases ho : s.obstacle? names with
  | some e => simp [ho] at h
  | none =>
    cases hk : s.kind names with
    | none =>
      simp only [ho, hk, Prod.mk.injEq, Except.ok.injEq] at h
      obtain ⟨rfl, rfl⟩ := h
      have hn : names ≠ [] := by
        rintro rfl
        exact absurd (s.kind_nil.symm.trans hk) (by simp)
      have hd := (s.obstacle?_eq_none_iff names).mp ho
      have hw : (Kind.file s.objects.length).Within s.allocate.objects.length := by
        simp [Kind.Within, allocate, Objects.allocate]
      rw [kind_link s.allocate names names _ hn hd hk hw, if_pos rfl, objects_link]
      exact ⟨rfl, Objects.contents_allocate _ _, hw⟩
    | some k =>
      cases k with
      | folder => simp [ho, hk] at h
      | file p =>
        simp only [ho, hk, Prod.mk.injEq, Except.ok.injEq] at h
        obtain ⟨rfl, rfl⟩ := h
        have hp : p < s.objects.length := s.grounded names _ hk
        exact ⟨hk, Objects.contents_put _ _ _ hp, by simpa [put, Objects.put] using hp⟩

theorem openFile_eq_ok_iff {s : PathMap} {names : List String} {o : Nat} :
    s.openFile names = .ok o ↔ s.kind names = some (.file o) := by
  constructor
  · intro h
    rw [openFile] at h
    split at h
    case h_3 hk =>
      cases h
      exact hk
    all_goals cases h
  · intro hk
    rw [openFile, s.obstacle?_of_kind names _ hk, hk]

theorem mkdir_ok {s s' : PathMap} {names : List String} (h : s.mkdir names = (s', .ok ())) :
    s'.kind names = some .folder := by
  rw [mkdir] at h
  cases ho : s.obstacle? names with
  | some e => simp [ho] at h
  | none =>
    cases hk : s.kind names with
    | some k => simp [ho, hk] at h
    | none =>
      simp only [ho, hk, Prod.mk.injEq, and_true] at h
      subst h
      have hn : names ≠ [] := by
        rintro rfl
        exact absurd (s.kind_nil.symm.trans hk) (by simp)
      rw [s.kind_link names names .folder hn ((s.obstacle?_eq_none_iff names).mp ho) hk trivial,
        if_pos rfl]

theorem unlink_ok {s s' : PathMap} {names : List String} (h : s.unlink names = (s', .ok ())) :
    s'.kind names = none := by
  rw [unlink] at h
  cases ho : s.obstacle? names with
  | some e => simp [ho] at h
  | none =>
    rcases hk : s.kind names with _ | _ | o
    · simp [ho, hk] at h
    · simp [ho, hk] at h
    · simp only [ho, hk, Prod.mk.injEq, and_true] at h
      subst h
      have hn : names ≠ [] := by
        rintro rfl
        exact absurd (s.kind_nil.symm.trans hk) (by simp)
      rw [s.kind_forget names names hn (s.childless_of_file names o hk), if_pos rfl]

theorem rmdir_ok {s s' : PathMap} {names : List String} (h : s.rmdir names = (s', .ok ())) :
    s'.kind names = none := by
  rw [rmdir] at h
  split at h
  · cases h
  · rename_i hn
    cases ho : s.obstacle? names with
    | some e => simp [ho] at h
    | none =>
      rcases hk : s.kind names with _ | _ | o
      · simp [ho, hk] at h
      · by_cases hc : s.Childless names
        · simp only [ho, hk, if_pos hc, Prod.mk.injEq, and_true] at h
          subst h
          rw [s.kind_forget names names hn hc, if_pos rfl]
        · simp [ho, hk, hc] at h
      · simp [ho, hk] at h

theorem fileBytes_writeFile {s s' : PathMap} {names : List String} {bs : Bytes}
    (h : s.writeFile names bs = (s', .ok ())) : s'.fileBytes names = .ok bs := by
  rw [writeFile] at h
  rcases hm : s.makeFolders names.dropLast with ⟨filled, _ | _⟩
  · simp [hm] at h
  · rcases hc : filled.create names with ⟨made, _ | o⟩
    · simp [hm, hc] at h
    · simp only [hm, hc, Prod.mk.injEq, and_true] at h
      subst h
      obtain ⟨hk, -, ho⟩ := create_ok hc
      have hclear := (made.put o bs).obstacle?_of_kind names (.file o) hk
      rw [fileBytes, openFile, hclear, kind_put, hk]
      exact congrArg Except.ok (Objects.contents_put _ _ _ ho)

end PathMap

end KernelExam

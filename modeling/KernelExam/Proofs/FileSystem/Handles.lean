import KernelExam.Proofs.FileSystem.Replay
import KernelExam.Proofs.FileSystem.Transcript

/-!
# Files and their handles

A handle is the number of a file object. An object stands at one place of the tree or at
none. What it holds changes by writes through its handles and by creations along a path
that leads to it, and once it stands nowhere, no path leads to it again. Paths may be any
text here, canonical or not.
-/

set_option autoImplicit false

namespace KernelExam

/-- The place that a path leads to: its directories without the empty names, then the last
name as it stands. -/
def Path.place? (path : String) : Option (List String) :=
  (parentFile path).map fun (parent, name) => components parent ++ [name]

/-- What is done to files: an operation along a path, or a write through a handle. -/
inductive FileAct where
  | operate (op : FileOperation)
  | append (object : Nat) (bytes : Bytes)
  | overwrite (object position : Nat) (bytes : Bytes)
  deriving DecidableEq, Repr

def FileAct.write (o : Nat) : FileAct → Bytes → Bytes
  | .append o' bs, old => if o' = o then old ++ bs else old
  | .overwrite o' position bs, old => if o' = o then splice old position bs else old
  | .operate _, old => old

def Kind.object? : Kind → Option Nat
  | .folder => none
  | .file o => some o

namespace FileSystem

def act (fs : FileSystem) : FileAct → FileSystem × FileAnswer
  | .operate op => fs.perform op
  | .append o bs => ({ fs with objects := fs.objects.append o bs }, .made (.ok ()))
  | .overwrite o position bs =>
    ({ fs with objects := fs.objects.overwrite o position bs }, .made (.ok ()))

def actAll : FileSystem → List FileAct → FileSystem × List FileAnswer
  | fs, [] => (fs, [])
  | fs, a :: rest =>
    let first := fs.act a
    let later := actAll first.1 rest
    (later.1, first.2 :: later.2)

def object? (fs : FileSystem) (place : List String) : Option Nat :=
  (fs.root.kindAt place).bind Kind.object?

def Names (fs : FileSystem) (path : String) (o : Nat) : Prop :=
  (Path.place? path).bind fs.object? = some o

instance (fs : FileSystem) (path : String) (o : Nat) : Decidable (fs.Names path o) :=
  inferInstanceAs (Decidable (_ = _))

/-- What an object is to hold after an act. -/
def shown (fs : FileSystem) (o : Nat) : FileAct → Bytes
  | .operate (.create path) => if fs.Names path o then [] else fs.objects.contents o
  | .operate (.writeFile path bs) => if fs.Names path o then bs else fs.objects.contents o
  | a => a.write o (fs.objects.contents o)

variable {fs fs' : FileSystem} {path : String} {o : Nat}

theorem object?_eq_some_iff (place : List String) :
    fs.object? place = some o ↔ fs.root.kindAt place = some (.file o) := by
  rw [object?]
  rcases fs.root.kindAt place with _ | _ | o'
  · simp
  · simp [Kind.object?]
  · simp [Kind.object?]

theorem lookup_cases (fs : FileSystem) (path : String) :
    Path.parentFile path = none ∧ Path.place? path = none ∨
    ∃ parent name, Path.parentFile path = some (parent, name) ∧
      Path.place? path = some (Path.components parent ++ [name]) ∧
      ((∃ e, fs.folder parent = .error e ∧
          fs.object? (Path.components parent ++ [name]) = none) ∨
        ∃ dir, fs.folder parent = .ok dir ∧
          fs.root.kindAt (Path.components parent ++ [name]) = (dir.find? name).map Entry.kind) := by
  cases hp : Path.parentFile path with
  | none => exact Or.inl ⟨rfl, by rw [Path.place?, hp]; rfl⟩
  | some found =>
    obtain ⟨parent, name⟩ := found
    refine Or.inr ⟨parent, name, rfl, by rw [Path.place?, hp]; rfl, ?_⟩
    cases hd : fs.folder parent with
    | error e =>
      have hk := Listing.kindAt_of_folderAt_error _ fs.root e name hd
      exact Or.inl ⟨e, rfl, by rw [object?, hk]; rfl⟩
    | ok dir =>
      refine Or.inr ⟨dir, rfl, ?_⟩
      rw [Listing.kindAt_of_folderAt _ [name] fs.root dir hd, Listing.kindAt_singleton]

structure Alike (fs fs' : FileSystem) : Prop where
  places : ∀ place, fs'.object? place = fs.object? place
  objects : fs'.objects = fs.objects

structure Gains (fs : FileSystem) (place : List String) (bs : Bytes) (fs' : FileSystem) : Prop where
  places : ∀ p, fs'.object? p = if p = place then some fs.objects.length else fs.object? p
  objects : fs'.objects = fs.objects ++ [bs]

structure Loses (fs : FileSystem) (place : List String) (fs' : FileSystem) : Prop where
  places : ∀ p, fs'.object? p = if p = place then none else fs.object? p
  objects : fs'.objects = fs.objects

theorem Alike.refl (fs : FileSystem) : fs.Alike fs := ⟨fun _ => rfl, rfl⟩

theorem Alike.names_iff (h : fs.Alike fs') (path : String) (o : Nat) :
    fs'.Names path o ↔ fs.Names path o := by
  rw [Names, Names, show fs'.object? = fs.object? from funext h.places]

theorem Alike.gains (h : fs.Alike fs') {fs'' : FileSystem} {place : List String} {bs : Bytes}
    (hg : fs'.Gains place bs fs'') : fs.Gains place bs fs'' := by
  refine ⟨fun p => ?_, by rw [hg.objects, h.objects]⟩
  rw [hg.places, h.places, h.objects]

theorem create_cases (fs : FileSystem) (path : String) :
    (∃ o, fs.Names path o ∧
        fs.create path = ({ fs with objects := fs.objects.put o [] }, .ok o)) ∨
    (∀ o, ¬ fs.Names path o) ∧
      ((∃ e, fs.create path = (fs, .error e)) ∨
        ∃ place fs', Path.place? path = some place ∧
          fs.create path = (fs', .ok fs.objects.length) ∧ fs.Gains place [] fs') := by
  rcases fs.lookup_cases path with
    ⟨hp, hplace⟩ | ⟨parent, name, hp, hplace, ⟨e, hd, hnone⟩ | ⟨dir, hd, hk⟩⟩
  · refine Or.inr ⟨?_, Or.inl ⟨_, by simp only [create, hp]; rfl⟩⟩
    simp [Names, hplace]
  · refine Or.inr ⟨?_, Or.inl ⟨e, by simp only [create, hp, hd]⟩⟩
    simp [Names, hplace, hnone]
  · cases hf : dir.find? name with
    | none =>
      rw [hf] at hk
      refine Or.inr ⟨?_, Or.inr ⟨_, _, hplace, by simp only [create, hp, hd, hf]; rfl, ?_, rfl⟩⟩
      · simp [Names, hplace, object?, hk]
      · intro p
        have hlink := Listing.kindAt_link hd hf (e := .file fs.objects.length) (by simp) p
        rw [object?, object?, insert]
        dsimp only [Objects.allocate]
        rw [hlink]
        split
        · rfl
        · rfl
    | some entry =>
      rw [hf] at hk
      cases entry with
      | file o =>
        refine Or.inl ⟨o, ?_, by simp only [create, hp, hd, hf]⟩
        rw [Names, hplace, Option.bind_some]
        exact (object?_eq_some_iff _).mpr hk
      | folder inside =>
        refine Or.inr ⟨?_, Or.inl ⟨_, by simp only [create, hp, hd, hf]; rfl⟩⟩
        have hnone : fs.object? (Path.components parent ++ [name]) = none := by
          rw [object?, hk]
          rfl
        simp [Names, hplace, hnone]

theorem unlink_cases (h : fs.root.Tidy) (path : String) :
    (∃ place o fs', Path.place? path = some place ∧ fs.object? place = some o ∧
        fs.unlink path = (fs', .ok ()) ∧ fs.Loses place fs') ∨
      (∀ o, ¬ fs.Names path o) ∧ ∃ e, fs.unlink path = (fs, .error e) := by
  rcases fs.lookup_cases path with
    ⟨hp, hplace⟩ | ⟨parent, name, hp, hplace, ⟨e, hd, hnone⟩ | ⟨dir, hd, hk⟩⟩
  · exact Or.inr ⟨by simp [Names, hplace], _, by simp only [unlink, hp]; rfl⟩
  · exact Or.inr ⟨by simp [Names, hplace, hnone], e, by simp only [unlink, hp, hd]⟩
  · cases hf : dir.find? name with
    | none =>
      rw [hf] at hk
      refine Or.inr ⟨?_, _, by simp only [unlink, hp, hd, hf]; rfl⟩
      simp [Names, hplace, object?, hk]
    | some entry =>
      rw [hf] at hk
      cases entry with
      | folder inside =>
        refine Or.inr ⟨?_, _, by simp only [unlink, hp, hd, hf]; rfl⟩
        simp [Names, hplace, object?, hk, Kind.object?, Entry.kind]
      | file o =>
        have hbelow : ∀ next more,
            fs.root.kindAt (Path.components parent ++ name :: next :: more) = none := by
          intro next more
          rw [Listing.kindAt_of_folderAt _ _ fs.root dir hd]
          simp [Listing.kindAt, hf]
        refine Or.inl ⟨_, o, fs.remove parent name, hplace, (object?_eq_some_iff _).mpr hk,
          by simp only [unlink, hp, hd, hf], fun p => ?_, rfl⟩
        rw [object?, object?, remove, h.kindAt_unlink hd hbelow p]
        split
        · rfl
        · rfl

theorem alike_mkdir (fs : FileSystem) (path : String) : fs.Alike (fs.mkdir path).1 := by
  rcases fs.lookup_cases path with
    ⟨hp, -⟩ | ⟨parent, name, hp, -, ⟨e, hd, -⟩ | ⟨dir, hd, hk⟩⟩
  · simp only [mkdir, hp]
    exact .refl fs
  · simp only [mkdir, hp, hd]
    exact .refl fs
  · cases hf : dir.find? name with
    | some entry =>
      simp only [mkdir, hp, hd, hf]
      exact .refl fs
    | none =>
      rw [hf] at hk
      simp only [mkdir, hp, hd, hf]
      refine ⟨fun p => ?_, rfl⟩
      have hlink := Listing.kindAt_link hd hf (e := .folder .empty) (by simp) p
      rw [object?, object?, insert, hlink]
      by_cases hpl : p = Path.components parent ++ [name]
      · rw [if_pos hpl, hpl, hk]
        rfl
      · rw [if_neg hpl]

theorem alike_rmdir (h : fs.root.Tidy) (path : String) : fs.Alike (fs.rmdir path).1 := by
  rcases fs.lookup_cases path with
    ⟨hp, -⟩ | ⟨parent, name, hp, -, ⟨e, hd, -⟩ | ⟨dir, hd, hk⟩⟩
  · simp only [rmdir, hp]
    exact .refl fs
  · simp only [rmdir, hp, hd]
    exact .refl fs
  · rcases hf : dir.find? name with _ | o | inside
    · simp only [rmdir, hp, hd, hf]
      exact .refl fs
    · simp only [rmdir, hp, hd, hf]
      exact .refl fs
    · cases inside with
      | file n o more =>
        simp only [rmdir, hp, hd, hf]
        exact .refl fs
      | folder n sub more =>
        simp only [rmdir, hp, hd, hf]
        exact .refl fs
      | empty =>
        rw [hf] at hk
        have hbelow : ∀ next more,
            fs.root.kindAt (Path.components parent ++ name :: next :: more) = none := by
          intro next more
          rw [Listing.kindAt_of_folderAt _ _ fs.root dir hd, Listing.kindAt_folder dir _ name _ hf,
            Listing.kindAt_empty _ (by simp)]
        simp only [rmdir, hp, hd, hf]
        refine ⟨fun p => ?_, rfl⟩
        rw [object?, object?, remove, h.kindAt_unlink hd hbelow p]
        by_cases hpl : p = Path.components parent ++ [name]
        · rw [if_pos hpl, hpl, hk]
          rfl
        · rw [if_neg hpl]

theorem alike_makeFolders (fs : FileSystem) (path : String) : fs.Alike (fs.makeFolders path).1 := by
  rw [makeFolders]
  rcases hm : fs.root.makeFolders (Path.components path) with ⟨root, _ | e⟩
  · obtain ⟨hclear, hkinds⟩ := Listing.makeFolders_ok _ _ _ hm
    refine ⟨fun p => ?_, rfl⟩
    rw [object?, object?, hkinds]
    by_cases hpl : p <+: Path.components path
    · rw [if_pos hpl]
      rcases hclear p hpl with hk | hk
      · rw [hk]
      · rw [hk]
        rfl
    · rw [if_neg hpl]
  · obtain ⟨rfl, -⟩ := Listing.makeFolders_error _ _ _ _ hm
    exact .refl fs

theorem makeFolders_of_names {parent name : String}
    (hp : Path.parentFile path = some (parent, name)) (hn : fs.Names path o) :
    fs.makeFolders parent = (fs, .ok ()) := by
  rcases fs.lookup_cases path with
    ⟨hp', -⟩ | ⟨parent', name', hp', hplace, ⟨e, -, hnone⟩ | ⟨dir, hd, -⟩⟩
  · rw [hp'] at hp
    cases hp
  · rw [Names, hplace, Option.bind_some, hnone] at hn
    cases hn
  · obtain ⟨rfl, rfl⟩ := Prod.mk.inj (Option.some.inj (hp.symm.trans hp'))
    rw [makeFolders, Listing.makeFolders_of_folderAt _ _ dir hd]

theorem writeFile_cases (fs : FileSystem) (path : String) (bs : Bytes) :
    (∃ o, fs.Names path o ∧
        fs.writeFile path bs = ({ fs with objects := (fs.objects.put o []).append o bs }, .ok ())) ∨
    (∀ o, ¬ fs.Names path o) ∧
      ((∃ fs' e, fs.Alike fs' ∧ fs.writeFile path bs = (fs', .error e)) ∨
        ∃ place fs', Path.place? path = some place ∧ fs.writeFile path bs = (fs', .ok ()) ∧
          fs.Gains place bs fs') := by
  cases hp : Path.parentFile path with
  | none =>
    refine Or.inr ⟨fun o => ?_, Or.inl ⟨fs, .isADirectory, .refl fs, by rw [writeFile, hp]⟩⟩
    simp [Names, Path.place?, hp]
  | some found =>
    obtain ⟨parent, name⟩ := found
    have halike := fs.alike_makeFolders parent
    rcases hm : fs.makeFolders parent with ⟨fs₁, e | _⟩
    · refine Or.inr ⟨fun o ho => ?_, Or.inl ⟨fs₁, e, by rwa [hm] at halike, ?_⟩⟩
      · rw [makeFolders_of_names hp ho] at hm
        cases hm
      · simp only [writeFile, hp, hm]
    · rw [hm] at halike
      have hnames : ∀ o, fs₁.Names path o ↔ fs.Names path o := halike.names_iff path
      rcases fs₁.create_cases path with ⟨o, hn, hc⟩ | ⟨hn, ⟨e, hc⟩ | ⟨place, fs₂, hplace, hc, hg⟩⟩
      · rw [hnames] at hn
        rw [makeFolders_of_names hp hn] at hm
        obtain rfl : fs = fs₁ := congrArg Prod.fst hm
        exact Or.inl ⟨o, hn, by simp only [writeFile, hp, makeFolders_of_names hp hn, hc]⟩
      · refine Or.inr ⟨fun o ho => hn o ((hnames o).mpr ho), Or.inl ⟨fs₁, e, halike, ?_⟩⟩
        simp only [writeFile, hp, hm, hc]
      · refine Or.inr ⟨fun o ho => hn o ((hnames o).mpr ho),
          Or.inr ⟨place, _, hplace, by simp only [writeFile, hp, hm, hc]; rfl, ?_⟩⟩
        refine halike.gains ⟨hg.places, ?_⟩
        show fs₂.objects.append fs₁.objects.length bs = _
        rw [hg.objects, Objects.append, Objects.put, Objects.contents, List.getD_eq_getElem?_getD,
          List.getElem?_concat_length]
        simp

theorem openFile_eq_ok_iff (fs : FileSystem) (path : String) (o : Nat) :
    fs.openFile path = .ok o ↔ fs.Names path o := by
  rcases fs.lookup_cases path with
    ⟨hp, hplace⟩ | ⟨parent, name, hp, hplace, ⟨e, hd, hnone⟩ | ⟨dir, hd, hk⟩⟩
  · simp [openFile, entry, hp, Names, hplace]
  · simp [openFile, entry, hp, hd, Names, hplace, hnone]
  · rw [Names, hplace, Option.bind_some, object?_eq_some_iff, hk]
    rcases hf : dir.find? name with _ | o' | inside
    · simp [openFile, entry, hp, hd, hf]
    · simp [openFile, entry, hp, hd, hf, Entry.kind]
    · simp [openFile, entry, hp, hd, hf, Entry.kind]

/-- All that an act can do to the objects and their places, and what it answers. -/
inductive Does (fs : FileSystem) : FileAct → FileSystem → FileAnswer → Prop
  | idle {a : FileAct} {fs' : FileSystem} {answer : FileAnswer} (alike : fs.Alike fs')
      (same : ∀ o, fs.shown o a = fs.objects.contents o) (none : ∀ o, answer ≠ .object (.ok o)) :
      Does fs a fs' answer
  | opened {path : String} {o : Nat} (names : fs.Names path o) :
      Does fs (.operate (.openFile path)) fs (.object (.ok o))
  | emptied {path : String} {o : Nat} (names : fs.Names path o) :
      Does fs (.operate (.create path)) { fs with objects := fs.objects.put o [] } (.object (.ok o))
  | refilled {path : String} {bs : Bytes} {o : Nat} (names : fs.Names path o) :
      Does fs (.operate (.writeFile path bs))
        { fs with objects := (fs.objects.put o []).append o bs } (.made (.ok ()))
  | made {path : String} {place : List String} {fs' : FileSystem}
      (names : Path.place? path = some place) (free : ∀ o, ¬ fs.Names path o)
      (gains : fs.Gains place [] fs') :
      Does fs (.operate (.create path)) fs' (.object (.ok fs.objects.length))
  | filled {path : String} {bs : Bytes} {place : List String} {fs' : FileSystem}
      (free : ∀ o, ¬ fs.Names path o) (gains : fs.Gains place bs fs') :
      Does fs (.operate (.writeFile path bs)) fs' (.made (.ok ()))
  | unlinked {path : String} {place : List String} {fs' : FileSystem} (loses : fs.Loses place fs') :
      Does fs (.operate (.unlink path)) fs' (.made (.ok ()))
  | appended (o : Nat) (bs : Bytes) :
      Does fs (.append o bs) { fs with objects := fs.objects.append o bs } (.made (.ok ()))
  | overwrote (o position : Nat) (bs : Bytes) :
      Does fs (.overwrite o position bs) { fs with objects := fs.objects.overwrite o position bs }
        (.made (.ok ()))

theorem does_act (h : fs.root.Tidy) (a : FileAct) : fs.Does a (fs.act a).1 (fs.act a).2 := by
  cases a with
  | append o bs => exact .appended o bs
  | overwrite o position bs => exact .overwrote o position bs
  | operate op =>
    cases op with
    | create path =>
      simp only [act, perform]
      rcases fs.create_cases path with ⟨o, hn, hc⟩ | ⟨hn, ⟨e, hc⟩ | ⟨place, fs', hplace, hc, hg⟩⟩
      · rw [hc]
        exact .emptied hn
      · rw [hc]
        exact .idle (.refl fs) (fun o => if_neg (hn o)) nofun
      · rw [hc]
        exact .made hplace hn hg
    | openFile path =>
      simp only [act, perform]
      cases ho : fs.openFile path with
      | error e => exact .idle (.refl fs) (fun _ => rfl) nofun
      | ok o => exact .opened ((fs.openFile_eq_ok_iff path o).mp ho)
    | unlink path =>
      simp only [act, perform]
      rcases unlink_cases h path with ⟨place, o, fs', -, -, hu, hl⟩ | ⟨-, e, hu⟩
      · rw [hu]
        exact .unlinked hl
      · rw [hu]
        exact .idle (.refl fs) (fun _ => rfl) nofun
    | writeFile path bs =>
      simp only [act, perform]
      rcases fs.writeFile_cases path bs with
        ⟨o, hn, hw⟩ | ⟨hn, ⟨fs', e, halike, hw⟩ | ⟨place, fs', -, hw, hg⟩⟩
      · rw [hw]
        exact .refilled hn
      · rw [hw]
        exact .idle halike (fun o => if_neg (hn o)) nofun
      · rw [hw]
        exact .filled hn hg
    | mkdir path => exact .idle (fs.alike_mkdir path) (fun _ => rfl) nofun
    | rmdir path => exact .idle (alike_rmdir h path) (fun _ => rfl) nofun
    | makeFolders path => exact .idle (fs.alike_makeFolders path) (fun _ => rfl) nofun
    | fileBytes path => exact .idle (.refl fs) (fun _ => rfl) nofun
    | isDir path => exact .idle (.refl fs) (fun _ => rfl) nofun
    | fileExists path => exact .idle (.refl fs) (fun _ => rfl) nofun

section

variable (h : fs.root.Tidy)
include h

theorem tidy_create (path : String) : (fs.create path).1.root.Tidy := by
  rw [create]
  repeat' split
  all_goals first
    | exact h
    | rename_i hd _ hf
      exact h.editAt hd ((h.folderAt hd).add_file _ _ hf)

theorem tidy_unlink (path : String) : (fs.unlink path).1.root.Tidy := by
  rw [unlink]
  repeat' split
  all_goals first
    | exact h
    | rename_i hd _ _ _
      exact h.editAt hd ((h.folderAt hd).erase _)

theorem tidy_mkdir (path : String) : (fs.mkdir path).1.root.Tidy := by
  rw [mkdir]
  repeat' split
  all_goals first
    | exact h
    | rename_i hd _ hf
      have hempty : Listing.empty.Tidy := trivial
      exact h.editAt hd ((h.folderAt hd).add_folder hempty _ hf)

theorem tidy_rmdir (path : String) : (fs.rmdir path).1.root.Tidy := by
  rw [rmdir]
  repeat' split
  all_goals first
    | exact h
    | rename_i hd _ _
      exact h.editAt hd ((h.folderAt hd).erase _)

theorem tidy_makeFolders (path : String) : (fs.makeFolders path).1.root.Tidy := by
  have hm := h.makeFolders (Path.components path)
  rw [makeFolders]
  split
  · rename_i root hr
    rwa [hr] at hm
  · rename_i root e hr
    rwa [hr] at hm

theorem tidy_writeFile (path : String) (bs : Bytes) : (fs.writeFile path bs).1.root.Tidy := by
  rw [writeFile]
  split
  · exact h
  · rename_i parent name hp
    have hm := tidy_makeFolders h parent
    split
    · rename_i fs₁ e hf
      rwa [hf] at hm
    · rename_i fs₁ hf
      rw [hf] at hm
      have hc := tidy_create hm path
      split
      · rename_i fs₂ e hr
        rwa [hr] at hc
      · rename_i fs₂ o hr
        rwa [hr] at hc

theorem tidy_act (a : FileAct) : (fs.act a).1.root.Tidy := by
  cases a with
  | append o bs => exact h
  | overwrite o position bs => exact h
  | operate op =>
    cases op with
    | create path => exact tidy_create h path
    | unlink path => exact tidy_unlink h path
    | mkdir path => exact tidy_mkdir h path
    | rmdir path => exact tidy_rmdir h path
    | makeFolders path => exact tidy_makeFolders h path
    | writeFile path bs => exact tidy_writeFile h path bs
    | openFile path => exact h
    | fileBytes path => exact h
    | isDir path => exact h
    | fileExists path => exact h

end

/-- Every object in the tree is there, and at one place only. -/
structure Sound (fs : FileSystem) : Prop where
  tidy : fs.root.Tidy
  lt : ∀ place o, fs.object? place = some o → o < fs.objects.length
  sole : ∀ place place' o, fs.object? place = some o → fs.object? place' = some o → place = place'

/-- An object stands nowhere in the tree. -/
def Gone (fs : FileSystem) (o : Nat) : Prop := ∀ place, fs.object? place ≠ some o

theorem sound_empty : empty.Sound := by
  have hnone : ∀ place o, empty.object? place ≠ some o := by
    intro place o
    cases place with
    | nil => nofun
    | cons name rest => nofun
  refine ⟨trivial, fun place o ho => absurd ho (hnone place o), ?_⟩
  intro place place' o ho
  exact absurd ho (hnone place o)

theorem Sound.gains {place : List String} {bs : Bytes} (hs : fs.Sound) (ht : fs'.root.Tidy)
    (hg : fs.Gains place bs fs') : fs'.Sound := by
  have hold : ∀ p, fs.object? p ≠ some fs.objects.length :=
    fun p ho => absurd (hs.lt p _ ho) (Nat.lt_irrefl _)
  refine ⟨ht, fun p o ho => ?_, fun p p' o ho ho' => ?_⟩
  · rw [hg.objects, List.length_append, List.length_singleton]
    rw [hg.places] at ho
    split at ho
    · obtain rfl := Option.some.inj ho
      exact Nat.lt_succ_self _
    · exact Nat.lt_succ_of_lt (hs.lt p o ho)
  · rw [hg.places] at ho ho'
    split at ho
    · rename_i hp
      split at ho'
      · rename_i hp'
        rw [hp, hp']
      · obtain rfl := Option.some.inj ho
        exact absurd ho' (hold p')
    · split at ho'
      · obtain rfl := Option.some.inj ho'
        exact absurd ho (hold p)
      · exact hs.sole p p' o ho ho'

theorem Gone.not_names (h : fs.Gone o) (path : String) : ¬ fs.Names path o := by
  intro hn
  obtain ⟨place, -, hplace⟩ := Option.bind_eq_some_iff.mp hn
  exact h place hplace

theorem Gone.shown (h : fs.Gone o) (a : FileAct) :
    fs.shown o a = a.write o (fs.objects.contents o) := by
  cases a with
  | append o' bs => rfl
  | overwrite o' position bs => rfl
  | operate op =>
    cases op with
    | create path => exact if_neg (h.not_names path)
    | writeFile path bs => exact if_neg (h.not_names path)
    | openFile path => rfl
    | unlink path => rfl
    | mkdir path => rfl
    | rmdir path => rfl
    | makeFolders path => rfl
    | fileBytes path => rfl
    | isDir path => rfl
    | fileExists path => rfl

variable {a : FileAct} {answer : FileAnswer}

theorem contents_put_eq (os : Objects) (o o' : Nat) (bs : Bytes) (h : o' < os.length) :
    (os.put o bs).contents o' = if o = o' then bs else os.contents o' := by
  split
  · rename_i ho
    rw [ho, Objects.contents_put os o' bs h]
  · rename_i ho
    rw [Objects.contents_put_of_ne os o o' bs ho]

theorem contents_concat (os : Objects) (bs : Bytes) (h : o < os.length) :
    Objects.contents (os ++ [bs]) o = os.contents o := by
  rw [Objects.contents, Objects.contents, List.getD_eq_getElem?_getD, List.getD_eq_getElem?_getD,
    List.getElem?_append_left h]

theorem names_iff_eq {o o' : Nat} (h : fs.Names path o) : fs.Names path o' ↔ o = o' := by
  rw [Names, h, Option.some.injEq]

namespace Does

variable (h : fs.Does a fs' answer)
include h

theorem length_le : fs.objects.length ≤ fs'.objects.length := by
  cases h with
  | idle alike => rw [alike.objects]
  | opened => exact Nat.le_refl _
  | emptied => rw [Objects.put, List.length_set]
  | refilled => rw [Objects.append, Objects.put, Objects.put, List.length_set, List.length_set]
  | made _ _ gains | filled _ gains =>
    rw [gains.objects, List.length_append]
    exact Nat.le_add_right _ _
  | unlinked loses => rw [loses.objects]
  | appended => rw [Objects.append, Objects.put, List.length_set]
  | overwrote => rw [Objects.overwrite_eq_put, Objects.put, List.length_set]

theorem contents (ho : o < fs.objects.length) : fs'.objects.contents o = fs.shown o a := by
  cases h with
  | idle alike same => rw [alike.objects, same]
  | opened => rfl
  | @emptied path p names =>
    show (fs.objects.put p []).contents o = if fs.Names path o then [] else fs.objects.contents o
    rw [contents_put_eq _ p o _ ho]
    simp only [names_iff_eq names]
  | @refilled path bs p names =>
    show ((fs.objects.put p []).append p bs).contents o =
      if fs.Names path o then bs else fs.objects.contents o
    have hlt : o < (fs.objects.put p []).length := by rwa [Objects.put, List.length_set]
    rw [Objects.append, Objects.contents_put_nil, List.nil_append, contents_put_eq _ p o _ hlt,
      contents_put_eq _ p o _ ho]
    simp only [names_iff_eq names]
    split
    · rfl
    · rfl
  | @made path place fs' _ free gains =>
    rw [gains.objects, contents_concat _ _ ho]
    exact (if_neg (free o)).symm
  | @filled path bs place fs' free gains =>
    rw [gains.objects, contents_concat _ _ ho]
    exact (if_neg (free o)).symm
  | unlinked loses => rw [loses.objects]; rfl
  | appended p bs =>
    show (fs.objects.append p bs).contents o =
      if p = o then fs.objects.contents o ++ bs else fs.objects.contents o
    rw [Objects.append, contents_put_eq _ p o _ ho]
    split
    · rename_i hp
      rw [hp]
    · rfl
  | overwrote p position bs =>
    show (fs.objects.overwrite p position bs).contents o =
      if p = o then splice (fs.objects.contents o) position bs else fs.objects.contents o
    rw [Objects.overwrite_eq_put, contents_put_eq _ p o _ ho]
    split
    · rename_i hp
      rw [hp]
    · rfl

theorem gone (ho : o < fs.objects.length) (hg : fs.Gone o) : fs'.Gone o := by
  intro place
  cases h with
  | idle alike =>
    rw [alike.places]
    exact hg place
  | opened | emptied | refilled | appended | overwrote => exact hg place
  | made _ _ gains | filled _ gains =>
    rw [gains.places]
    split
    · rw [ne_eq, Option.some.injEq]
      exact Nat.ne_of_gt ho
    · exact hg place
  | unlinked loses =>
    rw [loses.places]
    split
    · nofun
    · exact hg place

theorem sound (hs : fs.Sound) (ht : fs'.root.Tidy) : fs'.Sound := by
  have hlt : ∀ place o, fs.object? place = some o → o < fs'.objects.length :=
    fun place o ho => Nat.lt_of_lt_of_le (hs.lt place o ho) h.length_le
  cases h with
  | idle alike =>
    refine ⟨ht, fun place o ho => hlt place o ?_, fun place place' o ho ho' => ?_⟩
    · rwa [← alike.places]
    · rw [alike.places] at ho ho'
      exact hs.sole place place' o ho ho'
  | opened | emptied | refilled | appended | overwrote => exact ⟨ht, hlt, hs.sole⟩
  | @made path place fs' _ _ gains =>
    exact hs.gains ht gains
  | @filled path bs place fs' _ gains =>
    exact hs.gains ht gains
  | @unlinked path place fs' loses =>
    have hback : ∀ p o, fs'.object? p = some o → fs.object? p = some o := by
      intro p o ho
      rw [loses.places] at ho
      split at ho
      · cases ho
      · exact ho
    exact ⟨ht, fun p o ho => hlt p o (hback p o ho),
      fun p p' o ho ho' => hs.sole p p' o (hback p o ho) (hback p' o ho')⟩

end Does

theorem Does.handed {op : FileOperation} (h : fs.Does (.operate op) fs' answer) (hs : fs.Sound)
    (ha : answer = .object (.ok o)) : fs'.Names op.path o ∧ o < fs'.objects.length := by
  have hlt : ∀ path, fs.Names path o → o < fs.objects.length := by
    intro path hn
    obtain ⟨place, -, hplace⟩ := Option.bind_eq_some_iff.mp hn
    exact hs.lt place o hplace
  cases h with
  | idle _ _ none => exact absurd ha (none o)
  | opened names =>
    obtain rfl := Except.ok.inj (FileAnswer.object.inj ha)
    exact ⟨names, hlt _ names⟩
  | emptied names =>
    obtain rfl := Except.ok.inj (FileAnswer.object.inj ha)
    refine ⟨names, ?_⟩
    rw [Objects.put, List.length_set]
    exact hlt _ names
  | made hplace _ gains =>
    obtain rfl := Except.ok.inj (FileAnswer.object.inj ha)
    refine ⟨?_, by rw [gains.objects, List.length_append]; exact Nat.lt_succ_self _⟩
    rw [Names, FileOperation.path, hplace, Option.bind_some, gains.places, if_pos rfl]
  | refilled | filled | unlinked => cases ha

theorem Sound.act (h : fs.Sound) (a : FileAct) : (fs.act a).1.Sound :=
  (does_act h.tidy a).sound h (tidy_act h.tidy a)

theorem Sound.actAll (h : fs.Sound) (acts : List FileAct) : (fs.actAll acts).1.Sound := by
  induction acts generalizing fs with
  | nil => exact h
  | cons a rest ih => exact ih (h.act a)

theorem Sound.gone (h : fs.Sound) (ho : o < fs.objects.length) (hg : fs.Gone o)
    (later : List FileAct) :
    (fs.actAll later).1.Gone o ∧ .object (.ok o) ∉ (fs.actAll later).2 ∧
      (fs.actAll later).1.objects.contents o =
        later.foldl (fun bs a => a.write o bs) (fs.objects.contents o) := by
  induction later generalizing fs with
  | nil => exact ⟨hg, List.not_mem_nil, rfl⟩
  | cons a rest ih =>
    have hdoes := does_act h.tidy a
    have hgone := hdoes.gone ho hg
    obtain ⟨hstays, hnever, hholds⟩ := ih (h.act a) (Nat.lt_of_lt_of_le ho hdoes.length_le) hgone
    refine ⟨hstays, ?_, ?_⟩
    · show _ ∉ (fs.act a).2 :: ((fs.act a).1.actAll rest).2
      rw [List.mem_cons, not_or]
      refine ⟨fun ha => ?_, hnever⟩
      cases a with
      | operate op => exact hgone.not_names _ (hdoes.handed h ha.symm).1
      | append => cases ha
      | overwrite => cases ha
    · rw [List.foldl_cons, ← hg.shown, ← hdoes.contents ho]
      exact hholds

/-- What holds of the objects of a file system and of their handles. -/
structure Keeps (fs : FileSystem) : Prop where
  /-- An object in the tree stands at one place of it. -/
  sole : ∀ place place' o, fs.object? place = some o → fs.object? place' = some o → place = place'
  opened : ∀ path o, fs.openFile path = .ok o ↔ fs.Names path o
  handed : ∀ op o, (fs.act (.operate op)).2 = .object (.ok o) →
    (fs.act (.operate op)).1.Names op.path o ∧ o < (fs.act (.operate op)).1.objects.length
  /-- The contents of an object change by its own writes and along a path to it. -/
  changed : ∀ a o, o < fs.objects.length → (fs.act a).1.objects.contents o = fs.shown o a
  unlinked : ∀ path o, fs.Names path o → (fs.unlink path).2 = .ok () ∧ (fs.unlink path).1.Gone o
  /-- What stands nowhere is never put back, answered or changed but by its own writes. -/
  gone : ∀ o, o < fs.objects.length → fs.Gone o → ∀ later,
    (fs.actAll later).1.Gone o ∧ .object (.ok o) ∉ (fs.actAll later).2 ∧
      (fs.actAll later).1.objects.contents o =
        later.foldl (fun bs a => a.write o bs) (fs.objects.contents o)

theorem Sound.keeps (h : fs.Sound) : fs.Keeps where
  sole := h.sole
  opened := fs.openFile_eq_ok_iff
  handed op _ ha := (does_act h.tidy (.operate op)).handed h ha
  changed a _ ho := (does_act h.tidy a).contents ho
  unlinked path o hn := by
    obtain ⟨place, hplace, hobject⟩ := Option.bind_eq_some_iff.mp hn
    rcases unlink_cases h.tidy path with ⟨place', o', fs', hplace', -, hu, hl⟩ | ⟨hnone, -⟩
    · obtain rfl := Option.some.inj (hplace.symm.trans hplace')
      rw [hu]
      refine ⟨rfl, fun p hp => ?_⟩
      rw [hl.places] at hp
      split at hp
      · cases hp
      · rename_i hne
        exact hne (h.sole p place o hp hobject)
    · exact absurd hn (hnone o)
  gone _ ho hg := h.gone ho hg

/-- Open handles keep their file, and only their file. -/
theorem handles_keep_objects (history : List FileAct) : (empty.actAll history).1.Keeps :=
  (sound_empty.actAll history).keeps

end FileSystem

end KernelExam

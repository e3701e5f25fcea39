import KernelExam.Machine.Plan
import KernelExam.Proofs.FileSystem.Sights

/-!
# Seeding in any order

A seed wants folders along some names, and perhaps a file at the end of them. Seeds go together
when no file stands where a folder is wanted, whichever of them comes first. Then there is all
that they want, and nothing else.
-/

set_option autoImplicit false

namespace KernelExam

inductive Seed where
  | file (names : List String) (contents : Bytes)
  | folder (names : List String)
  deriving DecidableEq, Repr

namespace Seed

def file? : Seed → Option (List String)
  | .file names _ => some names
  | .folder _ => none

def folders : Seed → List String
  | .file names _ => names.dropLast
  | .folder names => names

/-- The file of one seed stands where the other wants a folder. A file at the root stands in
its own way. -/
def Blocks (d d' : Seed) : Prop := ∃ names, d.file? = some names ∧ names <+: d'.folders

end Seed

/-- Seeds that go together. -/
def Compatible (seeds : List Seed) : Prop := ∀ d ∈ seeds, ∀ d' ∈ seeds, ¬ d.Blocks d'

theorem Compatible.of_subset {seeds more : List Seed} (h : Compatible more) (hs : seeds ⊆ more) :
    Compatible seeds := fun d hd d' hd' => h d (hs hd) d' (hs hd')

theorem exists_blocks_of_concat {seeds : List Seed} {d : Seed} (h : Compatible seeds)
    (hd : ¬ Compatible (seeds ++ [d])) :
    d.Blocks d ∨ ∃ d' ∈ seeds, d.Blocks d' ∨ d'.Blocks d := by
  by_contra hnone
  simp only [not_or, not_exists, not_and] at hnone
  refine hd fun d₁ h₁ d₂ h₂ => ?_
  rcases List.mem_append.mp h₁ with hold₁ | hnew₁ <;>
    rcases List.mem_append.mp h₂ with hold₂ | hnew₂
  · exact h d₁ hold₁ d₂ hold₂
  · obtain rfl := List.mem_singleton.mp hnew₂
    exact (hnone.2 d₁ hold₁).2
  · obtain rfl := List.mem_singleton.mp hnew₁
    exact (hnone.2 d₂ hold₂).1
  · obtain rfl := List.mem_singleton.mp hnew₁
    obtain rfl := List.mem_singleton.mp hnew₂
    exact hnone.1

namespace PathMap

variable {s : PathMap} {seeds seeds' : List Seed} {d : Seed}

def sow (s : PathMap) : Seed → PathMap × Except FileError Unit
  | .file names bs => s.writeFile names bs
  | .folder names => s.makeFolders names

/-- All that some seeds want is there, and nothing else. -/
structure Depicts (s : PathMap) (seeds : List Seed) : Prop where
  folder : ∀ place, s.sight place = some .folder ↔ place = [] ∨ ∃ d ∈ seeds, place <+: d.folders
  file : ∀ place bs, s.sight place = some (.file bs) ↔ .file place bs ∈ seeds

theorem depicts_empty : empty.Depicts [] := by
  have hkind : ∀ place, empty.kind place = if place = [] then some .folder else none := by
    intro place
    rw [kind, empty]
    by_cases hp : place = []
    · rw [hp, Finmap.lookup_singleton_eq, if_pos rfl]
    · rw [if_neg hp, Finmap.lookup_eq_none, Finmap.mem_singleton]
      exact hp
  refine ⟨fun place => ?_, fun place bs => ?_⟩
  · simp [sight_eq_folder_iff, hkind]
  · rw [sight, hkind]
    split <;> simp [Kind.sight]

theorem Depicts.clear_iff (h : s.Depicts seeds) (names : List String) :
    s.Clear names ↔ ∀ d ∈ seeds, ∀ place, d.file? = some place → ¬ place <+: names := by
  rw [PathMap.clear_iff]
  constructor
  · intro hclear d hd place hplace hp
    cases d with
    | folder => cases hplace
    | file place bs =>
      obtain rfl := Option.some.inj hplace
      exact hclear place hp bs ((h.file place bs).mpr hd)
  · intro hnone above hp bs hfile
    exact hnone _ ((h.file above bs).mp hfile) above rfl hp

theorem Depicts.sow_error (h : s.Depicts seeds) (hc : Compatible seeds)
    (hd : ¬ Compatible (seeds ++ [d])) : ∃ s' e, s.sow d = (s', .error e) := by
  have hblocks := exists_blocks_of_concat hc hd
  cases d with
  | folder names =>
    have hclear : ¬ s.Clear names := by
      rw [h.clear_iff]
      intro hnone
      rcases hblocks with ⟨place, hplace, -⟩ | ⟨d', hd', ⟨place, hplace, -⟩ | ⟨place, hplace, hp⟩⟩
      · cases hplace
      · cases hplace
      · exact hnone d' hd' place hplace hp
    exact ⟨s, .notADirectory, by simp only [sow, makeFolders, if_neg hclear]⟩
  | file names bs =>
    have hfolder : names = [] ∨ (∃ d' ∈ seeds, names <+: d'.folders) →
        s.sight names = some .folder := (h.folder names).mpr
    rcases hblocks with ⟨place, hplace, hp⟩ | ⟨d', hd', ⟨place, hplace, hp⟩ | ⟨place, hplace, hp⟩⟩
    · obtain rfl := Option.some.inj hplace
      have hroot : names = [] := by
        have hle := hp.length_le
        rw [Seed.folders, List.length_dropLast] at hle
        exact List.eq_nil_of_length_eq_zero (by omega)
      obtain ⟨e, he⟩ := writeFile_folder (hfolder (Or.inl hroot)) bs
      exact ⟨s, e, he⟩
    · obtain rfl := Option.some.inj hplace
      obtain ⟨e, he⟩ := writeFile_folder (hfolder (Or.inr ⟨d', hd', hp⟩)) bs
      exact ⟨s, e, he⟩
    · have hclear : ¬ s.Clear names.dropLast := by
        rw [h.clear_iff]
        exact fun hnone => hnone d' hd' place hplace hp
      exact ⟨s, .notADirectory, writeFile_blocked hclear bs⟩

theorem Depicts.sow_folder {names : List String} (h : s.Depicts seeds)
    (hc : Compatible (seeds ++ [.folder names])) :
    ∃ s', s.sow (.folder names) = (s', .ok ()) ∧ s'.Depicts (seeds ++ [.folder names]) := by
  have hfree : ∀ d ∈ seeds, ∀ place, d.file? = some place → ¬ place <+: names :=
    fun d hd place hplace hp => hc d (List.mem_append_left _ hd) (.folder names) (by simp)
      ⟨place, hplace, hp⟩
  have hclear := (h.clear_iff names).mpr hfree
  refine ⟨s.fill names, by simp only [sow, makeFolders, if_pos hclear], fun place => ?_,
    fun place bs => ?_⟩
  · rw [sight_fill hclear]
    split
    · rename_i hp
      exact iff_of_true rfl (Or.inr ⟨.folder names, by simp, hp⟩)
    · rename_i hp
      rw [h.folder]
      simp [or_and_right, exists_or, Seed.folders, hp]
  · rw [sight_fill hclear]
    split
    · rename_i hp
      refine iff_of_false (by simp) fun hmem => ?_
      have hmem' : Seed.file place bs ∈ seeds := by simpa using hmem
      exact hfree _ hmem' place rfl hp
    · rw [h.file]
      simp

theorem Depicts.sow_file {names : List String} {bs : Bytes} (h : s.Depicts seeds)
    (hc : Compatible (seeds ++ [.file names bs]))
    (hfresh : ∀ d ∈ seeds, d.file? ≠ some names) :
    ∃ s', s.sow (.file names bs) = (s', .ok ()) ∧ s'.Depicts (seeds ++ [.file names bs]) := by
  have hself : ¬ names <+: names.dropLast := fun hp =>
    hc (.file names bs) (by simp) (.file names bs) (by simp) ⟨names, rfl, hp⟩
  have hroot : names ≠ [] := by
    rintro rfl
    exact hself List.prefix_rfl
  have hwanted : ∀ d ∈ seeds, ¬ names <+: d.folders := fun d hd hp =>
    hc (.file names bs) (by simp) d (List.mem_append_left _ hd) ⟨names, rfl, hp⟩
  have hfree : ∀ d ∈ seeds, ∀ place, d.file? = some place → ¬ place <+: names.dropLast :=
    fun d hd place hplace hp => hc d (List.mem_append_left _ hd) (.file names bs) (by simp)
      ⟨place, hplace, hp⟩
  have hnone : s.sight names = none := by
    rcases hs : s.sight names with _ | _ | bs'
    · rfl
    · rcases (h.folder names).mp hs with hnil | ⟨d, hd, hp⟩
      · exact absurd hnil hroot
      · exact absurd hp (hwanted d hd)
    · exact absurd rfl (hfresh _ ((h.file names bs').mp hs))
  obtain ⟨s', hwrite, hsight⟩ := writeFile_new hroot ((h.clear_iff _).mpr hfree) hnone bs
  refine ⟨s', hwrite, fun place => ?_, fun place bs' => ?_⟩
  · rw [hsight]
    by_cases hp : place = names
    · rw [if_pos hp, hp]
      refine iff_of_false (by simp) ?_
      rintro (hnil | ⟨d, hd, hpre⟩)
      · exact hroot hnil
      · rcases List.mem_append.mp hd with hd | hd
        · exact hwanted d hd hpre
        · obtain rfl := List.mem_singleton.mp hd
          exact hself hpre
    · rw [if_neg hp]
      split
      · rename_i hpre
        exact iff_of_true rfl (Or.inr ⟨.file names bs, by simp, hpre⟩)
      · rename_i hpre
        rw [h.folder]
        simp [or_and_right, exists_or, Seed.folders, hpre]
  · rw [hsight]
    by_cases hp : place = names
    · rw [if_pos hp, hp]
      have hold : Seed.file names bs' ∉ seeds := fun hmem => hfresh _ hmem rfl
      simp [hold, eq_comm]
    · rw [if_neg hp]
      split
      · rename_i hpre
        refine iff_of_false (by simp) fun hmem => ?_
        have hmem' : Seed.file place bs' ∈ seeds := by simpa [hp] using hmem
        exact hfree _ hmem' place rfl hpre
      · rw [h.file]
        simp [hp]

theorem Depicts.sight_eq {s' : PathMap} (h : s.Depicts seeds) (h' : s'.Depicts seeds')
    (hsame : ∀ d, d ∈ seeds' ↔ d ∈ seeds) (place : List String) :
    s'.sight place = s.sight place := by
  refine Option.ext fun x => ?_
  cases x with
  | folder => simp only [h.folder, h'.folder, hsame]
  | file bs => simp only [h.file, h'.file, hsame]

theorem Depicts.sow (h : s.Depicts seeds) (hc : Compatible (seeds ++ [d]))
    (hfresh : ∀ d' ∈ seeds, ∀ names, d.file? = some names → d'.file? ≠ some names) :
    ∃ s', s.sow d = (s', .ok ()) ∧ s'.Depicts (seeds ++ [d]) := by
  cases d with
  | folder names => exact h.sow_folder hc
  | file names bs => exact h.sow_file hc fun d' hd' => hfresh d' hd' names rfl

end PathMap

namespace Provision

def Seeds : Provision → Prop
  | .file _ _ | .folder _ => True
  | _ => False

def filePath? : Provision → Option String
  | .file path _ => Path.resolve path "/"
  | _ => none

def seed? : Provision → Option Seed
  | .file path bs => (Path.resolve path "/").map fun q => .file (Path.components q) bs
  | .folder path => (Path.resolve path "/").map fun q => .folder (Path.components q)
  | _ => none

theorem file?_seed? (p : Provision) :
    p.seed?.bind Seed.file? = p.filePath?.map Path.components := by
  cases p with
  | file path bs => cases hq : Path.resolve path "/" <;> simp [seed?, filePath?, hq, Seed.file?]
  | folder path => cases hq : Path.resolve path "/" <;> simp [seed?, filePath?, hq, Seed.file?]
  | _ => rfl

theorem nodup_files {steps : List Provision} (h : (steps.filterMap filePath?).Nodup) :
    ((steps.filterMap seed?).filterMap Seed.file?).Nodup := by
  have hplaces : (steps.filterMap seed?).filterMap Seed.file? =
      (steps.filterMap filePath?).map Path.components := by
    rw [List.filterMap_filterMap, List.map_filterMap]
    exact List.filterMap_congr fun p _ => p.file?_seed?
  have hcanonical : ∀ q ∈ steps.filterMap filePath?, Path.Canonical q := by
    intro q hq
    obtain ⟨p, -, hp⟩ := List.mem_filterMap.mp hq
    cases p with
    | file path bs => exact Path.resolve_canonical path "/" q Path.canonical_root hp
    | _ => cases hp
  rw [hplaces]
  exact h.map_on fun q hq q' hq' he => (hcanonical q hq).eq_of_components (hcanonical q' hq') he

end Provision

namespace Plan

variable {plan : Plan} {seeds : List Seed} {p : Provision} {d : Seed}

/-- A plan with these seeds and no others in its file system. -/
def Sown (plan : Plan) (seeds : List Seed) : Prop :=
  ∃ s : PathMap, plan.files.Shows s ∧ s.Depicts seeds ∧ Compatible seeds

def Sowable (seeds : List Seed) (steps : List Provision) : Prop :=
  (∀ p ∈ steps, p.seed?.isSome) ∧ Compatible (seeds ++ steps.filterMap Provision.seed?)

theorem sowable_cons {steps : List Provision} (hp : p.seed? = some d) :
    Sowable seeds (p :: steps) ↔ Sowable (seeds ++ [d]) steps := by
  rw [Sowable, Sowable, List.filterMap_cons_some hp, List.append_cons, List.forall_mem_cons, hp]
  simp only [Option.isSome_some, true_and]

theorem Sowable.perm {steps steps' : List Provision} (h : Sowable [] steps)
    (hperm : steps.Perm steps') : Sowable [] steps' :=
  ⟨fun p hp => h.1 p (hperm.mem_iff.mpr hp), h.2.of_subset (hperm.filterMap _).symm.subset⟩

theorem fresh_of_nodup {more : List Seed}
    (h : ((seeds ++ [d] ++ more).filterMap Seed.file?).Nodup) :
    ∀ d' ∈ seeds, ∀ names, d.file? = some names → d'.file? ≠ some names := by
  intro d' hd' names hd hfile
  rw [List.append_assoc, List.filterMap_append] at h
  refine (List.nodup_append'.mp h).2.2 (List.mem_filterMap.mpr ⟨d', hd', hfile⟩) ?_
  exact List.mem_filterMap.mpr ⟨d, by simp, hd⟩

theorem seed_of_agree {path q : String} {change : String → FileSystem × Except FileError Unit}
    {flat : PathMap × Except FileError Unit} (hq : Path.resolve path "/" = some q)
    (h : Agree (change q) flat) :
    (∀ s', flat = (s', .ok ()) →
      ∃ files, files.Shows s' ∧ plan.seed path change = .ok { plan with files }) ∧
    ∀ s' e, flat = (s', .error e) → ∃ e', plan.seed path change = .error e' := by
  rcases hc : change q with ⟨files, r⟩
  rw [hc] at h
  obtain ⟨hanswer, hshows⟩ := h
  constructor
  · rintro s' rfl
    obtain rfl : r = .ok () := hanswer
    exact ⟨files, hshows, by simp only [seed, hq, hc]⟩
  · rintro s' e rfl
    obtain rfl : r = .error e := hanswer
    exact ⟨.seed path e, by simp only [seed, hq, hc]⟩

theorem provide_seed {s : PathMap} (hs : plan.files.Shows s) (hp : p.seed? = some d) :
    (∀ s', s.sow d = (s', .ok ()) →
      ∃ files, files.Shows s' ∧ plan.provide p = .ok { plan with files }) ∧
    ∀ s' e, s.sow d = (s', .error e) → ∃ e', plan.provide p = .error e' := by
  cases p with
  | file path bs =>
    obtain ⟨q, hq, rfl⟩ := Option.map_eq_some_iff.mp hp
    have hcanonical := Path.resolve_canonical path "/" q Path.canonical_root hq
    exact seed_of_agree hq (hs.writeFile hcanonical bs)
  | folder path =>
    obtain ⟨q, hq, rfl⟩ := Option.map_eq_some_iff.mp hp
    have hcanonical := Path.resolve_canonical path "/" q Path.canonical_root hq
    have hagree := hs.makeFolders hcanonical.proper
    rw [hcanonical.render_components] at hagree
    exact seed_of_agree hq hagree
  | _ => cases hp

theorem provide_nowhere (plan : Plan) (hseeds : p.Seeds) (hp : p.seed? = none) :
    ∃ e, plan.provide p = .error e := by
  cases p with
  | file path bs | folder path =>
    have hq := Option.map_eq_none_iff.mp hp
    exact ⟨.seed path .invalidPath, by simp only [provide, seed, hq]⟩
  | _ => cases hseeds

theorem Sown.provide (h : plan.Sown seeds) (hp : p.seed? = some d)
    (hfresh : ∀ d' ∈ seeds, ∀ names, d.file? = some names → d'.file? ≠ some names) :
    (Compatible (seeds ++ [d]) → ∃ files, plan.provide p = .ok { plan with files } ∧
      ({ plan with files } : Plan).Sown (seeds ++ [d])) ∧
    (¬ Compatible (seeds ++ [d]) → ∃ e, plan.provide p = .error e) := by
  obtain ⟨s, hs, hdepicts, hc⟩ := h
  obtain ⟨hok, herror⟩ := provide_seed hs hp
  constructor
  · intro hd
    obtain ⟨s', hsow, hdepicts'⟩ := hdepicts.sow hd hfresh
    obtain ⟨files, hs', hprovide⟩ := hok s' hsow
    exact ⟨files, hprovide, s', hs', hdepicts', hd⟩
  · intro hd
    obtain ⟨s', e, hsow⟩ := hdepicts.sow_error hc hd
    exact herror s' e hsow

/-- Steps are all taken just when every path leads somewhere and their seeds go together, and
then the plan has these seeds. -/
theorem Sown.provideAll (h : plan.Sown seeds) (steps : List Provision)
    (hsteps : ∀ p ∈ steps, p.Seeds)
    (hfresh : ((seeds ++ steps.filterMap Provision.seed?).filterMap Seed.file?).Nodup) :
    (Sowable seeds steps → ∃ files, plan.provideAll steps = .ok { plan with files } ∧
      ({ plan with files } : Plan).Sown (seeds ++ steps.filterMap Provision.seed?)) ∧
    (¬ Sowable seeds steps → ∃ e, plan.provideAll steps = .error e) := by
  induction steps generalizing plan seeds with
  | nil =>
    have hc : Compatible seeds := h.choose_spec.2.2
    have hsowable : Sowable seeds [] := ⟨nofun, by rwa [List.filterMap_nil, List.append_nil]⟩
    rw [List.filterMap_nil, List.append_nil]
    exact ⟨fun _ => ⟨plan.files, rfl, h⟩, fun hnot => absurd hsowable hnot⟩
  | cons p steps ih =>
    cases hp : p.seed? with
    | none =>
      obtain ⟨e, he⟩ := plan.provide_nowhere (hsteps p (List.mem_cons_self ..)) hp
      refine ⟨fun hsow => ?_, fun _ => ⟨e, by simp only [Plan.provideAll, he]⟩⟩
      have hsome := hsow.1 p (List.mem_cons_self ..)
      rw [hp] at hsome
      cases hsome
    | some d =>
      rw [List.filterMap_cons_some hp, List.append_cons] at hfresh ⊢
      rw [sowable_cons hp]
      obtain ⟨hok, herror⟩ := h.provide hp (fresh_of_nodup hfresh)
      by_cases hc : Compatible (seeds ++ [d])
      · obtain ⟨files, hprovide, hsown⟩ := hok hc
        have hrest := ih hsown (fun p' hp' => hsteps p' (List.mem_cons_of_mem _ hp')) hfresh
        simp only [Plan.provideAll, hprovide]
        exact hrest
      · obtain ⟨e, he⟩ := herror hc
        refine ⟨fun hsow => ?_, fun _ => ⟨e, by simp only [Plan.provideAll, he]⟩⟩
        exact absurd (hsow.2.of_subset (List.subset_append_left ..)) hc

theorem sown_new (h : plan.files = .empty) : plan.Sown [] :=
  ⟨.empty, h ▸ FileSystem.Shows.empty, PathMap.depicts_empty, nofun⟩

/-- The order of seeding does not matter: the steps are all taken in one order just when they
are in another, and then the file systems are the same, and the rest of the plans too. -/
theorem seeding_order (hnew : plan.files = .empty) {steps steps' : List Provision}
    (hperm : steps.Perm steps') (hsteps : ∀ p ∈ steps, p.Seeds)
    (hfiles : (steps.filterMap Provision.filePath?).Nodup) :
    ((∃ a, plan.provideAll steps = .ok a) ↔ ∃ b, plan.provideAll steps' = .ok b) ∧
    ∀ a b, plan.provideAll steps = .ok a → plan.provideAll steps' = .ok b →
      a.files.Same b.files ∧ b = { a with files := b.files } := by
  have hsteps' : ∀ p ∈ steps', p.Seeds := fun p hp => hsteps p (hperm.mem_iff.mpr hp)
  have hfiles' := (hperm.filterMap _).nodup_iff.mp hfiles
  have hsame := hperm.filterMap Provision.seed?
  obtain ⟨hok, herror⟩ := (sown_new hnew).provideAll steps hsteps (Provision.nodup_files hfiles)
  obtain ⟨hok', herror'⟩ :=
    (sown_new hnew).provideAll steps' hsteps' (Provision.nodup_files hfiles')
  by_cases hsow : Sowable [] steps
  · obtain ⟨files, hall, s, hs, hdepicts, -⟩ := hok hsow
    obtain ⟨files', hall', s', hs', hdepicts', -⟩ := hok' (hsow.perm hperm)
    refine ⟨iff_of_true ⟨_, hall⟩ ⟨_, hall'⟩, fun a b ha hb => ?_⟩
    obtain rfl := Except.ok.inj (hall.symm.trans ha)
    obtain rfl := Except.ok.inj (hall'.symm.trans hb)
    exact ⟨.of_sights hs hs' (hdepicts.sight_eq hdepicts' fun d => hsame.mem_iff.symm), rfl⟩
  · obtain ⟨e, he⟩ := herror hsow
    obtain ⟨e', he'⟩ := herror' fun h => hsow (h.perm hperm.symm)
    rw [he, he']
    exact ⟨iff_of_false nofun nofun, nofun⟩

/-- A file and a folder at one place: the second of them is refused, whichever it is. -/
example : [[.file "/a" [1], .folder "/a/b"], [.folder "/a/b", .file "/a" [1]]].map
    (fun steps => (empty.provideAll steps).isOk) = [false, false] := by
  decide

def orchard : List Provision :=
  [.file "/a/b/f" [1], .folder "/a/c", .folder "a/c/./d", .file "/a/g/../h" [2]]

theorem seeding_order_orchard : ∃ a b, empty.provideAll orchard = .ok a ∧
    empty.provideAll orchard.reverse = .ok b ∧ a.files.objects = [[1], [2]] ∧
    b.files.objects = [[2], [1]] ∧ a.files.Same b.files := by
  have hsteps : ∀ p ∈ orchard, p.Seeds := by simp [orchard, Provision.Seeds]
  have hfiles : (orchard.filterMap Provision.filePath?).Nodup := by decide
  have hnew : empty.files = .empty := rfl
  have horder := seeding_order hnew orchard.reverse_perm.symm hsteps hfiles
  have ha : empty.provideAll orchard = .ok _ := rfl
  have hb : empty.provideAll orchard.reverse = .ok _ := rfl
  exact ⟨_, _, ha, hb, rfl, rfl, (horder.2 _ _ ha hb).1⟩

end Plan

end KernelExam

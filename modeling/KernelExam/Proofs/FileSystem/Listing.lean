import KernelExam.FileSystem.Listing
import Mathlib.Data.List.Infix

/-!
# What a listing shows

A listing is read as a map from lists of names to kinds. Each change of a
listing is stated against that map: what it shows at the changed place, and that
it shows the same everywhere else.
-/

set_option autoImplicit false

namespace KernelExam

def FileError.of? {α : Type} : Except FileError α → Option FileError
  | .ok _ => none
  | .error e => some e

inductive Kind where
  | folder
  | file (object : Nat)
  deriving DecidableEq, Repr

/-- Why nothing can be looked up below a place: it is a file or it is not there. -/
def Kind.obstacle? : Option Kind → Option FileError
  | some .folder => none
  | some (.file _) => some .notADirectory
  | none => some .notFound

def Kind.firstObstacle? (kinds : List String → Option Kind) (names : List String) :
    Option FileError :=
  names.inits.findSome? fun above => obstacle? (kinds above)

def Entry.kind : Entry → Kind
  | .file o => .file o
  | .folder _ => .folder

namespace Listing

def kindAt : Listing → List String → Option Kind
  | _, [] => some .folder
  | l, name :: rest => match l.find? name with
    | some (.folder inside) => inside.kindAt rest
    | some (.file o) => if rest = [] then some (.file o) else none
    | none => none

/-- No directory has two entries of one name. -/
def Tidy : Listing → Prop
  | empty => True
  | file n _ more => more.find? n = none ∧ more.Tidy
  | folder n inside more => more.find? n = none ∧ inside.Tidy ∧ more.Tidy

theorem kindAt_empty (names : List String) (h : names ≠ []) : empty.kindAt names = none := by
  cases names with
  | nil => exact absurd rfl h
  | cons name rest => rfl

theorem kindAt_folder (l inside : Listing) (name : String) (rest : List String)
    (h : l.find? name = some (.folder inside)) : l.kindAt (name :: rest) = inside.kindAt rest := by
  simp [kindAt, h]

theorem kindAt_none (l : Listing) (name : String) (rest : List String)
    (h : l.find? name = none) : l.kindAt (name :: rest) = none := by
  simp [kindAt, h]

theorem kindAt_congr (l l' : Listing) (name : String) (rest : List String)
    (h : l'.find? name = l.find? name) : l'.kindAt (name :: rest) = l.kindAt (name :: rest) := by
  simp [kindAt, h]

theorem kindAt_singleton (l : Listing) (name : String) :
    l.kindAt [name] = (l.find? name).map Entry.kind := by
  rcases h : l.find? name with _ | _ | _ <;> simp [kindAt, h, Entry.kind]

theorem kindAt_of_folderAt (names more : List String) (l inside : Listing)
    (h : l.folderAt names = .ok inside) : l.kindAt (names ++ more) = inside.kindAt more := by
  induction names generalizing l with
  | nil =>
    obtain rfl : l = inside := by simpa [folderAt] using h
    rfl
  | cons name rest ih =>
    cases hf : l.find? name with
    | none => simp [folderAt, hf] at h
    | some e =>
      cases e with
      | file o => simp [folderAt, hf] at h
      | folder sub =>
        rw [List.cons_append, kindAt_folder l sub name _ hf]
        exact ih sub (by simpa [folderAt, hf] using h)

theorem kindAt_of_folderAt_error (names : List String) (l : Listing) (e : FileError) (name : String)
    (h : l.folderAt names = .error e) : l.kindAt (names ++ [name]) = none := by
  induction names generalizing l with
  | nil => cases h
  | cons n rest ih =>
    cases hf : l.find? n with
    | none => exact kindAt_none l n _ hf
    | some entry =>
      cases entry with
      | file o => simp [kindAt, hf]
      | folder inside =>
        rw [List.cons_append, kindAt_folder l inside n _ hf]
        exact ih inside (by simpa [folderAt, hf] using h)

theorem isOk_folderAt (names : List String) (l : Listing) :
    (l.folderAt names).isOk = decide (l.kindAt names = some .folder) := by
  induction names generalizing l with
  | nil => simp [folderAt, kindAt, Except.isOk, Except.toBool]
  | cons name rest ih =>
    cases hf : l.find? name with
    | none => simp [folderAt, kindAt, hf, Except.isOk, Except.toBool]
    | some e =>
      cases e with
      | file o => simp [folderAt, kindAt, hf, Except.isOk, Except.toBool]
      | folder inside => simpa [folderAt, kindAt, hf] using ih inside

theorem firstObstacle?_kindAt (names : List String) (l : Listing) :
    Kind.firstObstacle? l.kindAt names = FileError.of? (l.folderAt names) := by
  induction names generalizing l with
  | nil => rfl
  | cons name rest ih =>
    simp only [Kind.firstObstacle?, List.inits_cons, List.findSome?_cons, List.findSome?_map,
      Function.comp_def, kindAt, Kind.obstacle?]
    cases hf : l.find? name with
    | none => cases rest <;> simp [folderAt, hf, FileError.of?]
    | some e =>
      cases e with
      | file o => cases rest <;> simp [folderAt, hf, FileError.of?]
      | folder inside =>
        have hi := ih inside
        simp only [Kind.firstObstacle?, Kind.obstacle?] at hi
        simpa [folderAt, hf] using hi

theorem eq_empty_iff (l : Listing) : l = .empty ↔ ∀ name, l.kindAt [name] = none := by
  constructor
  · rintro rfl name
    rfl
  · intro h
    cases l with
    | empty => rfl
    | file n o more => simpa [kindAt, find?] using h n
    | folder n inside more => simpa [kindAt, find?] using h n

theorem kindAt_add (l : Listing) (name : String) (e : Entry) (n : String) (rest : List String)
    (h : name ≠ n) : (l.add name e).kindAt (n :: rest) = l.kindAt (n :: rest) :=
  kindAt_congr _ _ _ _ (by simp [find?_add, h])

theorem kindAt_add_fresh (l : Listing) (name : String) (e : Entry) (rest : List String)
    (h : ∀ inside, e = .folder inside → inside = .empty) :
    (l.add name e).kindAt (name :: rest) = if rest = [] then some e.kind else none := by
  cases e with
  | file o => simp [kindAt, find?_add, Entry.kind]
  | folder inside =>
    obtain rfl := h inside rfl
    cases rest <;> simp [kindAt, find?_add, Entry.kind, find?]

theorem kindAt_add_folder (l inside : Listing) (name : String) (rest : List String) :
    (l.add name (.folder inside)).kindAt (name :: rest) = inside.kindAt rest :=
  kindAt_folder _ _ _ _ (by simp [find?_add])

theorem find?_refill (l inside contents : Listing) (name : String)
    (h : l.find? name = some (.folder inside)) :
    (l.refill name contents).find? name = some (.folder contents) := by
  induction l with
  | empty => simp [find?] at h
  | file n o more ih =>
    by_cases hn : n = name
    · simp [find?, hn] at h
    · simpa [refill, find?, hn] using ih (by simpa [find?, hn] using h)
  | folder n sub more _ ih =>
    by_cases hn : n = name
    · simp [refill, find?, hn]
    · simpa [refill, find?, hn] using ih (by simpa [find?, hn] using h)

theorem refill_self (l inside : Listing) (name : String)
    (h : l.find? name = some (.folder inside)) : l.refill name inside = l := by
  induction l with
  | empty => rfl
  | file n o more ih =>
    by_cases hn : n = name
    · simp [find?, hn] at h
    · simp [refill, ih (by simpa [find?, hn] using h)]
  | folder n sub more _ ih =>
    by_cases hn : n = name
    · obtain rfl : sub = inside := by simpa [find?, hn] using h
      simp [refill, hn]
    · simp [refill, hn, ih (by simpa [find?, hn] using h)]

theorem kindAt_refill (l inside contents : Listing) (name : String) (n : String)
    (rest : List String) (h : l.find? name = some (.folder inside)) :
    (l.refill name contents).kindAt (n :: rest) =
      if n = name then contents.kindAt rest else l.kindAt (n :: rest) := by
  by_cases hn : n = name
  · subst n
    rw [if_pos rfl, kindAt_folder _ _ _ _ (find?_refill l inside contents name h)]
  · rw [if_neg hn]
    exact kindAt_congr _ _ _ _ (find?_refill_of_ne l name n contents (Ne.symm hn))

/-- At and below the edited folder the listing shows what the edit made of it. -/
theorem kindAt_editAt (edit : Listing → Listing) (names more : List String) (l inside : Listing)
    (h : l.folderAt names = .ok inside) :
    (l.editAt edit names).kindAt (names ++ more) = (edit inside).kindAt more := by
  induction names generalizing l with
  | nil =>
    obtain rfl : l = inside := by simpa [folderAt] using h
    rfl
  | cons name rest ih =>
    cases hf : l.find? name with
    | none => simp [folderAt, hf] at h
    | some e =>
      cases e with
      | file o => simp [folderAt, hf] at h
      | folder sub =>
        simp only [editAt, hf, List.cons_append]
        rw [kindAt_refill l sub _ name name _ hf, if_pos rfl]
        exact ih sub (by simpa [folderAt, hf] using h)

theorem kindAt_editAt_of_not_prefix (edit : Listing → Listing) (names place : List String)
    (l : Listing) (h : ¬ names <+: place) : (l.editAt edit names).kindAt place = l.kindAt place := by
  induction names generalizing l place with
  | nil => exact absurd (List.nil_prefix) h
  | cons name rest ih =>
    cases place with
    | nil => rfl
    | cons n place =>
      cases hf : l.find? name with
      | none => simp [editAt, hf]
      | some e =>
        cases e with
        | file o => simp [editAt, hf]
        | folder sub =>
          simp only [editAt, hf]
          rw [kindAt_refill l sub _ name n place hf]
          by_cases hn : n = name
          · subst n
            have hp : ¬ rest <+: place := fun hp => h (List.cons_prefix_cons.mpr ⟨rfl, hp⟩)
            rw [if_pos rfl, ih place sub hp, kindAt_folder l sub name place hf]
          · rw [if_neg hn]

theorem kindAt_of_folderAt_nil {l dir : Listing} {above : List String}
    (hd : l.folderAt above = .ok dir) : l.kindAt above = some .folder := by
  simpa [kindAt] using kindAt_of_folderAt above [] l dir hd

theorem kindAt_link {l dir : Listing} {above : List String} {name : String} {e : Entry}
    (hd : l.folderAt above = .ok dir) (hn : dir.find? name = none)
    (he : ∀ inside, e = .folder inside → inside = .empty) (place : List String) :
    (l.editAt (·.add name e) above).kindAt place =
      if place = above ++ [name] then some e.kind else l.kindAt place := by
  by_cases ha : above <+: place
  · obtain ⟨more, rfl⟩ := ha
    rw [kindAt_editAt _ above more l dir hd]
    cases more with
    | nil => simpa [kindAt] using (kindAt_of_folderAt_nil hd).symm
    | cons n more =>
      by_cases hname : n = name
      · subst n
        rw [kindAt_add_fresh dir name e more he]
        cases more with
        | nil => simp
        | cons next more =>
          rw [if_neg (by simp), if_neg (by simp), kindAt_of_folderAt above _ l dir hd,
            kindAt_none dir name _ hn]
      · rw [kindAt_add dir name e n more (Ne.symm hname), if_neg (by simp [hname]),
          kindAt_of_folderAt above _ l dir hd]
  · have hsame := kindAt_editAt_of_not_prefix (·.add name e) above place l ha
    rw [hsame, if_neg]
    rintro rfl
    exact ha (List.prefix_append _ _)

theorem Tidy.inside {l inside : Listing} {name : String} (h : l.Tidy)
    (hf : l.find? name = some (.folder inside)) : inside.Tidy := by
  induction l with
  | empty => simp [find?] at hf
  | file n o more ih =>
    by_cases hn : n = name
    · simp [find?, hn] at hf
    · exact ih h.2 (by simpa [find?, hn] using hf)
  | folder n sub more _ ih =>
    by_cases hn : n = name
    · obtain rfl : sub = inside := by simpa [find?, hn] using hf
      exact h.2.1
    · exact ih h.2.2 (by simpa [find?, hn] using hf)

theorem Tidy.folderAt {l inside : Listing} {names : List String} (h : l.Tidy)
    (hf : l.folderAt names = .ok inside) : inside.Tidy := by
  induction names generalizing l with
  | nil =>
    obtain rfl : l = inside := by simpa [Listing.folderAt] using hf
    exact h
  | cons name rest ih =>
    cases hn : l.find? name with
    | none => simp [Listing.folderAt, hn] at hf
    | some e =>
      cases e with
      | file o => simp [Listing.folderAt, hn] at hf
      | folder sub => exact ih (h.inside hn) (by simpa [Listing.folderAt, hn] using hf)

theorem Tidy.find?_erase {l : Listing} (h : l.Tidy) (name : String) :
    (l.erase name).find? name = none := by
  induction l with
  | empty => rfl
  | file n o more ih =>
    by_cases hn : n = name
    · simpa [erase, hn] using hn ▸ h.1
    · simpa [erase, find?, hn] using ih h.2
  | folder n sub more _ ih =>
    by_cases hn : n = name
    · simpa [erase, hn] using hn ▸ h.1
    · simpa [erase, find?, hn] using ih h.2.2

theorem Tidy.kindAt_unlink {l dir : Listing} {above : List String} {name : String} (h : l.Tidy)
    (hd : l.folderAt above = .ok dir)
    (hc : ∀ next more, l.kindAt (above ++ name :: next :: more) = none) (place : List String) :
    (l.editAt (·.erase name) above).kindAt place =
      if place = above ++ [name] then none else l.kindAt place := by
  by_cases ha : above <+: place
  · obtain ⟨more, rfl⟩ := ha
    rw [kindAt_editAt _ above more l dir hd]
    cases more with
    | nil => simpa [kindAt] using (kindAt_of_folderAt_nil hd).symm
    | cons n more =>
      by_cases hname : name = n
      · subst name
        rw [kindAt_none _ n more ((h.folderAt hd).find?_erase n)]
        cases more with
        | nil => simp
        | cons next more => rw [if_neg (by simp), hc]
      · rw [kindAt_congr _ _ n more (find?_erase_of_ne dir name n hname),
          if_neg (by simp [Ne.symm hname]), kindAt_of_folderAt above _ l dir hd]
  · have hsame := kindAt_editAt_of_not_prefix (·.erase name) above place l ha
    rw [hsame, if_neg]
    rintro rfl
    exact ha (List.prefix_append _ _)

theorem find?_erase_eq_none {l : Listing} (name n : String) (h : l.find? n = none) (ht : l.Tidy) :
    (l.erase name).find? n = none := by
  by_cases hn : name = n
  · subst n
    exact ht.find?_erase name
  · rw [find?_erase_of_ne l name n hn, h]

theorem refill_of_find?_eq_none {l : Listing} (name : String) (contents : Listing)
    (h : l.find? name = none) : l.refill name contents = l := by
  induction l with
  | empty => rfl
  | file n o more ih =>
    by_cases hn : n = name
    · simp [find?, hn] at h
    · simp [refill, ih (by simpa [find?, hn] using h)]
  | folder n sub more _ ih =>
    by_cases hn : n = name
    · simp [find?, hn] at h
    · simp [refill, hn, ih (by simpa [find?, hn] using h)]

theorem find?_refill_eq_none {l : Listing} (name n : String) (contents : Listing)
    (h : l.find? n = none) : (l.refill name contents).find? n = none := by
  by_cases hn : name = n
  · subst n
    rw [refill_of_find?_eq_none name contents h, h]
  · rw [find?_refill_of_ne l name n contents hn, h]

theorem Tidy.add_file {l : Listing} (h : l.Tidy) (name : String) (o : Nat)
    (hn : l.find? name = none) : (l.add name (.file o)).Tidy := ⟨hn, h⟩

theorem Tidy.add_folder {l inside : Listing} (h : l.Tidy) (hi : inside.Tidy) (name : String)
    (hn : l.find? name = none) : (l.add name (.folder inside)).Tidy := ⟨hn, hi, h⟩

theorem Tidy.erase {l : Listing} (h : l.Tidy) (name : String) : (l.erase name).Tidy := by
  induction l with
  | empty => trivial
  | file n o more ih =>
    by_cases hn : n = name
    · simpa [Listing.erase, hn] using h.2
    · simpa [Listing.erase, hn, Tidy] using ⟨find?_erase_eq_none name n h.1 h.2, ih h.2⟩
  | folder n sub more _ ih =>
    by_cases hn : n = name
    · simpa [Listing.erase, hn] using h.2.2
    · simpa [Listing.erase, hn, Tidy] using
        ⟨find?_erase_eq_none name n h.1 h.2.2, h.2.1, ih h.2.2⟩

theorem Tidy.refill {l contents : Listing} (h : l.Tidy) (hc : contents.Tidy) (name : String) :
    (l.refill name contents).Tidy := by
  induction l with
  | empty => trivial
  | file n o more ih => exact ⟨find?_refill_eq_none name n contents h.1, ih h.2⟩
  | folder n sub more _ ih =>
    by_cases hn : n = name
    · simpa [Listing.refill, hn, Tidy] using ⟨hn ▸ h.1, hc, h.2.2⟩
    · simpa [Listing.refill, hn, Tidy] using
        ⟨find?_refill_eq_none name n contents h.1, h.2.1, ih h.2.2⟩

theorem Tidy.editAt {l inside : Listing} {edit : Listing → Listing} {names : List String}
    (h : l.Tidy) (hf : l.folderAt names = .ok inside) (he : (edit inside).Tidy) :
    (l.editAt edit names).Tidy := by
  induction names generalizing l with
  | nil =>
    obtain rfl : l = inside := by simpa [Listing.folderAt] using hf
    exact he
  | cons name rest ih =>
    cases hn : l.find? name with
    | none => simp [Listing.folderAt, hn] at hf
    | some e =>
      cases e with
      | file o => simp [Listing.folderAt, hn] at hf
      | folder sub =>
        simp only [Listing.editAt, hn]
        exact h.refill (ih (h.inside hn) (by simpa [Listing.folderAt, hn] using hf)) name

theorem makeFolders_error (names : List String) (l l' : Listing) (e : FileError)
    (h : l.makeFolders names = (l', some e)) :
    l' = l ∧ e = .notADirectory ∧ ∃ above o, above <+: names ∧ l.kindAt above = some (.file o) := by
  induction names generalizing l l' with
  | nil => simp [makeFolders] at h
  | cons name rest ih =>
    cases hf : l.find? name with
    | none =>
      simp only [makeFolders, hf, Prod.mk.injEq] at h
      obtain ⟨-, -, above, o, -, hk⟩ := ih empty _ (Prod.ext rfl h.2)
      cases above with
      | nil => simp [kindAt] at hk
      | cons n above => simp [kindAt, find?] at hk
    | some entry =>
      cases entry with
      | file o =>
        simp only [makeFolders, hf, Prod.mk.injEq, Option.some.injEq] at h
        refine ⟨h.1.symm, h.2.symm, [name], o, List.cons_prefix_cons.mpr ⟨rfl, List.nil_prefix⟩, ?_⟩
        simp [kindAt, hf]
      | folder inside =>
        simp only [makeFolders, hf, Prod.mk.injEq] at h
        obtain ⟨hi, he, above, o, hp, hk⟩ := ih inside (inside.makeFolders rest).1 (Prod.ext rfl h.2)
        refine ⟨?_, he, name :: above, o, List.cons_prefix_cons.mpr ⟨rfl, hp⟩, ?_⟩
        · rw [← h.1, hi, refill_self l inside name hf]
        · rw [kindAt_folder l inside name above hf, hk]

/-- Making folders adds those that are missing on the way and nothing else. -/
theorem makeFolders_ok (names : List String) (l l' : Listing)
    (h : l.makeFolders names = (l', none)) :
    (∀ above, above <+: names → l.kindAt above = some .folder ∨ l.kindAt above = none) ∧
    ∀ place, l'.kindAt place = if place <+: names then some .folder else l.kindAt place := by
  induction names generalizing l l' with
  | nil =>
    obtain rfl : l = l' := by simpa [makeFolders] using h
    refine ⟨fun above ha => ?_, fun place => ?_⟩
    · rw [List.prefix_nil.mp ha]
      exact Or.inl rfl
    · by_cases hp : place = []
      · simp [hp, kindAt]
      · simp [hp]
  | cons name rest ih =>
    cases hf : l.find? name with
    | none =>
      simp only [makeFolders, hf, Prod.mk.injEq] at h
      obtain ⟨-, hk⟩ := ih empty _ (Prod.ext rfl h.2)
      constructor
      · intro above ha
        cases above with
        | nil => exact Or.inl rfl
        | cons n above =>
          obtain ⟨rfl, -⟩ := List.cons_prefix_cons.mp ha
          exact Or.inr (kindAt_none l n above hf)
      · intro place
        rw [← h.1]
        cases place with
        | nil => simp [kindAt]
        | cons n place =>
          by_cases hn : n = name
          · subst n
            rw [kindAt_add_folder, hk, kindAt_none l name place hf]
            cases place <;> simp [List.cons_prefix_cons, kindAt_empty]
          · rw [kindAt_add l name _ n place (Ne.symm hn)]
            simp [List.cons_prefix_cons, hn]
    | some entry =>
      cases entry with
      | file o => simp [makeFolders, hf] at h
      | folder inside =>
        simp only [makeFolders, hf, Prod.mk.injEq] at h
        obtain ⟨hb, hk⟩ := ih inside _ (Prod.ext rfl h.2)
        constructor
        · intro above ha
          cases above with
          | nil => exact Or.inl rfl
          | cons n above =>
            obtain ⟨rfl, hp⟩ := List.cons_prefix_cons.mp ha
            rw [kindAt_folder l inside n above hf]
            exact hb above hp
        · intro place
          rw [← h.1]
          cases place with
          | nil => simp [kindAt]
          | cons n place =>
            rw [kindAt_refill l inside _ name n place hf]
            by_cases hn : n = name
            · subst n
              rw [if_pos rfl, hk, kindAt_folder l inside name place hf]
              simp [List.cons_prefix_cons]
            · simp [List.cons_prefix_cons, hn]

theorem makeFolders_of_folderAt (names : List String) (l dir : Listing)
    (h : l.folderAt names = .ok dir) : l.makeFolders names = (l, none) := by
  induction names generalizing l with
  | nil => rfl
  | cons name rest ih =>
    cases hf : l.find? name with
    | none => simp [folderAt, hf] at h
    | some entry =>
      cases entry with
      | file o => simp [folderAt, hf] at h
      | folder inside =>
        have hi := ih inside (by simpa [folderAt, hf] using h)
        simp only [makeFolders, hf, hi, refill_self l inside name hf]

theorem makeFolders_ok_cases (names : List String) (l l' : Listing)
    (h : l.makeFolders names = (l', none)) :
    l' = l ∨ l'.folderAt names = .ok .empty := by
  induction names generalizing l l' with
  | nil =>
    obtain rfl : l = l' := by simpa [makeFolders] using h
    exact Or.inl rfl
  | cons name rest ih =>
    cases hf : l.find? name with
    | none =>
      simp only [makeFolders, hf, Prod.mk.injEq] at h
      obtain ⟨rfl, hnone⟩ := h
      have hmade : (empty.makeFolders rest).1.folderAt rest = .ok .empty := by
        rcases ih empty _ (Prod.ext rfl hnone) with hsame | hempty
        · cases rest with
          | nil => rfl
          | cons next rest => simp [makeFolders, find?, add] at hsame
        · exact hempty
      right
      rw [folderAt, find?_add, if_pos rfl]
      exact hmade
    | some entry =>
      cases entry with
      | file o => simp [makeFolders, hf] at h
      | folder inside =>
        simp only [makeFolders, hf, Prod.mk.injEq] at h
        obtain ⟨rfl, hnone⟩ := h
        rcases ih inside (inside.makeFolders rest).1 (Prod.ext rfl hnone) with hsame | hempty
        · left
          rw [hsame, refill_self l inside name hf]
        · right
          rw [folderAt, find?_refill _ _ _ _ hf]
          exact hempty

theorem Tidy.makeFolders {l : Listing} (h : l.Tidy) (names : List String) :
    (l.makeFolders names).1.Tidy := by
  induction names generalizing l with
  | nil => exact h
  | cons name rest ih =>
    cases hf : l.find? name with
    | none =>
      simp only [Listing.makeFolders, hf]
      exact h.add_folder (@ih empty trivial) name hf
    | some entry =>
      cases entry with
      | file o => simpa [Listing.makeFolders, hf] using h
      | folder inside =>
        simp only [Listing.makeFolders, hf]
        exact h.refill (ih (h.inside hf)) name

end Listing

end KernelExam

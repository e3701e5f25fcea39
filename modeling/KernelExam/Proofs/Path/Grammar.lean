import KernelExam.Proofs.Path.Canonical
import Mathlib.Data.List.TakeWhile

/-!
# Which paths resolve, and to what

A path is spelled by the slashes that it begins with and the names after them. Which names lead
from one place to another is a relation of its own, and a path resolves exactly when its names
lead from where it starts without going up at the root. Places are lists of names from the root
down.
-/

set_option autoImplicit false

namespace KernelExam.Path

/-- Some slashes and then names, with one slash between two of them. -/
structure Spells (path : String) (slashes : Nat) (names : List String) : Prop where
  nonempty : names ≠ []
  named : ∀ n ∈ names, n ≠ "" ∧ '/' ∉ n.toList
  text : path.toList = List.replicate slashes '/' ++ ['/'].intercalate (names.map String.toList)

/-- Names lead from a place to a place. None leads up from the root. -/
inductive Leads : List String → List String → List String → Prop
  | here (place : List String) : Leads place [] place
  | stay {place : List String} {name : String} {rest there : List String} (hname : name = ".")
      (h : Leads place rest there) : Leads place (name :: rest) there
  | up {above : List String} {last name : String} {rest there : List String} (hname : name = "..")
      (h : Leads above rest there) : Leads (above ++ [last]) (name :: rest) there
  | down {place : List String} {name : String} {rest there : List String} (hstay : name ≠ ".")
      (hup : name ≠ "..") (h : Leads (place ++ [name]) rest there) :
      Leads place (name :: rest) there

def origin (slashes : Nat) (cwd : String) : List String :=
  if slashes = 0 then components cwd else []

theorem segments_eq_splitOn (cs : List Char) : segments cs = cs.splitOn '/' := by
  induction cs with
  | nil => rfl
  | cons c cs ih =>
    rw [List.splitOn, List.splitOnP_cons_eq_if_modifyHead, ← List.splitOn, ← ih, segments]
    by_cases hc : c = '/'
    · simp [hc]
    · cases hs : segments cs with
      | nil => exact absurd hs (segments_ne_nil cs)
      | cons first more => simp [hc]

theorem map_ofList_map_toList (names : List String) :
    (names.map String.toList).map String.ofList = names := by
  simp [Function.comp_def]

theorem segments_intercalate {names : List String} (hne : names ≠ [])
    (h : ∀ n ∈ names, '/' ∉ n.toList) :
    segments (['/'].intercalate (names.map String.toList)) = names.map String.toList := by
  rw [segments_eq_splitOn]
  refine List.splitOn_intercalate '/' (fun s hs => ?_) (by simpa using hne)
  obtain ⟨n, hn, rfl⟩ := List.mem_map.mp hs
  exact h n hn

theorem toList_dropSlashes (path : String) :
    (dropSlashes path).toList = path.toList.dropWhile (· = '/') := by
  rw [dropSlashes, String.toList_ofList]

namespace Spells

variable {path : String} {slashes : Nat} {names : List String} (h : Spells path slashes names)
include h

theorem exists_first : ∃ c rest, c ≠ '/' ∧
    path.toList = List.replicate slashes '/' ++ c :: rest ∧
    ['/'].intercalate (names.map String.toList) = c :: rest := by
  obtain ⟨first, more, rfl⟩ := List.exists_cons_of_ne_nil h.nonempty
  obtain ⟨hne, hslash⟩ := h.named first List.mem_cons_self
  cases hf : first.toList with
  | nil => exact absurd (String.toList_eq_nil_iff.mp hf) hne
  | cons c cs =>
    have hc : c ≠ '/' := fun e => hslash (by simp [hf, e])
    have hfront : ∃ rest, ['/'].intercalate ((first :: more).map String.toList) = c :: rest := by
      cases more with
      | nil => exact ⟨cs, by simp [hf]⟩
      | cons next more => exact ⟨_, by simp [List.intercalate_cons_cons, hf]; rfl⟩
    obtain ⟨rest, hrest⟩ := hfront
    exact ⟨c, rest, hc, by rw [h.text, hrest], hrest⟩

theorem isAbsolute_iff : isAbsolute path = true ↔ slashes ≠ 0 := by
  obtain ⟨c, rest, hc, htext, -⟩ := h.exists_first
  cases slashes with
  | zero => simp [isAbsolute, htext, hc]
  | succ n => simp [isAbsolute, htext, List.replicate_succ]

theorem ne_root : path ≠ "/" := by
  rintro rfl
  obtain ⟨c, rest, hc, htext, -⟩ := h.exists_first
  cases slashes with
  | zero => simp [Ne.symm hc] at htext
  | succ n => simp [List.replicate_succ] at htext

theorem split_dropSlashes : split (dropSlashes path) = names := by
  obtain ⟨c, rest, hc, htext, hrest⟩ := h.exists_first
  have hdrop : path.toList.dropWhile (· = '/') = c :: rest := by
    rw [htext, List.dropWhile_append]
    simp [hc]
  rw [split, toList_dropSlashes, hdrop, ← hrest,
    segments_intercalate h.nonempty fun n hn => (h.named n hn).2, map_ofList_map_toList]

end Spells

theorem spells_split {path : String} (h : "" ∉ split (dropSlashes path)) :
    Spells path (path.toList.takeWhile (· = '/')).length (split (dropSlashes path)) where
  nonempty := by simp [split, segments_ne_nil]
  named n hn := ⟨fun e => h (e ▸ hn), not_mem_of_mem_split _ n hn⟩
  text := by
    have hslashes : path.toList.takeWhile (· = '/') =
        List.replicate (path.toList.takeWhile (· = '/')).length '/' := by
      refine List.eq_replicate_iff.mpr ⟨rfl, fun c hc => ?_⟩
      simpa using List.mem_takeWhile_imp hc
    rw [split, List.map_map, show String.toList ∘ String.ofList = id from funext fun _ => by simp,
      List.map_id, segments_eq_splitOn, List.intercalate_splitOn, toList_dropSlashes, ← hslashes,
      List.takeWhile_append_dropWhile]

section

variable {place rest there : List String} {name : String}

@[simp] theorem leads_nil_iff : Leads place [] there ↔ there = place := by
  constructor
  · rintro ⟨⟩
    rfl
  · rintro rfl
    exact .here _

@[simp] theorem leads_stay_iff : Leads place ("." :: rest) there ↔ Leads place rest there := by
  constructor
  · intro h
    cases h with
    | stay _ h => exact h
    | up hname => exact absurd hname (by decide)
    | down hstay => exact absurd rfl hstay
  · exact .stay rfl

theorem leads_up_iff : Leads place (".." :: rest) there ↔
    ∃ above last, place = above ++ [last] ∧ Leads above rest there := by
  constructor
  · intro h
    cases h with
    | stay hname => exact absurd hname (by decide)
    | up _ h => exact ⟨_, _, rfl, h⟩
    | down _ hup => exact absurd rfl hup
  · rintro ⟨above, last, rfl, h⟩
    exact .up rfl h

theorem leads_down_iff (hstay : name ≠ ".") (hup : name ≠ "..") :
    Leads place (name :: rest) there ↔ Leads (place ++ [name]) rest there := by
  constructor
  · intro h
    cases h with
    | stay hname => exact absurd hname hstay
    | up hname => exact absurd hname hup
    | down _ _ h => exact h
  · exact .down hstay hup

end

section

variable {names : List String} (h : "" ∉ names)
include h

/-- The walk over a stack follows the names, the stack being the place from its end. -/
theorem walk_eq_some_iff (here there : List String) :
    walk here names = some there ↔ Leads here.reverse names there.reverse := by
  induction names generalizing here with
  | nil => simp [walk, eq_comm]
  | cons name rest ih =>
    obtain ⟨h0, hrest⟩ := not_or.mp fun hm => h (List.mem_cons.mpr hm)
    by_cases h1 : name = "."
    · simpa [walk, h1] using ih hrest here
    by_cases h2 : name = ".."
    · subst h2
      rw [leads_up_iff]
      cases here with
      | nil => simp [walk]
      | cons last up => simp [walk, ih hrest]
    · rw [leads_down_iff h1 h2, ← List.reverse_cons, ← ih hrest]
      simp [walk, Ne.symm h0, h1, h2]

theorem walk_eq_none_iff (here : List String) :
    walk here names = none ↔
      ∃ before after, names = before ++ ".." :: after ∧ Leads here.reverse before [] := by
  constructor
  · intro hw
    induction names generalizing here with
    | nil => cases hw
    | cons name rest ih =>
      obtain ⟨h0, hrest⟩ := not_or.mp fun hm => h (List.mem_cons.mpr hm)
      by_cases h1 : name = "."
      · obtain ⟨before, after, rfl, hl⟩ := ih hrest here (by simpa [walk, h1] using hw)
        exact ⟨name :: before, after, rfl, by simpa [h1] using hl⟩
      by_cases h2 : name = ".."
      · subst h2
        cases here with
        | nil => exact ⟨[], rest, rfl, .here _⟩
        | cons last up =>
          obtain ⟨before, after, rfl, hl⟩ := ih hrest up (by simpa [walk] using hw)
          exact ⟨".." :: before, after, rfl, by rw [List.reverse_cons]; exact .up rfl hl⟩
      · obtain ⟨before, after, rfl, hl⟩ :=
          ih hrest (name :: here) (by simpa [walk, Ne.symm h0, h1, h2] using hw)
        rw [List.reverse_cons] at hl
        exact ⟨name :: before, after, rfl, .down h1 h2 hl⟩
  · rintro ⟨before, after, rfl, hl⟩
    have hbefore : walk here before = some [] :=
      (walk_eq_some_iff (fun hm => h (List.mem_append_left _ hm)) here []).mpr hl
    rw [walk_append, hbefore]
    rfl

end

theorem resolve_of_ne_root {path : String} (h : path ≠ "/") (cwd : String) :
    resolve path cwd =
      (walk (if isAbsolute path then [] else (components cwd).reverse)
        (split (dropSlashes path))).map fun stack => render stack.reverse := by
  rw [resolve, if_neg h]

theorem Spells.resolve {path : String} {slashes : Nat} {names : List String}
    (h : Spells path slashes names) (cwd : String) :
    Path.resolve path cwd = (walk (origin slashes cwd).reverse names).map fun stack =>
      render stack.reverse := by
  rw [resolve_of_ne_root h.ne_root, h.split_dropSlashes]
  by_cases hs : slashes = 0
  · have hrelative : isAbsolute path = false := by
      rw [← Bool.not_eq_true, h.isAbsolute_iff]
      exact not_not_intro hs
    simp [hrelative, origin, hs]
  · simp [h.isAbsolute_iff.mpr hs, origin, hs]

theorem Spells.not_mem_empty {path : String} {slashes : Nat} {names : List String}
    (h : Spells path slashes names) : "" ∉ names := fun hm => (h.named "" hm).1 rfl

theorem spells_of_resolve {path cwd q : String} (h : resolve path cwd = some q) :
    path = "/" ∨ ∃ slashes names, Spells path slashes names := by
  by_cases hroot : path = "/"
  · exact Or.inl hroot
  · rw [resolve_of_ne_root hroot] at h
    obtain ⟨stack, hw, -⟩ := Option.map_eq_some_iff.mp h
    refine Or.inr ⟨_, _, spells_split fun hm => ?_⟩
    -- no walk gets past an empty name
    obtain ⟨first, rest, hs⟩ := List.append_of_mem hm
    rw [hs, walk_append] at hw
    obtain ⟨mid, -, hw⟩ := Option.bind_eq_some_iff.mp hw
    simp [walk] at hw

theorem resolve_root (cwd : String) : resolve "/" cwd = some "/" := by
  rw [resolve, if_pos rfl]

theorem resolve_eq_some_iff (path cwd q : String) :
    resolve path cwd = some q ↔ path = "/" ∧ q = "/" ∨
      ∃ slashes names there, Spells path slashes names ∧ Leads (origin slashes cwd) names there ∧
        q = render there := by
  constructor
  · intro h
    rcases spells_of_resolve h with rfl | ⟨slashes, names, hs⟩
    · rw [resolve_root] at h
      exact Or.inl ⟨rfl, (Option.some.inj h).symm⟩
    · rw [hs.resolve] at h
      obtain ⟨stack, hw, rfl⟩ := Option.map_eq_some_iff.mp h
      have hl := (walk_eq_some_iff hs.not_mem_empty _ _).mp hw
      rw [List.reverse_reverse] at hl
      exact Or.inr ⟨slashes, names, stack.reverse, hs, hl, rfl⟩
  · rintro (⟨rfl, rfl⟩ | ⟨slashes, names, there, hs, hl, rfl⟩)
    · exact resolve_root cwd
    · have hw : walk (origin slashes cwd).reverse names = some there.reverse := by
        rw [walk_eq_some_iff hs.not_mem_empty, List.reverse_reverse, List.reverse_reverse]
        exact hl
      rw [hs.resolve, hw, Option.map_some, List.reverse_reverse]

theorem exists_resolve_iff (path cwd : String) :
    (∃ q, resolve path cwd = some q) ↔ path = "/" ∨
      ∃ slashes names, Spells path slashes names ∧
        ∀ before after, names = before ++ ".." :: after → ¬ Leads (origin slashes cwd) before [] := by
  constructor
  · rintro ⟨q, h⟩
    refine (spells_of_resolve h).imp_right fun ⟨slashes, names, hs⟩ => ⟨slashes, names, hs, ?_⟩
    intro before after hn hl
    have hnone : walk (origin slashes cwd).reverse names = none := by
      rw [walk_eq_none_iff hs.not_mem_empty]
      exact ⟨before, after, hn, by rwa [List.reverse_reverse]⟩
    rw [hs.resolve, hnone] at h
    cases h
  · rintro (rfl | ⟨slashes, names, hs, hnever⟩)
    · exact ⟨"/", resolve_root cwd⟩
    · cases hw : walk (origin slashes cwd).reverse names with
      | some stack => exact ⟨_, by rw [hs.resolve, hw]; rfl⟩
      | none =>
        obtain ⟨before, after, hn, hl⟩ := (walk_eq_none_iff hs.not_mem_empty _).mp hw
        rw [List.reverse_reverse] at hl
        exact absurd hl (hnever before after hn)

theorem slashed_eq_intercalate (names : List String) (h : names ≠ []) :
    slashed names = '/' :: ['/'].intercalate (names.map String.toList) := by
  induction names with
  | nil => exact absurd rfl h
  | cons name more ih =>
    cases more with
    | nil => simp [slashed]
    | cons next more =>
      rw [show slashed (name :: next :: more) = '/' :: (name.toList ++ slashed (next :: more)) by
          simp [slashed], ih (by simp)]
      simp [List.intercalate_cons_cons]

theorem spells_render {names : List String} (hne : names ≠ []) (h : ∀ n ∈ names, Proper n) :
    Spells (render names) 1 names where
  nonempty := hne
  named n hn := ⟨(h n hn).1, (h n hn).2.2.2⟩
  text := by rw [toList_render names hne, slashed_eq_intercalate names hne]; rfl

theorem canonical_iff_spells (path : String) :
    Canonical path ↔ path = "/" ∨ ∃ names, Spells path 1 names ∧ "." ∉ names ∧ ".." ∉ names := by
  constructor
  · rintro ⟨names, h, rfl⟩
    by_cases hne : names = []
    · exact Or.inl (by rw [hne]; rfl)
    · exact Or.inr ⟨names, spells_render hne h, fun hm => (h _ hm).2.1 rfl,
        fun hm => (h _ hm).2.2.1 rfl⟩
  · rintro (rfl | ⟨names, hs, hdot, hdots⟩)
    · exact canonical_root
    · refine ⟨names, fun n hn => ⟨(hs.named n hn).1, fun e => hdot (e ▸ hn), fun e => hdots (e ▸ hn),
        (hs.named n hn).2⟩, String.toList_inj.mp ?_⟩
      rw [toList_render names hs.nonempty, slashed_eq_intercalate names hs.nonempty, hs.text]
      rfl

theorem leads_proper (place : List String) {names : List String} (h : ∀ n ∈ names, Proper n) :
    Leads place names (place ++ names) := by
  induction names generalizing place with
  | nil => simp
  | cons name rest ih =>
    obtain ⟨-, hstay, hup, -⟩ := h name List.mem_cons_self
    have hrest := ih (place ++ [name]) fun n hn => h n (List.mem_cons_of_mem _ hn)
    rw [List.append_assoc] at hrest
    exact .down hstay hup hrest

theorem Canonical.isAbsolute {path : String} (h : Canonical path) :
    Path.isAbsolute path = true := by
  rcases (canonical_iff_spells path).mp h with rfl | ⟨names, hs, -⟩
  · rfl
  · exact hs.isAbsolute_iff.mpr Nat.one_ne_zero

theorem Canonical.getLast?_ne {path : String} (h : Canonical path) (hroot : path ≠ "/") :
    path.toList.getLast? ≠ some '/' := by
  rcases h.root_or_concat with he | ⟨above, name, -, hname, rfl⟩
  · exact absurd he hroot
  · intro hl
    obtain ⟨c, hc⟩ := Option.ne_none_iff_exists'.mp fun hnone =>
      hname.1 (String.toList_eq_nil_iff.mp (List.getLast?_eq_none_iff.mp hnone))
    rw [toList_render_concat, List.getLast?_append_cons, List.getLast?_cons, hc] at hl
    exact hname.2.2.2 (Option.some.inj hl ▸ List.mem_of_getLast? hc)

theorem Canonical.resolve {path : String} (h : Canonical path) (cwd : String) :
    Path.resolve path cwd = some path := by
  obtain ⟨names, hn, rfl⟩ := h
  by_cases hne : names = []
  · rw [hne]
    exact resolve_root cwd
  · exact (resolve_eq_some_iff _ cwd _).mpr
      (Or.inr ⟨1, names, names, spells_render hne hn, leads_proper [] hn, rfl⟩)

theorem Canonical.parentFile {path : String} (h : Canonical path) (hroot : path ≠ "/") :
    ∃ parent name, Path.parentFile path = some (parent, name) ∧ Canonical parent ∧ name ≠ "" ∧
      '/' ∉ name.toList ∧ Path.resolve name parent = some path := by
  rcases h.root_or_concat with he | ⟨above, name, ha, hname, rfl⟩
  · exact absurd he hroot
  · refine ⟨render above, name, parentFile_render above name hname, ⟨above, ha, rfl⟩, hname.1,
      hname.2.2.2, (resolve_eq_some_iff _ _ _).mpr (Or.inr ⟨0, [name], _, ?_, ?_, rfl⟩)⟩
    · exact ⟨by simp, by simpa using ⟨hname.1, hname.2.2.2⟩, by simp⟩
    · rw [origin, if_pos rfl, components_render above ha]
      exact .down hname.2.1 hname.2.2.1 (.here _)

/-- How paths resolve from a directory. -/
structure Resolving (cwd : String) : Prop where
  /-- A path resolves exactly when it is spelled right and does not go up at the root. -/
  accepted : ∀ path, (∃ q, resolve path cwd = some q) ↔ path = "/" ∨
    ∃ slashes names, Spells path slashes names ∧
      ∀ before after, names = before ++ ".." :: after → ¬ Leads (origin slashes cwd) before []
  /-- What it resolves to is the place that its names lead to. -/
  reached : ∀ path q, resolve path cwd = some q ↔ path = "/" ∧ q = "/" ∨
    ∃ slashes names there, Spells path slashes names ∧ Leads (origin slashes cwd) names there ∧
      q = render there
  /-- That is the root, or one slash and names that are not empty and no dots. -/
  canonical : ∀ path q, resolve path cwd = some q →
    q = "/" ∨ ∃ names, Spells q 1 names ∧ "." ∉ names ∧ ".." ∉ names
  ends : ∀ path q, resolve path cwd = some q →
    isAbsolute q = true ∧ (q ≠ "/" → q.toList.getLast? ≠ some '/')
  again : ∀ path q, resolve path cwd = some q → ∀ other, resolve q other = some q
  parent : ∀ path q, resolve path cwd = some q → q ≠ "/" → ∃ above name,
    parentFile q = some (above, name) ∧ Canonical above ∧ name ≠ "" ∧ '/' ∉ name.toList ∧
      resolve name above = some q
  root : parentFile "/" = none

/-- From a canonical directory, the paths of the grammar resolve, and to canonical paths. -/
theorem resolves_grammar (cwd : String) (h : Canonical cwd) : Resolving cwd where
  accepted path := exists_resolve_iff path cwd
  reached path q := resolve_eq_some_iff path cwd q
  canonical path q hq := (canonical_iff_spells q).mp (resolve_canonical path cwd q h hq)
  ends path q hq :=
    have hc := resolve_canonical path cwd q h hq
    ⟨hc.isAbsolute, hc.getLast?_ne⟩
  again path q hq := (resolve_canonical path cwd q h hq).resolve
  parent path q hq := (resolve_canonical path cwd q h hq).parentFile
  root := rfl

theorem resolves_grammar_nested : Canonical "/a/b" ∧ Resolving "/a/b" ∧
    resolve "../c/./d" "/a/b" = some "/a/c/d" ∧ resolve "//c" "/a/b" = some "/c" ∧
    resolve "../../.." "/a/b" = none ∧ resolve "c//d" "/a/b" = none :=
  have h : Canonical "/a/b" := by decide
  ⟨h, resolves_grammar "/a/b" h, by decide, by decide, by decide, by decide⟩

end KernelExam.Path

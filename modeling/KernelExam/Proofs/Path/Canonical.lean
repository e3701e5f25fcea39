import KernelExam.Path
import Mathlib.Data.List.Basic

/-!
# Canonical paths

A list of proper names has one path, and the path gives back the names: their
list, the parent and the last of them. What a process resolves from a canonical
directory is canonical again, so two such paths are the same place exactly when
they are the same text.
-/

set_option autoImplicit false

namespace KernelExam.Path

/-- A name that can stand between two slashes and stands for itself there. -/
def Proper (name : String) : Prop :=
  name ≠ "" ∧ name ≠ "." ∧ name ≠ ".." ∧ '/' ∉ name.toList

instance (name : String) : Decidable (Proper name) :=
  inferInstanceAs (Decidable (_ ∧ _ ∧ _ ∧ _))

def Canonical (path : String) : Prop := ∃ names, (∀ n ∈ names, Proper n) ∧ path = render names

def slashed (names : List String) : List Char := names.flatMap fun name => '/' :: name.toList

theorem toList_foldl_slash (names : List String) (path : String) :
    (names.foldl (fun path name => path ++ "/" ++ name) path).toList =
      path.toList ++ slashed names := by
  induction names generalizing path with
  | nil => simp [slashed]
  | cons name names ih => simp [ih, slashed]

theorem toList_render (names : List String) (h : names ≠ []) :
    (render names).toList = slashed names := by
  simp [render, h, toList_foldl_slash]

theorem toList_render_concat (above : List String) (name : String) :
    (render (above ++ [name])).toList = slashed above ++ '/' :: name.toList := by
  rw [toList_render _ (by simp)]
  simp [slashed]

theorem segments_of_not_mem (cs : List Char) (h : '/' ∉ cs) : segments cs = [cs] := by
  induction cs with
  | nil => rfl
  | cons c cs ih =>
    obtain ⟨hc, hcs⟩ := not_or.mp fun hm => h (List.mem_cons.mpr hm)
    simp [segments, Ne.symm hc, ih hcs]

theorem segments_append_slash (cs ds : List Char) (h : '/' ∉ cs) :
    segments (cs ++ '/' :: ds) = cs :: segments ds := by
  induction cs with
  | nil => simp [segments]
  | cons c cs ih =>
    obtain ⟨hc, hcs⟩ := not_or.mp fun hm => h (List.mem_cons.mpr hm)
    simp [segments, Ne.symm hc, ih hcs]

theorem not_mem_of_mem_segments (cs s : List Char) (h : s ∈ segments cs) : '/' ∉ s := by
  induction cs generalizing s with
  | nil => simp_all [segments]
  | cons c cs ih =>
    by_cases hc : c = '/'
    · simp only [segments, hc, if_true, List.mem_cons] at h
      rcases h with rfl | h
      · simp
      · exact ih s h
    · cases e : segments cs with
      | nil => exact absurd e (segments_ne_nil cs)
      | cons first more =>
        simp only [segments, hc, if_false, e, List.mem_cons] at h
        rcases h with rfl | h
        · simpa [Ne.symm hc] using ih first (by simp [e])
        · exact ih s (by simp [e, h])

theorem segments_slashed (name : String) (names : List String)
    (h : ∀ n ∈ name :: names, '/' ∉ n.toList) :
    segments (slashed (name :: names)) = [] :: (name :: names).map String.toList := by
  have hs : ∀ front : List Char, '/' ∉ front →
      segments (front ++ slashed (name :: names)) = front :: (name :: names).map String.toList := by
    induction names generalizing name with
    | nil =>
      intro front hf
      simp [slashed, segments_append_slash front _ hf, segments_of_not_mem _ (h name (by simp))]
    | cons next names ih =>
      intro front hf
      have hn := h name (by simp)
      have ht := ih next (fun n hm => h n (List.mem_cons_of_mem _ hm)) name.toList hn
      rw [show slashed (name :: next :: names)
          = '/' :: (name.toList ++ slashed (next :: names)) by simp [slashed],
        segments_append_slash front _ hf, ht]
      rfl
  simpa using hs [] (by simp)

theorem components_render_of_named (names : List String)
    (h : ∀ n ∈ names, n ≠ "" ∧ '/' ∉ n.toList) : components (render names) = names := by
  cases names with
  | nil => decide
  | cons name names =>
    have hs := segments_slashed name names fun n hn => (h n hn).2
    have hf : (name :: names).filter (· ≠ "") = name :: names :=
      List.filter_eq_self.mpr fun n hn => by simpa using (h n hn).1
    have hm : (name :: names).map (String.ofList ∘ String.toList) = name :: names := by
      simp [Function.comp_def]
    rw [components, split, toList_render _ (by simp), hs, List.map_cons, List.map_map, hm,
      List.filter_cons_of_neg (by simp), hf]

theorem components_render (names : List String) (h : ∀ n ∈ names, Proper n) :
    components (render names) = names :=
  components_render_of_named names fun n hn => ⟨(h n hn).1, (h n hn).2.2.2⟩

theorem Canonical.render_components {path : String} (h : Canonical path) :
    render (components path) = path := by
  obtain ⟨names, hn, rfl⟩ := h
  rw [components_render names hn]

theorem Canonical.eq_of_components {path other : String} (h : Canonical path)
    (ho : Canonical other) (hc : components path = components other) : path = other := by
  rw [← h.render_components, hc, ho.render_components]

theorem Canonical.proper {path : String} (h : Canonical path) :
    ∀ n ∈ components path, Proper n := by
  obtain ⟨names, hn, rfl⟩ := h
  rw [components_render names hn]
  exact hn

theorem canonical_iff (path : String) :
    Canonical path ↔ (∀ n ∈ components path, Proper n) ∧ path = render (components path) := by
  constructor
  · exact fun h => ⟨h.proper, h.render_components.symm⟩
  · exact fun h => ⟨components path, h⟩

instance (path : String) : Decidable (Canonical path) :=
  decidable_of_iff _ (canonical_iff path).symm

theorem canonical_root : Canonical "/" := ⟨[], by simp, rfl⟩

theorem Canonical.root_or_concat {path : String} (h : Canonical path) :
    path = "/" ∨ ∃ above name, (∀ n ∈ above, Proper n) ∧ Proper name ∧
      path = render (above ++ [name]) := by
  obtain ⟨names, hn, rfl⟩ := h
  rcases List.eq_nil_or_concat' names with rfl | ⟨above, name, rfl⟩
  · exact Or.inl rfl
  · exact Or.inr ⟨above, name, fun n hm => hn n (List.mem_append_left _ hm), hn name (by simp), rfl⟩

theorem proper_concat {above : List String} {name : String} (ha : ∀ n ∈ above, Proper n)
    (hname : Proper name) : ∀ n ∈ above ++ [name], Proper n := by
  intro n hn
  rcases List.mem_append.mp hn with hn | hn
  · exact ha n hn
  · rwa [List.mem_singleton.mp hn]

theorem splitLast_of_not_mem (cs : List Char) (h : '/' ∉ cs) : splitLast cs = none := by
  induction cs with
  | nil => rfl
  | cons c cs ih =>
    obtain ⟨hc, hcs⟩ := not_or.mp fun hm => h (List.mem_cons.mpr hm)
    simp [splitLast, ih hcs, Ne.symm hc]

theorem splitLast_append (front last : List Char) (h : '/' ∉ last) :
    splitLast (front ++ '/' :: last) = some (front, last) := by
  induction front with
  | nil => simp [splitLast, splitLast_of_not_mem last h]
  | cons c front ih => simp [splitLast, ih]

theorem render_concat_ne_root (names : List String) (name : String) (h : Proper name) :
    render (names ++ [name]) ≠ "/" := by
  intro he
  have hl := congrArg String.toList he
  rw [toList_render_concat] at hl
  have hn : name.toList ≠ [] := fun e => h.1 (String.toList_eq_nil_iff.mp e)
  have hp := List.length_pos_iff.mpr hn
  have hlen := congrArg List.length hl
  simp [slashed] at hlen
  omega

theorem parentFile_render (names : List String) (name : String) (h : Proper name) :
    parentFile (render (names ++ [name])) = some (render names, name) := by
  rw [parentFile, if_neg (render_concat_ne_root names name h), toList_render_concat,
    splitLast_append _ _ h.2.2.2]
  cases names with
  | nil => simp [slashed, render]
  | cons first names =>
    rw [← toList_render (first :: names) (by simp)]
    have hne : (render (first :: names)).toList ≠ [] := by
      rw [toList_render _ (by simp)]
      simp [slashed]
    simp only [Option.map_some, hne, if_false, String.ofList_toList]

/-- What holds of the names on a stack and of all proper names is kept by a walk over parts
without slashes. -/
theorem walk_each {P : String → Prop} (hP : ∀ n, Proper n → P n) (here rest there : List String)
    (hh : ∀ n ∈ here, P n) (hr : ∀ n ∈ rest, '/' ∉ n.toList) (h : walk here rest = some there) :
    ∀ n ∈ there, P n := by
  induction rest generalizing here with
  | nil =>
    obtain rfl : here = there := by simpa [walk] using h
    exact hh
  | cons name rest ih =>
    have ht : ∀ n ∈ rest, '/' ∉ n.toList := fun n hn => hr n (List.mem_cons_of_mem _ hn)
    by_cases h0 : name = ""
    · simp [walk, h0] at h
    by_cases h1 : name = "."
    · exact ih here hh ht (by simpa [walk, h1] using h)
    by_cases h2 : name = ".."
    · cases here with
      | nil => simp [walk, h2] at h
      | cons last up =>
        exact ih up (fun n hn => hh n (List.mem_cons_of_mem _ hn)) ht (by simpa [walk, h2] using h)
    · refine ih (name :: here) ?_ ht (by simpa [walk, h0, h1, h2] using h)
      intro n hn
      rcases List.mem_cons.mp hn with rfl | hn
      · exact hP n ⟨h0, h1, h2, hr n (by simp)⟩
      · exact hh n hn

theorem not_mem_of_mem_split (path name : String) (h : name ∈ split path) : '/' ∉ name.toList := by
  obtain ⟨s, hs, rfl⟩ := List.mem_map.mp h
  simpa using not_mem_of_mem_segments _ s hs

/-- From a canonical directory every path that resolves at all resolves to a
canonical one. -/
theorem resolve_canonical (path cwd q : String) (hc : Canonical cwd)
    (h : resolve path cwd = some q) : Canonical q := by
  rw [resolve] at h
  split at h
  · obtain rfl : "/" = q := by simpa using h
    exact canonical_root
  · obtain ⟨there, hw, rfl⟩ := Option.map_eq_some_iff.mp h
    refine ⟨there.reverse, ?_, rfl⟩
    have hstart : ∀ n ∈ (if isAbsolute path then [] else (components cwd).reverse), Proper n := by
      split
      · simp
      · simpa using hc.proper
    have hp := walk_each (fun _ h => h) _ _ there hstart (fun n => not_mem_of_mem_split _ n) hw
    simpa using hp

end KernelExam.Path

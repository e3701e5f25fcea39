import KernelExam.Proofs.Path.Grammar

/-!
# Two hops are one

A path with another one behind it resolves to what the second resolves to from where the first
leads, whatever text the directory is that this starts from.
-/

set_option autoImplicit false

namespace KernelExam.Path

theorem segments_append (cs ds : List Char) :
    segments (cs ++ '/' :: ds) = segments cs ++ segments ds := by
  induction cs with
  | nil => simp [segments]
  | cons c cs ih =>
    by_cases hc : c = '/'
    · simp [segments, hc, ih]
    · cases hs : segments cs with
      | nil => exact absurd hs (segments_ne_nil cs)
      | cons first more => simp [segments, hc, ih, hs]

theorem dropWhile_append_of_exists {cs : List Char} (h : ∃ c ∈ cs, c ≠ '/') (ds : List Char) :
    (cs ++ ds).dropWhile (· = '/') = cs.dropWhile (· = '/') ++ ds := by
  rw [List.dropWhile_append, if_neg]
  simpa using h

theorem split_joined {a : String} (h : ∃ c ∈ a.toList, c ≠ '/') (b : String) :
    split (dropSlashes (a ++ "/" ++ b)) = split (dropSlashes a) ++ split b := by
  have htext : (a ++ "/" ++ b).toList = a.toList ++ '/' :: b.toList := by simp
  rw [split, toList_dropSlashes, htext, dropWhile_append_of_exists h, segments_append,
    List.map_append, ← toList_dropSlashes]
  rfl

theorem dropSlashes_of_relative {path : String} (h : isAbsolute path = false) :
    dropSlashes path = path := by
  rw [dropSlashes]
  cases hp : path.toList with
  | nil => rw [List.dropWhile_nil, ← hp, String.ofList_toList]
  | cons c cs =>
    have hc : c ≠ '/' := by simpa [isAbsolute, hp] using h
    rw [List.dropWhile_cons_of_neg (by simpa using hc), ← hp, String.ofList_toList]

theorem named_components (path : String) : ∀ n ∈ components path, n ≠ "" ∧ '/' ∉ n.toList := by
  intro n hn
  obtain ⟨hsplit, hne⟩ := List.mem_filter.mp hn
  exact ⟨by simpa using hne, not_mem_of_mem_split path n hsplit⟩

theorem resolve_render {stack : List String} (hs : ∀ n ∈ stack, n ≠ "" ∧ '/' ∉ n.toList)
    {b : String} (hb : isAbsolute b = false) : resolve b (render stack.reverse) =
      (walk stack (split b)).map fun stack => render stack.reverse := by
  have hroot : b ≠ "/" := by
    rintro rfl
    cases hb
  have hback : components (render stack.reverse) = stack.reverse :=
    components_render_of_named _ fun n hn => hs n (List.mem_reverse.mp hn)
  rw [resolve_of_ne_root hroot, hb, dropSlashes_of_relative hb, hback, List.reverse_reverse]
  rfl

theorem resolve_under_root {b : String} (hb : isAbsolute b = false) (cwd : String) :
    resolve ("/" ++ "/" ++ b) cwd = resolve b "/" := by
  have htext : ("/" ++ "/" ++ b).toList = '/' :: '/' :: b.toList := by simp
  have hroot : "/" ++ "/" ++ b ≠ "/" := by
    intro he
    have hlength := congrArg (fun path => path.toList.length) he
    simp at hlength
  have habsolute : isAbsolute ("/" ++ "/" ++ b) = true := by simp [isAbsolute]
  have hdrop : dropSlashes ("/" ++ "/" ++ b) = b := by
    rw [dropSlashes, htext, List.dropWhile_cons_of_pos (by simp),
      List.dropWhile_cons_of_pos (by simp), ← dropSlashes, dropSlashes_of_relative hb]
  have hstart : resolve b "/" = _ := @resolve_render [] (by simp) b hb
  rw [hstart, resolve_of_ne_root hroot, habsolute, hdrop]
  rfl

/-- The path of both resolves, from anywhere, to what the second does from where the first
leads. -/
theorem resolve_joined {a b : String} (ha : a = "/" ∨ ∃ c ∈ a.toList, c ≠ '/')
    (hb : isAbsolute b = false) (cwd : String) :
    resolve (a ++ "/" ++ b) cwd = (resolve a cwd).bind (resolve b) := by
  by_cases hroot : a = "/"
  · subst hroot
    rw [resolve_under_root hb, resolve_root, Option.bind_some]
  have hname := ha.resolve_left hroot
  have hjoined : a ++ "/" ++ b ≠ "/" := by
    intro he
    have hlength := congrArg (fun path => path.toList.length) he
    obtain ⟨c, hc, -⟩ := hname
    have hpos := List.length_pos_of_mem hc
    simp only [String.toList_append, List.length_append] at hlength
    simp at hlength
    omega
  have habsolute : isAbsolute (a ++ "/" ++ b) = isAbsolute a := by
    obtain ⟨c, hc, -⟩ := hname
    obtain ⟨first, more, hcs⟩ := List.exists_cons_of_ne_nil (List.ne_nil_of_mem hc)
    simp [isAbsolute, hcs]
  rw [resolve_of_ne_root hjoined, resolve_of_ne_root hroot, habsolute, split_joined hname,
    walk_append, Option.map_bind, Option.bind_map]
  refine Option.bind_congr fun stack hw => ?_
  -- the stack may hold dots, which the directory that this starts from has brought along
  have hstack : ∀ n ∈ stack, n ≠ "" ∧ '/' ∉ n.toList := by
    refine walk_each (fun n h => ⟨h.1, h.2.2.2⟩) _ _ stack (fun n hn => ?_)
      (fun n hn => not_mem_of_mem_split _ n hn) hw
    split at hn
    · cases hn
    · exact named_components cwd n (List.mem_reverse.mp hn)
  exact (resolve_render hstack hb).symm

theorem root_or_named_of_resolve {a cwd c : String} (h : resolve a cwd = some c) :
    a = "/" ∨ ∃ c ∈ a.toList, c ≠ '/' := by
  refine (spells_of_resolve h).imp_right fun ⟨slashes, names, hs⟩ => ?_
  obtain ⟨c, rest, hc, htext, -⟩ := hs.exists_first
  exact ⟨c, by simp [htext], hc⟩

end KernelExam.Path

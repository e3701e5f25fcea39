import KernelExam.FileSystem.Basic
import KernelExam.Proofs.FileSystem.Listing

/-!
# Refused operations

An operation that is refused gives back the file system it was given, whatever
the path looks like. A creation that is not refused does so only for a file that
is there and empty already.
-/

set_option autoImplicit false

namespace KernelExam.FileSystem

variable {fs fs' : FileSystem} {path : String} {e : FileError}

theorem create_error (h : fs.create path = (fs', .error e)) : fs' = fs := by
  rw [create] at h
  repeat' split at h
  all_goals first
    | exact (congrArg Prod.fst h).symm
    | cases h

theorem unlink_error (h : fs.unlink path = (fs', .error e)) : fs' = fs := by
  rw [unlink] at h
  repeat' split at h
  all_goals first
    | exact (congrArg Prod.fst h).symm
    | cases h

theorem mkdir_error (h : fs.mkdir path = (fs', .error e)) : fs' = fs := by
  rw [mkdir] at h
  repeat' split at h
  all_goals first
    | exact (congrArg Prod.fst h).symm
    | cases h

theorem rmdir_error (h : fs.rmdir path = (fs', .error e)) : fs' = fs := by
  rw [rmdir] at h
  repeat' split at h
  all_goals first
    | exact (congrArg Prod.fst h).symm
    | cases h

theorem makeFolders_error (h : fs.makeFolders path = (fs', .error e)) : fs' = fs := by
  rw [makeFolders] at h
  rcases hr : fs.root.makeFolders (Path.components path) with ⟨root, _ | e'⟩
  · rw [hr] at h
    cases h
  · rw [hr] at h
    obtain ⟨rfl, -⟩ := Listing.makeFolders_error _ _ _ _ hr
    exact (congrArg Prod.fst h).symm

theorem makeFolders_ok_cases (h : fs.makeFolders path = (fs', .ok ())) :
    fs' = fs ∨ fs'.folder path = .ok .empty := by
  rw [makeFolders] at h
  rcases hr : fs.root.makeFolders (Path.components path) with ⟨root, _ | e'⟩
  · rw [hr] at h
    obtain rfl : { fs with root } = fs' := congrArg Prod.fst h
    rcases Listing.makeFolders_ok_cases _ _ _ hr with rfl | hempty
    · exact Or.inl rfl
    · exact Or.inr hempty
  · rw [hr] at h
    cases h

/-- No folder is made for a file that is refused then: what stands in its place stands in a
folder that was there before. -/
theorem writeFile_error {bs : Bytes} (h : fs.writeFile path bs = (fs', .error e)) : fs' = fs := by
  rw [writeFile] at h
  cases hp : Path.parentFile path with
  | none =>
    rw [hp] at h
    exact (congrArg Prod.fst h).symm
  | some names =>
    obtain ⟨parent, name⟩ := names
    simp only [hp] at h
    rcases hm : fs.makeFolders parent with ⟨fs₁, e₁ | _⟩
    · simp only [hm] at h
      obtain ⟨rfl, -⟩ := Prod.mk.inj h
      exact makeFolders_error hm
    · simp only [hm] at h
      rcases hc : fs₁.create path with ⟨fs₂, e₂ | o⟩
      · simp only [hc] at h
        obtain ⟨rfl, -⟩ := Prod.mk.inj h
        obtain rfl := create_error hc
        rcases makeFolders_ok_cases hm with hsame | hempty
        · exact hsame
        · simp only [create, hp, hempty, Listing.find?] at hc
          cases (Prod.mk.inj hc).2
      · simp only [hc] at h
        cases (Prod.mk.inj h).2

theorem put_nil_eq_self_iff (os : Objects) (o : Nat) : os.put o [] = os ↔ os.contents o = [] := by
  rcases Nat.lt_or_ge o os.length with h | h
  · constructor
    · intro he
      rw [← he]
      exact Objects.contents_put os o [] h
    · intro hc
      rw [Objects.contents, List.getD_eq_getElem?_getD, List.getElem?_eq_getElem h] at hc
      have hs := List.set_getElem_self h
      rw [show os[o] = [] from hc] at hs
      exact hs
  · rw [Objects.put, List.set_eq_of_length_le h, Objects.contents, List.getD_eq_getElem?_getD,
      List.getElem?_eq_none h]
    simp

theorem create_eq_self_iff {o : Nat} (h : fs.create path = (fs', .ok o)) :
    fs' = fs ↔ fs.fileBytes path = .ok [] := by
  rw [create] at h
  rw [fileBytes, openFile, entry]
  cases hp : Path.parentFile path with
  | none => simp [hp] at h
  | some names =>
    obtain ⟨parent, name⟩ := names
    cases hd : fs.folder parent with
    | error e => simp [hp, hd] at h
    | ok dir =>
      cases hf : dir.find? name with
      | none =>
        simp only [hp, hd, hf, Prod.mk.injEq, Except.ok.injEq] at h
        obtain ⟨rfl, -⟩ := h
        constructor
        · intro he
          have hl := congrArg (fun fs => fs.objects.length) he
          simp [insert, Objects.allocate] at hl
        · intro he
          simp [hd, hf, Except.map] at he
      | some e =>
        cases e with
        | folder inside => simp [hp, hd, hf] at h
        | file p =>
          simp only [hp, hd, hf, Prod.mk.injEq, Except.ok.injEq] at h
          obtain ⟨rfl, rfl⟩ := h
          simp only [hd, hf, Except.map, Except.ok.injEq]
          rw [← put_nil_eq_self_iff]
          constructor
          · intro he
            exact congrArg FileSystem.objects he
          · intro he
            rw [he]

end KernelExam.FileSystem

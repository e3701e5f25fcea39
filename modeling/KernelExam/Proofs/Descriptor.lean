import Mathlib.Data.Finset.Basic
import KernelExam.Descriptor

/-!
# Room in a descriptor table

A table never grows past its capacity, so the number of a descriptor is small. Which
number is given next can be told from the numbers that are taken, and these from what
was asked for and given back.
-/

set_option autoImplicit false

namespace KernelExam.DescriptorTable

def Fits (t : DescriptorTable) : Prop := t.slots.length ≤ capacity

instance (t : DescriptorTable) : Decidable t.Fits := Nat.decLe ..

theorem fits_stdio : stdio.Fits := by decide

theorem fits_closed : closed.Fits := by decide

theorem Fits.set {t : DescriptorTable} (h : t.Fits) (fd : Word) (d : Option Descriptor) :
    (t.set fd d).Fits := by
  rw [DescriptorTable.set]
  split
  · rw [Fits, List.length_set]
    exact h
  · exact h

theorem Fits.insert {t t' : DescriptorTable} (h : t.Fits) {d : Descriptor} {n : Nat}
    (hi : t.insert d = some (t', n)) : t'.Fits ∧ n < capacity := by
  obtain ⟨k, hk, he⟩ := Option.map_eq_some_iff.mp hi
  obtain ⟨rfl, rfl⟩ := Prod.mk.inj he
  rw [free?] at hk
  split at hk
  · rename_i hroom
    have hle : t.slots.findIdx Option.isNone ≤ t.slots.length := List.findIdx_le_length
    have hn : t.slots.findIdx Option.isNone = k := Option.some.inj hk
    have hcap : t.slots.length ≤ capacity := h
    by_cases hlt : k < t.slots.length
    · rw [Fits, if_pos hlt, List.length_set]
      exact ⟨h, Nat.lt_of_lt_of_le hlt h⟩
    · rw [Fits, if_neg hlt, List.length_append, List.length_singleton]
      omega
  · cases hk

theorem get?_set_self {t : DescriptorTable} {fd : Word} {d : Descriptor} (h : t.get? fd = some d)
    (d' : Option Descriptor) : (t.set fd d').get? fd = d' := by
  rw [get?, Option.bind_eq_some_iff] at h
  obtain ⟨n, hn, hd⟩ := h
  have hlt : n < t.slots.length := by
    rw [at?, Option.join_eq_some_iff] at hd
    exact (List.getElem?_eq_some_iff.mp hd).1
  rw [get?, DescriptorTable.set, hn]
  show ((t.slots.set n d')[n]?).join = d'
  rw [List.getElem?_set_self hlt]
  rfl

theorem place?_eq_some_iff (fd : Word) (n : Nat) : place? fd = some n ↔ fd.toInt = n := by
  rw [place?]
  constructor
  · intro h
    split at h
    · have hn : fd.toInt.toNat = n := Option.some.inj h
      omega
    · cases h
  · intro h
    rw [if_pos (by omega), h]
    rfl

theorem place?_inj {fd fd' : Word} {n : Nat} (h : place? fd = some n) (h' : place? fd' = some n) :
    fd = fd' := by
  rw [place?_eq_some_iff] at h h'
  exact Int32.toInt_inj.mp (h.trans h'.symm)

theorem place?_ofNat {n : Nat} (h : n < capacity) : place? (Int32.ofNat n) = some n := by
  have hn : n < 16 := h
  rw [place?_eq_some_iff]
  exact Int32.toInt_ofNat_of_lt (by omega)

theorem get?_of_at? {t t' : DescriptorTable} {fd : Word} {n : Nat} (hfd : place? fd = some n)
    {d : Option Descriptor} (h : ∀ k, t'.at? k = if k = n then d else t.at? k) (fd' : Word) :
    t'.get? fd' = if fd' = fd then d else t.get? fd' := by
  by_cases he : fd' = fd
  · rw [if_pos he, he, get?, hfd, Option.bind_some, h, if_pos rfl]
  · rw [if_neg he, get?, get?]
    cases hk : place? fd' with
    | none => rfl
    | some k =>
      have hne : k ≠ n := fun hkn => he (place?_inj (hkn ▸ hk) hfd)
      rw [Option.bind_some, Option.bind_some, h, if_neg hne]

theorem at?_set {t : DescriptorTable} {fd : Word} {n : Nat} (hfd : place? fd = some n)
    (hn : (t.at? n).isSome) (d : Option Descriptor) (k : Nat) :
    (t.set fd d).at? k = if k = n then d else t.at? k := by
  have hlt : n < t.slots.length := by
    obtain ⟨d', hd'⟩ := Option.isSome_iff_exists.mp hn
    rw [at?, Option.join_eq_some_iff] at hd'
    exact (List.getElem?_eq_some_iff.mp hd').1
  rw [DescriptorTable.set, hfd, at?, at?, List.getElem?_set]
  by_cases hk : k = n
  · rw [if_pos hk.symm, if_pos hk, if_pos (hk ▸ hlt)]
    rfl
  · rw [if_neg (Ne.symm hk), if_neg hk]

theorem at?_set_cases (t : DescriptorTable) (fd : Word) (d : Option Descriptor) (k : Nat) :
    (t.set fd d).at? k = d ∨ (t.set fd d).at? k = t.at? k := by
  rw [DescriptorTable.set]
  split
  · rename_i place _
    rw [at?, at?, List.getElem?_set]
    split
    · rename_i hk
      split
      · exact Or.inl rfl
      · rename_i hout
        exact Or.inr (by rw [← hk, List.getElem?_eq_none (Nat.le_of_not_lt hout)])
    · exact Or.inr rfl
  · exact Or.inr rfl

theorem get?_set {t : DescriptorTable} {fd : Word} {d : Descriptor} (h : t.get? fd = some d)
    (d' : Option Descriptor) (fd' : Word) :
    (t.set fd d').get? fd' = if fd' = fd then d' else t.get? fd' := by
  obtain ⟨n, hn, hat⟩ := Option.bind_eq_some_iff.mp h
  exact get?_of_at? hn (at?_set hn (hat ▸ rfl) d') fd'

theorem at?_findIdx (t : DescriptorTable) : t.at? (t.slots.findIdx Option.isNone) = none := by
  rw [at?]
  cases hd : t.slots[t.slots.findIdx Option.isNone]? with
  | none => rfl
  | some d =>
    obtain ⟨hlt, rfl⟩ := List.getElem?_eq_some_iff.mp hd
    exact Option.isNone_iff_eq_none.mp (List.findIdx_getElem (w := hlt))

theorem isSome_at?_of_lt {t : DescriptorTable} {k : Nat}
    (h : k < t.slots.findIdx Option.isNone) : (t.at? k).isSome := by
  have hlt : k < t.slots.length := Nat.lt_of_lt_of_le h List.findIdx_le_length
  have hd : t.slots[k].isNone = false := List.not_of_lt_findIdx h
  rw [at?, List.getElem?_eq_getElem hlt, Option.isSome_iff_ne_none]
  exact Option.isNone_eq_false_iff.mp hd |> Option.isSome_iff_ne_none.mp

theorem at?_insert {t t' : DescriptorTable} {d : Descriptor} {n : Nat}
    (h : t.insert d = some (t', n)) (k : Nat) : t'.at? k = if k = n then some d else t.at? k := by
  obtain ⟨n', hn, he⟩ := Option.map_eq_some_iff.mp h
  obtain ⟨rfl, rfl⟩ := Prod.mk.inj he
  rw [free?] at hn
  split at hn
  · obtain rfl := Option.some.inj hn
    have hle : t.slots.findIdx Option.isNone ≤ t.slots.length := List.findIdx_le_length
    by_cases hlt : t.slots.findIdx Option.isNone < t.slots.length
    · rw [if_pos hlt, at?, at?, List.getElem?_set]
      by_cases hk : k = t.slots.findIdx Option.isNone
      · rw [if_pos hk.symm, if_pos hk, if_pos (hk ▸ hlt)]
        rfl
      · rw [if_neg (Ne.symm hk), if_neg hk]
    · have hend : t.slots.findIdx Option.isNone = t.slots.length := by omega
      rw [if_neg hlt, hend, at?, at?]
      rcases Nat.lt_trichotomy k t.slots.length with hk | rfl | hk
      · rw [List.getElem?_append_left hk, if_neg (Nat.ne_of_lt hk)]
      · rw [List.getElem?_concat_length, if_pos rfl]
        rfl
      · rw [List.getElem?_eq_none (by rw [List.length_append, List.length_singleton]; omega),
          List.getElem?_eq_none (by omega), if_neg (by omega)]
  · cases hn

theorem free?_of_insert {t t' : DescriptorTable} {d : Descriptor} {n : Nat}
    (h : t.insert d = some (t', n)) : t.free? = some n := by
  obtain ⟨k, hk, he⟩ := Option.map_eq_some_iff.mp h
  rw [hk, (Prod.mk.inj he).2]

theorem at?_of_insert {t t' : DescriptorTable} {d : Descriptor} {n : Nat}
    (h : t.insert d = some (t', n)) : t.at? n = none := by
  have hn := free?_of_insert h
  rw [free?] at hn
  split at hn
  · obtain rfl := Option.some.inj hn
    exact t.at?_findIdx
  · cases hn

theorem get?_insert {t t' : DescriptorTable} {d : Descriptor} {n : Nat}
    (h : t.insert d = some (t', n)) (hn : n < capacity) (fd : Word) :
    t'.get? fd = if fd = Int32.ofNat n then some d else t.get? fd :=
  get?_of_at? (place?_ofNat hn) (at?_insert h) fd

def taken (t : DescriptorTable) : Finset Nat :=
  (Finset.range capacity).filter fun n => (t.at? n).isSome

/-- The lowest number within the capacity that is not taken. -/
def lowest (taken : Finset Nat) : Option Nat :=
  (List.range capacity).find? fun n => n ∉ taken

theorem mem_taken {t : DescriptorTable} (h : t.Fits) (n : Nat) :
    n ∈ t.taken ↔ (t.at? n).isSome := by
  rw [taken, Finset.mem_filter, Finset.mem_range, and_iff_right_iff_imp]
  intro hn
  obtain ⟨d, hd⟩ := Option.isSome_iff_exists.mp hn
  rw [at?, Option.join_eq_some_iff] at hd
  exact Nat.lt_of_lt_of_le (List.getElem?_eq_some_iff.mp hd).1 h

theorem lowest_taken {t : DescriptorTable} (h : t.Fits) : lowest t.taken = t.free? := by
  have hcap : t.slots.length ≤ capacity := h
  have hle : t.slots.findIdx Option.isNone ≤ t.slots.length := List.findIdx_le_length
  have hbelow : ∀ k, k < t.slots.findIdx Option.isNone → k ∈ t.taken :=
    fun k hk => (mem_taken h k).mpr (isSome_at?_of_lt hk)
  rw [lowest, free?]
  split
  · rename_i hroom
    have hfree : t.slots.findIdx Option.isNone ∉ t.taken := by
      rw [mem_taken h, t.at?_findIdx]
      exact Bool.false_ne_true
    refine List.find?_range_eq_some.mpr ⟨by simpa using hfree, ?_, ?_⟩
    · exact List.mem_range.mpr (by omega)
    · intro k hk
      simpa using hbelow k hk
  · rename_i hfull
    refine List.find?_range_eq_none.mpr fun k hk => ?_
    simpa using hbelow k (by omega)

theorem taken_of_at? {t t' : DescriptorTable} (h : t.Fits) (h' : t'.Fits) {n : Nat}
    {d : Option Descriptor} (hat : ∀ k, t'.at? k = if k = n then d else t.at? k) :
    t'.taken = if d.isSome then t.taken ∪ {n} else t.taken.erase n := by
  ext k
  rw [mem_taken h', hat]
  by_cases hk : k = n
  · subst hk
    cases d <;> simp
  · cases d <;> simp [hk, mem_taken h]

theorem taken_insert {t t' : DescriptorTable} (h : t.Fits) {d : Descriptor} {n : Nat}
    (hi : t.insert d = some (t', n)) : t'.taken = t.taken ∪ {n} :=
  taken_of_at? h (h.insert hi).1 (at?_insert hi)

/-- The numbers taken depend on which descriptors are open, not on what they are. -/
theorem taken_congr {t t' : DescriptorTable}
    (h : ∀ fd, (t'.get? fd).isSome = (t.get? fd).isSome) : t'.taken = t.taken := by
  refine Finset.filter_congr fun n hn => ?_
  have hfd := h (Int32.ofNat n)
  rw [get?, get?, place?_ofNat (Finset.mem_range.mp hn)] at hfd
  exact iff_of_eq (congrArg (· = true) hfd)

theorem taken_set_none {t : DescriptorTable} (h : t.Fits) {fd : Word} {d : Descriptor} {n : Nat}
    (hn : place? fd = some n) (hd : t.get? fd = some d) :
    (t.set fd none).taken = t.taken.erase n := by
  rw [get?, hn, Option.bind_some] at hd
  exact taken_of_at? h (h.set fd none) (at?_set hn (hd ▸ rfl) none)

end KernelExam.DescriptorTable

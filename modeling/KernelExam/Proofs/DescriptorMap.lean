import Mathlib.Logic.Function.Basic
import KernelExam.Proofs.Descriptor

/-!
# A descriptor table as a map

The places behind the end of a table and the holes inside it look alike from outside: a
table is a partial map from sixteen numbers to descriptors. What each operation makes of
the map and what it answers is a relation that mentions no list; the table follows it
through any sequence of operations, and the relation leaves it no choice.
-/

set_option autoImplicit false

namespace KernelExam

inductive DescriptorOp where
  | insert (d : Descriptor)
  | copy (fd : Word)
  | get (fd : Word)
  | change (fd : Word) (f : Descriptor → Descriptor)
  | remove (fd : Word)
  | clear

inductive DescriptorAnswer where
  | placed (n : Option Nat)
  | found (d : Option Descriptor)
  | done
  deriving DecidableEq

/-- The descriptors by their numbers. -/
abbrev Holdings := Fin 16 → Option Descriptor

namespace Holdings

def stdio : Holdings := fun n =>
  if n = 0 then some ⟨.stdin, true, false⟩
  else if n = 1 then some ⟨.stdout, false, true⟩
  else none

def find (m : Holdings) (fd : Word) : Option Descriptor :=
  if h : 0 ≤ fd.toInt ∧ fd.toInt.toNat < 16 then m ⟨fd.toInt.toNat, h.2⟩ else none

/-- What an operation may make of the map, and answer. -/
inductive Does (m : Holdings) : DescriptorOp → Holdings → DescriptorAnswer → Prop where
  | full {d : Descriptor} (taken : ∀ n, (m n).isSome) : Does m (.insert d) m (.placed none)
  | placed {d : Descriptor} {n : Fin 16} (free : m n = none) (lowest : ∀ k < n, (m k).isSome) :
      Does m (.insert d) (Function.update m n (some d)) (.placed (some n))
  | copied {m' : Holdings} {fd : Word} {d : Descriptor} {a : DescriptorAnswer}
      (there : m.find fd = some d) (inserted : Does m (.insert d) m' a) : Does m (.copy fd) m' a
  | uncopied {fd : Word} (missing : m.find fd = none) : Does m (.copy fd) m (.found none)
  | got {fd : Word} : Does m (.get fd) m (.found (m.find fd))
  | changed {fd : Word} {n : Fin 16} {d : Descriptor} {f : Descriptor → Descriptor}
      (number : fd.toInt = n) (there : m n = some d) :
      Does m (.change fd f) (Function.update m n (some (f d))) (.found (some d))
  | unchanged {fd : Word} {f : Descriptor → Descriptor} (missing : m.find fd = none) :
      Does m (.change fd f) m (.found none)
  | removed {fd : Word} {n : Fin 16} {d : Descriptor} (number : fd.toInt = n)
      (there : m n = some d) :
      Does m (.remove fd) (Function.update m n none) (.found (some d))
  | unremoved {fd : Word} (missing : m.find fd = none) : Does m (.remove fd) m (.found none)
  | cleared : Does m .clear (fun _ => none) .done

inductive Runs : Holdings → List DescriptorOp → Holdings → List DescriptorAnswer → Prop where
  | nil {m : Holdings} : Runs m [] m []
  | cons {m m' m'' : Holdings} {op : DescriptorOp} {ops : List DescriptorOp}
      {a : DescriptorAnswer} {as : List DescriptorAnswer}
      (first : Does m op m' a) (rest : Runs m' ops m'' as) : Runs m (op :: ops) m'' (a :: as)

theorem find_of_number {m : Holdings} {fd : Word} {n : Fin 16} (h : fd.toInt = n) :
    m.find fd = m n := by
  have hn : fd.toInt.toNat = n := by omega
  have hin : 0 ≤ fd.toInt ∧ fd.toInt.toNat < 16 := ⟨by omega, hn ▸ n.isLt⟩
  rw [find, dif_pos hin]
  exact congrArg m (Fin.ext hn)

theorem find_eq_some_iff {m : Holdings} {fd : Word} {d : Descriptor} :
    m.find fd = some d ↔ ∃ n : Fin 16, fd.toInt = n ∧ m n = some d := by
  constructor
  · intro h
    rw [find] at h
    split at h
    case isTrue hin => exact ⟨⟨fd.toInt.toNat, hin.2⟩, (Int.toNat_of_nonneg hin.1).symm, h⟩
    case isFalse => cases h
  · rintro ⟨n, hn, hd⟩
    rw [find_of_number hn, hd]

theorem least_unique {m : Holdings} {n k : Fin 16} (hn : m n = none)
    (hbelow : ∀ i < n, (m i).isSome) (hk : m k = none) (hbelow' : ∀ i < k, (m i).isSome) :
    n = k := by
  rcases Nat.lt_trichotomy n k with hlt | heq | hlt
  · have htaken := hbelow' n hlt
    rw [hn] at htaken
    cases htaken
  · exact Fin.ext heq
  · have htaken := hbelow k hlt
    rw [hk] at htaken
    cases htaken

theorem not_full_of_free {m : Holdings} {n : Fin 16} (free : m n = none)
    (taken : ∀ n, (m n).isSome) : False := by
  have hn := taken n
  rw [free] at hn
  cases hn

theorem not_missing {m : Holdings} {fd : Word} {n : Fin 16} {d : Descriptor}
    (number : fd.toInt = n) (there : m n = some d) (missing : m.find fd = none) : False := by
  rw [find_of_number number, there] at missing
  cases missing

theorem Does.unique {m m₁ m₂ : Holdings} {op : DescriptorOp} {a₁ a₂ : DescriptorAnswer}
    (h₁ : Does m op m₁ a₁) (h₂ : Does m op m₂ a₂) : m₁ = m₂ ∧ a₁ = a₂ := by
  induction h₁ with
  | full taken =>
    cases h₂ with
    | full => exact ⟨rfl, rfl⟩
    | placed free => exact (not_full_of_free free taken).elim
  | placed free lowest =>
    cases h₂ with
    | full taken => exact (not_full_of_free free taken).elim
    | placed free' lowest' =>
      obtain rfl := least_unique free lowest free' lowest'
      exact ⟨rfl, rfl⟩
  | copied there _ ih =>
    cases h₂ with
    | copied there' inserted =>
      obtain rfl := Option.some.inj (there.symm.trans there')
      exact ih inserted
    | uncopied missing => cases there.symm.trans missing
  | uncopied missing =>
    cases h₂ with
    | copied there => cases there.symm.trans missing
    | uncopied => exact ⟨rfl, rfl⟩
  | got =>
    cases h₂ with
    | got => exact ⟨rfl, rfl⟩
  | changed number there =>
    cases h₂ with
    | changed number' there' =>
      obtain rfl := Fin.ext (Int.ofNat_inj.mp (number.symm.trans number'))
      obtain rfl := Option.some.inj (there.symm.trans there')
      exact ⟨rfl, rfl⟩
    | unchanged missing => exact (not_missing number there missing).elim
  | unchanged missing =>
    cases h₂ with
    | changed number there => exact (not_missing number there missing).elim
    | unchanged => exact ⟨rfl, rfl⟩
  | removed number there =>
    cases h₂ with
    | removed number' there' =>
      obtain rfl := Fin.ext (Int.ofNat_inj.mp (number.symm.trans number'))
      obtain rfl := Option.some.inj (there.symm.trans there')
      exact ⟨rfl, rfl⟩
    | unremoved missing => exact (not_missing number there missing).elim
  | unremoved missing =>
    cases h₂ with
    | removed number there => exact (not_missing number there missing).elim
    | unremoved => exact ⟨rfl, rfl⟩
  | cleared =>
    cases h₂ with
    | cleared => exact ⟨rfl, rfl⟩

theorem Runs.unique {m m₁ m₂ : Holdings} {ops : List DescriptorOp}
    {as₁ as₂ : List DescriptorAnswer} (h₁ : Runs m ops m₁ as₁) (h₂ : Runs m ops m₂ as₂) :
    m₁ = m₂ ∧ as₁ = as₂ := by
  induction h₁ generalizing as₂ with
  | nil =>
    cases h₂ with
    | nil => exact ⟨rfl, rfl⟩
  | cons first _ ih =>
    cases h₂ with
    | cons first' rest' =>
      obtain ⟨rfl, rfl⟩ := first.unique first'
      obtain ⟨rfl, rfl⟩ := ih rest'
      exact ⟨rfl, rfl⟩

end Holdings

namespace DescriptorTable

/-- The new descriptor in its place, and the number of the place. -/
def store (t : DescriptorTable) (d : Descriptor) : DescriptorTable × DescriptorAnswer :=
  match t.insert d with
  | some (t', n) => (t', .placed (some n))
  | none => (t, .placed none)

def perform (t : DescriptorTable) : DescriptorOp → DescriptorTable × DescriptorAnswer
  | .insert d => t.store d
  | .copy fd =>
    match t.get? fd with
    | some d => t.store d
    | none => (t, .found none)
  | .get fd => (t, .found (t.get? fd))
  | .change fd f =>
    match t.get? fd with
    | some d => (t.set fd (some (f d)), .found (some d))
    | none => (t, .found none)
  | .remove fd => ((t.remove fd).1, .found (t.remove fd).2)
  | .clear => (.closed, .done)

def performAll (t : DescriptorTable) : List DescriptorOp → DescriptorTable × List DescriptorAnswer
  | [] => (t, [])
  | op :: ops =>
    let first := t.perform op
    let rest := first.1.performAll ops
    (rest.1, first.2 :: rest.2)

def holdings (t : DescriptorTable) : Holdings := fun n => t.at? n

theorem holdings_stdio : stdio.holdings = Holdings.stdio := by
  funext n
  revert n
  decide

theorem find_holdings {t : DescriptorTable} (h : t.Fits) (fd : Word) :
    t.holdings.find fd = t.get? fd := by
  rw [Holdings.find, get?, place?]
  by_cases hpos : 0 ≤ fd.toInt
  · rw [if_pos hpos, Option.bind_some]
    by_cases hlt : fd.toInt.toNat < 16
    · rw [dif_pos ⟨hpos, hlt⟩]
      rfl
    · have hend : t.slots.length ≤ fd.toInt.toNat := Nat.le_trans h (Nat.le_of_not_lt hlt)
      rw [dif_neg fun hin => hlt hin.2, at?, List.getElem?_eq_none hend]
      rfl
  · rw [dif_neg fun hin => hpos hin.1, if_neg hpos]
    rfl

theorem holdings_update {t t' : DescriptorTable} {n : Fin 16} {d : Option Descriptor}
    (h : ∀ k, t'.at? k = if k = n.val then d else t.at? k) :
    t'.holdings = Function.update t.holdings n d := by
  funext k
  rw [Function.update_apply, holdings, h]
  by_cases hk : k = n
  · rw [if_pos hk, if_pos (congrArg Fin.val hk)]
  · rw [if_neg hk, if_neg fun hval => hk (Fin.ext hval)]
    rfl

theorem exists_number {t : DescriptorTable} (h : t.Fits) {fd : Word} {d : Descriptor}
    (hd : t.get? fd = some d) : ∃ n : Fin 16, fd.toInt = n ∧ t.holdings n = some d := by
  rw [← find_holdings h] at hd
  exact Holdings.find_eq_some_iff.mp hd

theorem holdings_set {t : DescriptorTable} {fd : Word} {n : Fin 16} {d : Descriptor}
    (number : fd.toInt = n) (there : t.holdings n = some d) (d' : Option Descriptor) :
    (t.set fd d').holdings = Function.update t.holdings n d' := by
  have hplace : place? fd = some n.val := (place?_eq_some_iff fd n).mpr number
  have hsome : (t.at? n).isSome := Option.isSome_of_eq_some there
  exact holdings_update (at?_set hplace hsome d')

theorem does_store {t : DescriptorTable} (h : t.Fits) (d : Descriptor) :
    Holdings.Does t.holdings (.insert d) (t.store d).1.holdings (t.store d).2 := by
  rw [store]
  cases hi : t.insert d with
  | none =>
    apply Holdings.Does.full
    intro n
    have hfree : t.free? = none := Option.map_eq_none_iff.mp hi
    rw [free?] at hfree
    split at hfree
    case isTrue => cases hfree
    case isFalse hfull =>
      have hn : n.val < capacity := n.isLt
      exact isSome_at?_of_lt (by omega)
  | some placed =>
    obtain ⟨t', n⟩ := placed
    have hn : n < 16 := (h.insert hi).2
    have hbelow : ∀ k < (⟨n, hn⟩ : Fin 16), (t.holdings k).isSome := by
      intro k hk
      have hfree := free?_of_insert hi
      rw [free?] at hfree
      split at hfree
      · have hindex : t.slots.findIdx Option.isNone = n := Option.some.inj hfree
        exact isSome_at?_of_lt (hindex ▸ hk)
      · cases hfree
    show Holdings.Does t.holdings (.insert d) t'.holdings (.placed (some n))
    rw [holdings_update (n := ⟨n, hn⟩) (at?_insert hi)]
    exact Holdings.Does.placed (at?_of_insert hi) hbelow

theorem does_perform {t : DescriptorTable} (h : t.Fits) (op : DescriptorOp) :
    Holdings.Does t.holdings op (t.perform op).1.holdings (t.perform op).2 := by
  cases op with
  | insert d => exact does_store h d
  | copy fd =>
    rw [perform]
    cases hd : t.get? fd with
    | none => exact .uncopied ((find_holdings h fd).trans hd)
    | some d => exact .copied ((find_holdings h fd).trans hd) (does_store h d)
  | get fd =>
    rw [perform, ← find_holdings h]
    exact .got
  | change fd f =>
    rw [perform]
    cases hd : t.get? fd with
    | none => exact .unchanged ((find_holdings h fd).trans hd)
    | some d =>
      obtain ⟨n, number, there⟩ := exists_number h hd
      show Holdings.Does t.holdings _ (t.set fd (some (f d))).holdings _
      rw [holdings_set number there]
      exact .changed number there
  | remove fd =>
    rw [perform, remove]
    cases hd : t.get? fd with
    | none => exact .unremoved ((find_holdings h fd).trans hd)
    | some d =>
      obtain ⟨n, number, there⟩ := exists_number h hd
      show Holdings.Does t.holdings _ (t.set fd none).holdings _
      rw [holdings_set number there]
      exact .removed number there
  | clear => exact .cleared

theorem Fits.store {t : DescriptorTable} (h : t.Fits) (d : Descriptor) : (t.store d).1.Fits := by
  rw [DescriptorTable.store]
  cases hi : t.insert d with
  | none => exact h
  | some placed => exact (h.insert hi).1

theorem Fits.perform {t : DescriptorTable} (h : t.Fits) (op : DescriptorOp) :
    (t.perform op).1.Fits := by
  cases op with
  | insert d => exact h.store d
  | copy fd =>
    rw [DescriptorTable.perform]
    split
    · exact h.store _
    · exact h
  | get fd => exact h
  | change fd f =>
    rw [DescriptorTable.perform]
    split
    · exact h.set fd _
    · exact h
  | remove fd =>
    rw [DescriptorTable.perform, remove]
    split
    · exact h.set fd none
    · exact h
  | clear => exact fits_closed

theorem Fits.performAll {t : DescriptorTable} (h : t.Fits) (ops : List DescriptorOp) :
    (t.performAll ops).1.Fits := by
  induction ops generalizing t with
  | nil => exact h
  | cons op ops ih => exact ih (h.perform op)

theorem runs_performAll {t : DescriptorTable} (h : t.Fits) (ops : List DescriptorOp) :
    Holdings.Runs t.holdings ops (t.performAll ops).1.holdings (t.performAll ops).2 := by
  induction ops generalizing t with
  | nil => exact .nil
  | cons op ops ih => exact .cons (does_perform h op) (ih (h.perform op))

/-- What is true of a table after any operations on a fresh one. -/
structure LowestFirst (ops : List DescriptorOp) : Prop where
  /-- The map and the answers are the ones that the relation allows, and no others. -/
  refines : ∀ (m : Holdings) (as : List DescriptorAnswer),
    Holdings.Runs Holdings.stdio ops m as ↔
      (stdio.performAll ops).1.holdings = m ∧ (stdio.performAll ops).2 = as
  /-- Every number names in the table what it names in the map. -/
  named : ∀ fd, (stdio.performAll ops).1.get? fd = (stdio.performAll ops).1.holdings.find fd
  small : (stdio.performAll ops).1.slots.length ≤ 16
  /-- After everything has been closed, the next descriptor is the first. -/
  anew : ∀ d, (((stdio.performAll ops).1.perform .clear).1.perform (.insert d)).2 = .placed (some 0)

/-- A table is a partial map from sixteen numbers in which the lowest free one is next. -/
theorem lowest_first (ops : List DescriptorOp) : LowestFirst ops := by
  have hruns := runs_performAll fits_stdio ops
  rw [holdings_stdio] at hruns
  constructor
  case refines =>
    intro m as
    constructor
    · intro h
      exact hruns.unique h
    · rintro ⟨rfl, rfl⟩
      exact hruns
  case named =>
    intro fd
    exact (find_holdings (fits_stdio.performAll ops) fd).symm
  case small => exact fits_stdio.performAll ops
  case anew =>
    intro d
    rfl

end DescriptorTable

end KernelExam

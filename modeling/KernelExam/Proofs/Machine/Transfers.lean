import KernelExam.Proofs.Machine.Contents
import KernelExam.Proofs.Machine.Refusal

/-!
# Transfers

What one read or write leaves behind, as an equation. A transfer of no bytes leaves
everything as it was, unless its descriptor stands past the end of its file: then a read
moves it back to the end, and a write brings the end to it.
-/

set_option autoImplicit false

namespace KernelExam

theorem eq_of_getD {bs bs' : Bytes} (hlength : bs.length = bs'.length)
    (h : ∀ i, bs.getD i 0 = bs'.getD i 0) : bs = bs' := by
  refine List.ext_getElem hlength fun i hi hi' => ?_
  have hbyte := h i
  rwa [← List.getElem_eq_getD 0, ← List.getElem_eq_getD 0] at hbyte

theorem eq_zero_or_le_of_ofNat {n : Nat} (h : Int32.ofNat n = 0) : n = 0 ∨ 4294967296 ≤ n := by
  have hbits := congrArg (fun w : Word => w.toUInt32.toNat) h
  have hzero : (0 : Word).toUInt32.toNat = 0 := rfl
  simp only [Int32.toUInt32_ofNat', UInt32.toNat_ofNat', hzero] at hbits
  omega

theorem splice_nil (old : Bytes) (k : Nat) : splice old k [] = old ++ zeros (k - old.length) := by
  refine eq_of_getD ?_ fun i => ?_
  · rw [length_splice, List.length_append, zeros, List.length_replicate, List.length_nil]
    omega
  · rw [getD_splice, getD_append_zeros, if_neg]
    rw [List.length_nil]
    omega

theorem Objects.put_contents (os : Objects) (o : Nat) : os.put o (os.contents o) = os := by
  rcases Nat.lt_or_ge o os.length with h | h
  · have hget : os.contents o = os[o] := (List.getElem_eq_getD []).symm
    rw [put, hget, List.set_getElem_self]
  · exact List.set_eq_of_length_le h

namespace Descriptor

variable {d : Descriptor} {o k : Nat}

theorem endpoint_seek (he : d.endpoint = .file o k) (n : Nat) :
    (d.seek n).endpoint = .file o n := by
  rw [seek, he]

theorem seek_self (he : d.endpoint = .file o k) : d.seek k = d := by
  simp only [seek, he]
  rw [← he]

end Descriptor

namespace DescriptorTable

theorem set_self {t : DescriptorTable} {fd : Word} {d : Descriptor} (h : t.get? fd = some d) :
    t.set fd (some d) = t := by
  obtain ⟨n, hn, hat⟩ := Option.bind_eq_some_iff.mp h
  obtain ⟨hlt, hget⟩ := List.getElem?_eq_some_iff.mp (Option.join_eq_some_iff.mp hat)
  simp only [set, hn, ← hget, List.set_getElem_self]

end DescriptorTable

def Call.stream? : Call → Option Word
  | .read fd _ => some fd
  | .write fd _ => some fd
  | _ => none

namespace Machine

variable {m m' : Machine} {pid : Pid} {fd : Word} {d : Descriptor} {o k : Nat}

theorem setDescriptor_self (hd : m.descriptor? pid fd = some d) : m.setDescriptor pid fd d = m := by
  obtain ⟨p, hp, hget⟩ := Option.bind_eq_some_iff.mp hd
  have hsame : { p with descriptors := p.descriptors.set fd (some d) } = p := by
    rw [DescriptorTable.set_self hget]
  rw [setDescriptor, ProcessTable.modify_self hp hsame]

/-- A descriptor past the end of its file, which was emptied through another. -/
def Stranded (m : Machine) (pid : Pid) (fd : Word) : Prop :=
  ∃ d o k, m.descriptor? pid fd = some d ∧ d.endpoint = .file o k ∧
    (m.files.objects.contents o).length < k

/-- What a transfer of no bytes through `fd` leaves behind. -/
structure Idle (m : Machine) (pid : Pid) (fd : Word) (c : Call) (m' : Machine) : Prop where
  unchanged : m' = m ↔ ¬ m.Stranded pid fd
  /-- A read brings the position back to the end of the file. -/
  read : ∀ n d o k, c = .read fd n → m.descriptor? pid fd = some d → d.endpoint = .file o k →
    m' = m.setDescriptor pid fd (d.seek (min k (m.files.objects.contents o).length))
  /-- A write brings the end of the file to the position. -/
  write : ∀ bs d o k, c = .write fd bs → m.descriptor? pid fd = some d → d.endpoint = .file o k →
    m' = { m with
      files.objects := m.files.objects.put o
        (m.files.objects.contents o ++ zeros (k - (m.files.objects.contents o).length)) }

theorem same_file (hd : m.descriptor? pid fd = some d) (he : d.endpoint = .file o k)
    {d' : Descriptor} {o' k' : Nat} (hd' : m.descriptor? pid fd = some d')
    (he' : d'.endpoint = .file o' k') : d' = d ∧ o' = o ∧ k' = k := by
  obtain rfl := Option.some.inj (hd.symm.trans hd')
  obtain ⟨rfl, rfl⟩ := Endpoint.file.inj (he.symm.trans he')
  exact ⟨rfl, rfl, rfl⟩

theorem stranded_iff (hd : m.descriptor? pid fd = some d) (he : d.endpoint = .file o k) :
    m.Stranded pid fd ↔ (m.files.objects.contents o).length < k := by
  refine ⟨?_, fun h => ⟨d, o, k, hd, he, h⟩⟩
  rintro ⟨d', o', k', hd', he', h⟩
  obtain ⟨-, rfl, rfl⟩ := same_file hd he hd' he'
  exact h

theorem not_stranded (hd : m.descriptor? pid fd = some d) (he : ∀ o k, d.endpoint ≠ .file o k) :
    ¬ m.Stranded pid fd := by
  rintro ⟨d', o, k, hd', he', -⟩
  obtain rfl := Option.some.inj (hd.symm.trans hd')
  exact he o k he'

theorem Idle.of_console {c : Call} (hd : m.descriptor? pid fd = some d)
    (he : ∀ o k, d.endpoint ≠ .file o k) : m.Idle pid fd c m where
  unchanged := iff_of_true rfl (not_stranded hd he)
  read _ d' o k _ hd' he' := by
    obtain rfl := Option.some.inj (hd.symm.trans hd')
    exact absurd he' (he o k)
  write _ d' o k _ hd' he' := by
    obtain rfl := Option.some.inj (hd.symm.trans hd')
    exact absurd he' (he o k)

theorem idle_read_file (hd : m.descriptor? pid fd = some d) (he : d.endpoint = .file o k)
    (n : Nat) : m.Idle pid fd (.read fd n)
      (m.setDescriptor pid fd (d.seek (min k (m.files.objects.contents o).length))) where
  unchanged := by
    rw [stranded_iff hd he, Nat.not_lt]
    constructor
    · intro hsame
      by_contra hbeyond
      exact setDescriptor_ne hd he (by omega) hd hsame
    · intro hwithin
      rw [Nat.min_eq_left hwithin, Descriptor.seek_self he, setDescriptor_self hd]
  read _ d' o' k' _ hd' he' := by
    obtain ⟨rfl, rfl, rfl⟩ := same_file hd he hd' he'
    rfl
  write _ _ _ _ hc := nomatch hc

theorem idle_write_file (hd : m.descriptor? pid fd = some d) (he : d.endpoint = .file o k)
    (ho : o < m.files.objects.length) (bs : Bytes) :
    m.Idle pid fd (.write fd bs) { m with
      files.objects := m.files.objects.put o
        (m.files.objects.contents o ++ zeros (k - (m.files.objects.contents o).length)) } where
  unchanged := by
    rw [stranded_iff hd he, Nat.not_lt]
    constructor
    · intro hsame
      have hlength := congrArg (fun m : Machine => (m.files.objects.contents o).length) hsame
      dsimp only at hlength
      rw [Objects.contents_put _ _ _ ho, List.length_append, zeros,
        List.length_replicate] at hlength
      omega
    · intro hwithin
      rw [Nat.sub_eq_zero_of_le hwithin, zeros, List.replicate_zero, List.append_nil,
        Objects.put_contents]
  read _ _ _ _ hc := nomatch hc
  write _ d' o' k' _ hd' he' := by
    obtain ⟨rfl, rfl, rfl⟩ := same_file hd he hd' he'
    rfl

theorem Served.idle (hm : m.Moored) {c : Call} {a : c.Answer} (hs : m.Served pid c m' (.answer a))
    (hc : c.stream? = some fd) (hcode : c.code a = 0) (hmoved : c.moved a = 0) :
    m.Idle pid fd c m' := by
  cases hs with
  | refused =>
    cases c with
    | read | write => exact absurd (show (-1 : Word) = 0 from hcode) (by decide)
    | _ => cases hc
  | @readConsole _ n d hd _ he =>
    obtain rfl := Option.some.inj hc
    have hempty : (m.stdin.take n).length = 0 := hmoved
    have hkept : m.stdin.drop n = m.stdin := by
      rw [List.length_take] at hempty
      rcases Nat.min_eq_zero_iff.mp hempty with rfl | hnone
      · rfl
      · rw [List.eq_nil_of_length_eq_zero hnone, List.drop_nil]
    rw [hkept]
    exact .of_console hd fun o k => he ▸ nofun
  | @readFile _ n o k start bs d hd _ he hstart _ =>
    obtain rfl := Option.some.inj hc
    have hempty : bs.length = 0 := hmoved
    rw [hempty, Nat.add_zero, hstart]
    exact idle_read_file hd he n
  | @wroteConsole _ bs d hd _ he =>
    obtain rfl := Option.some.inj hc
    obtain rfl := List.eq_nil_of_length_eq_zero hmoved
    rw [List.append_nil]
    exact .of_console hd fun o k => he ▸ nofun
  | @wroteFile fd₁ bs o k d hd _ he =>
    obtain rfl := Option.some.inj hc
    obtain rfl := List.eq_nil_of_length_eq_zero hmoved
    have hstays : ({ m with files.objects := m.files.objects.overwrite o k [] } :
        Machine).descriptor? pid fd₁ = some d := hd
    rw [List.length_nil, Nat.add_zero, Descriptor.seek_self he, setDescriptor_self hstays,
      Objects.overwrite_eq_put, splice_nil]
    exact idle_write_file hd he (lt_of_descriptor? hm hd he) []
  | _ => cases hc

theorem Served.code_of_stream {c : Call} {a : c.Answer} (hs : m.Served pid c m' (.answer a))
    (hc : c.stream? = some fd) : c.code a = -1 ∨ c.code a = Int32.ofNat (c.moved a) := by
  cases hs with
  | refused =>
    cases c with
    | read | write => exact Or.inl rfl
    | _ => cases hc
  | readConsole | readFile | wroteConsole | wroteFile => exact Or.inr rfl
  | _ => cases hc

/-- A read or a write that answers 0 has transferred no bytes, unless their number is too large
for a word, and then it has left everything as it was but for a descriptor past the end. -/
theorem transfer_of_nothing (hm : m.Reachable) {c : Call} {a : c.Answer}
    (hc : c.stream? = some fd) (hs : m.serve pid c = (m', .answer a)) (hcode : c.code a = 0) :
    4294967296 ≤ c.moved a ∨ c.moved a = 0 ∧ m.Idle pid fd c m' := by
  have hserved := served_of_serve hs
  have hcount : Int32.ofNat (c.moved a) = 0 := by
    rcases hserved.code_of_stream hc with hrefused | hmoved
    · exact absurd (hrefused.symm.trans hcode) (by decide)
    · exact hmoved.symm.trans hcode
  rcases eq_zero_or_le_of_ofNat hcount with hzero | hlarge
  · exact Or.inr ⟨hzero, hserved.idle (moored_invariant.reachable hm) hc hcode hzero⟩
  · exact Or.inl hlarge

theorem transfer_of_nothing_scribe : ∃ m : Machine, m.Reachable ∧ m.Stranded 1 2 ∧
    (∃ m', m.serve 1 (.write 2 []) = (m', .answer (0 : Word)) ∧
      m'.files.objects.contents 0 = [0, 0, 0]) ∧
    ∃ m', m.serve 1 (.read 2 8) = (m', .answer ((0 : Word), [])) ∧
      m'.descriptor? 1 2 = some ⟨.file 0 0, true, true⟩ := by
  have hstart : scribe.Reachable := .boot "p" [] (.build (.register "p" _ .empty))
  obtain ⟨log, hrun⟩ := run_turn (fun _ => false) 1 3 scribe
  have hm := hstart.run hrun
  have hd : (turn (fun _ => false) 1 3 scribe).descriptor? 1 2 = some ⟨.file 0 3, true, true⟩ := rfl
  obtain ⟨m₁, hwrite⟩ : ∃ m', (turn (fun _ => false) 1 3 scribe).serve 1 (.write 2 []) =
      (m', .answer (0 : Word)) := ⟨_, rfl⟩
  obtain ⟨m₂, hread⟩ : ∃ m', (turn (fun _ => false) 1 3 scribe).serve 1 (.read 2 8) =
      (m', .answer ((0 : Word), [])) := ⟨_, rfl⟩
  refine ⟨_, hm, (stranded_iff hd rfl).mpr (by decide), ⟨m₁, hwrite, ?_⟩, m₂, hread, ?_⟩
  · rcases transfer_of_nothing hm rfl hwrite rfl with hlarge | ⟨-, hidle⟩
    · exact absurd hlarge (by decide)
    · rw [hidle.write [] _ 0 3 rfl hd rfl]
      rfl
  · rcases transfer_of_nothing hm rfl hread rfl with hlarge | ⟨-, hidle⟩
    · exact absurd hlarge (by decide)
    · rw [hidle.read 8 _ 0 3 rfl hd rfl]
      rfl

end Machine

end KernelExam

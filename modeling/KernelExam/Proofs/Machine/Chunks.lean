import KernelExam.Proofs.Machine.Isolation
import KernelExam.Proofs.Machine.Transfers
import Mathlib.Algebra.Order.Ring.Int
import Mathlib.Data.List.GetD

/-!
# Transfers in chunks

Two writes that follow each other are one write of both chunks, and two reads are one read of
both sizes, wherever the descriptor stands. So bytes that go into a new file in any chunks come
out of it in any others.
-/

set_option autoImplicit false

namespace KernelExam

theorem splice_splice (old : Bytes) (k : Nat) (bs bs' : Bytes) :
    splice (splice old k bs) (k + bs.length) bs' = splice old k (bs ++ bs') := by
  refine eq_of_getD ?_ fun i => ?_
  · simp only [length_splice, List.length_append]
    omega
  · simp only [getD_splice, List.length_append]
    by_cases hfirst : k ≤ i ∧ i < k + bs.length
    · rw [if_neg (by omega), if_pos hfirst, if_pos (by omega), List.getD_append _ _ _ _ (by omega)]
    by_cases hsecond : k + bs.length ≤ i ∧ i < k + bs.length + bs'.length
    · rw [if_pos hsecond, if_pos (by omega), List.getD_append_right _ _ _ _ (by omega),
        Nat.sub_sub]
    · rw [if_neg hsecond, if_neg hfirst, if_neg (by omega)]

theorem splice_empty (bs : Bytes) : splice [] 0 bs = bs := by
  simp [splice, zeros]

theorem Objects.overwrite_overwrite (os : Objects) (o k : Nat) (bs bs' : Bytes) :
    (os.overwrite o k bs).overwrite o (k + bs.length) bs' = os.overwrite o k (bs ++ bs') := by
  simp only [overwrite_eq_put]
  rcases Nat.lt_or_ge o os.length with h | h
  · rw [contents_put _ _ _ h, splice_splice]
    exact List.set_set ..
  · simp only [put, List.set_eq_of_length_le h]

theorem FileSystem.Mapped.openFile_created {fs fs' : FileSystem} {path : String} {o : Nat}
    (h : fs.Mapped) (hp : Path.Canonical path) (ho : fs.create path = (fs', .ok o)) :
    fs'.openFile path = .ok o ∧ fs'.objects.contents o = [] := by
  obtain ⟨s, hs⟩ := h
  obtain ⟨hanswer, hshows⟩ := hs.create hp
  rw [ho] at hanswer hshows
  obtain ⟨hk, hempty, -⟩ := PathMap.create_ok (Prod.ext rfl hanswer.symm)
  refine ⟨?_, ?_⟩
  · rw [hshows.openFile hp, PathMap.openFile, PathMap.obstacle?_of_kind _ _ _ hk, hk]
  · rw [hshows.objects]
    exact hempty

/-- Bytes cut into pieces of these sizes, short or empty where they run out. -/
def cuts (bs : Bytes) : List Nat → List Bytes
  | [] => []
  | n :: sizes => bs.take n :: cuts (bs.drop n) sizes

theorem length_cuts (bs : Bytes) (sizes : List Nat) : (cuts bs sizes).length = sizes.length := by
  induction sizes generalizing bs with
  | nil => rfl
  | cons n sizes ih => rw [cuts, List.length_cons, ih, List.length_cons]

theorem flatten_cuts (bs : Bytes) (sizes : List Nat) :
    (cuts bs sizes).flatten = bs.take sizes.sum := by
  induction sizes generalizing bs with
  | nil => rw [cuts, List.flatten_nil, List.sum_nil, List.take_zero]
  | cons n sizes ih => rw [cuts, List.flatten_cons, ih, List.sum_cons, List.take_add]

namespace Descriptor

variable {d : Descriptor} {o k : Nat}

theorem seek_seek (he : d.endpoint = .file o k) (n n' : Nat) : (d.seek n).seek n' = d.seek n' := by
  simp only [seek, he]

theorem readable_seek (n : Nat) : (d.seek n).readable = d.readable := by
  rw [seek]
  split <;> rfl

theorem writable_seek (n : Nat) : (d.seek n).writable = d.writable := by
  rw [seek]
  split <;> rfl

end Descriptor

theorem DescriptorTable.set_set (t : DescriptorTable) (fd : Word) (d d' : Option Descriptor) :
    (t.set fd d).set fd d' = t.set fd d' := by
  cases hn : place? fd with
  | none => simp only [set, hn]
  | some n => simp only [set, hn, List.set_set]

namespace Machine

/-- A file, or the console in the right direction. -/
def Readable (m : Machine) (pid : Pid) (fd : Word) : Prop :=
  ∃ d, m.descriptor? pid fd = some d ∧ d.readable = true ∧ d.endpoint ≠ .stdout

def Writable (m : Machine) (pid : Pid) (fd : Word) : Prop :=
  ∃ d, m.descriptor? pid fd = some d ∧ d.writable = true ∧ d.endpoint ≠ .stdin

theorem readable_of_object {m : Machine} {pid : Pid} {fd : Word} {o : Nat}
    (hd : m.descriptor? pid fd = some (.ofObject o)) : m.Readable pid fd :=
  ⟨_, hd, rfl, by simp [Descriptor.ofObject]⟩

theorem writable_of_object {m : Machine} {pid : Pid} {fd : Word} {o : Nat}
    (hd : m.descriptor? pid fd = some (.ofObject o)) : m.Writable pid fd :=
  ⟨_, hd, rfl, by simp [Descriptor.ofObject]⟩

/-- The bytes that a reader has before it. -/
def ahead (m : Machine) (pid : Pid) (fd : Word) : Bytes :=
  match (m.descriptor? pid fd).map Descriptor.endpoint with
  | some .stdin => m.stdin
  | some (.file o k) => (m.files.objects.contents o).drop k
  | _ => []

variable {m m' : Machine} {pid : Pid} {fd : Word} {d : Descriptor} {o k : Nat}

theorem setDescriptor_setDescriptor (m : Machine) (pid : Pid) (fd : Word) (d d' : Descriptor) :
    (m.setDescriptor pid fd d).setDescriptor pid fd d' = m.setDescriptor pid fd d' := by
  simp only [setDescriptor, ProcessTable.modify_modify, DescriptorTable.set_set]

def placed (m : Machine) (pid : Pid) (fd : Word) (d : Descriptor) (o k : Nat) (bs : Bytes) :
    Machine :=
  { m with files.objects := m.files.objects.overwrite o k bs }.setDescriptor pid fd
    (d.seek (k + bs.length))

section Endpoint

variable (hd : m.descriptor? pid fd = some d)
include hd

theorem ahead_stdin (he : d.endpoint = .stdin) : m.ahead pid fd = m.stdin := by
  rw [ahead, hd, Option.map_some, he]

theorem ahead_file (he : d.endpoint = .file o k) :
    m.ahead pid fd = (m.files.objects.contents o).drop k := by
  rw [ahead, hd, Option.map_some, he]

theorem read_stdin (hr : d.readable = true) (he : d.endpoint = .stdin) (n : Nat) :
    m.read pid fd n = ({ m with stdin := m.stdin.drop n },
      .answer (Int32.ofNat (m.stdin.take n).length, m.stdin.take n)) := by
  simp only [read, hd, if_pos hr, he]

theorem read_file (hr : d.readable = true) (he : d.endpoint = .file o k) (n : Nat) :
    m.read pid fd n =
      (m.setDescriptor pid fd (d.seek (min (k + n) (m.files.objects.contents o).length)),
        .answer (Int32.ofNat (((m.files.objects.contents o).drop k).take n).length,
          ((m.files.objects.contents o).drop k).take n)) := by
  obtain ⟨⟨count, bs⟩, hs, hbytes, hlength, hcount, -⟩ := serve_read n hd hr he
  obtain rfl : bs = _ := hbytes
  dsimp only at hcount hlength hs
  subst hcount
  have hposition : min k (m.files.objects.contents o).length +
      (((m.files.objects.contents o).drop k).take n).length =
      min (k + n) (m.files.objects.contents o).length := by
    rw [hlength]
    omega
  rw [hposition] at hs
  exact hs

theorem write_stdout (hw : d.writable = true) (he : d.endpoint = .stdout) (bs : Bytes) :
    m.write pid fd bs =
      ({ m with stdout := m.stdout ++ bs }, .answer (Int32.ofNat bs.length)) := by
  simp only [write, hd, if_pos hw, he]

theorem write_file (hw : d.writable = true) (he : d.endpoint = .file o k) (bs : Bytes) :
    m.write pid fd bs = (m.placed pid fd d o k bs, .answer (Int32.ofNat bs.length)) := by
  simp only [write, hd, if_pos hw, he, placed]

theorem descriptor?_placed (bs : Bytes) :
    (m.placed pid fd d o k bs).descriptor? pid fd = some (d.seek (k + bs.length)) :=
  descriptor?_setDescriptor (m := { m with files.objects := m.files.objects.overwrite o k bs }) hd

end Endpoint

theorem placed_placed (he : d.endpoint = .file o k) (bs bs' : Bytes) :
    (m.placed pid fd d o k bs).placed pid fd (d.seek (k + bs.length)) o (k + bs.length) bs' =
      m.placed pid fd d o k (bs ++ bs') := by
  have hobjects : (m.placed pid fd d o k bs).files.objects = m.files.objects.overwrite o k bs := rfl
  rw [placed, hobjects, Objects.overwrite_overwrite, Descriptor.seek_seek he, Nat.add_assoc,
    ← List.length_append]
  exact setDescriptor_setDescriptor { m with
    files.objects := m.files.objects.overwrite o k (bs ++ bs') } pid fd _ _

theorem Readable.read (h : m.Readable pid fd) (n : Nat) :
    (m.read pid fd n).2 =
        .answer (Int32.ofNat ((m.ahead pid fd).take n).length, (m.ahead pid fd).take n) ∧
      (m.read pid fd n).1.Readable pid fd ∧
      (m.read pid fd n).1.ahead pid fd = (m.ahead pid fd).drop n ∧
      ∀ n', ((m.read pid fd n).1.read pid fd n').1 = (m.read pid fd (n + n')).1 := by
  obtain ⟨d, hd, hr, hout⟩ := h
  cases he : d.endpoint with
  | stdout => exact absurd he hout
  | stdin =>
    have hd' : ({ m with stdin := m.stdin.drop n } : Machine).descriptor? pid fd = some d := hd
    rw [read_stdin hd hr he, ahead_stdin hd he, ahead_stdin hd' he]
    refine ⟨rfl, ⟨d, hd', hr, hout⟩, rfl, fun n' => ?_⟩
    rw [read_stdin hd' hr he, read_stdin hd hr he, List.drop_drop]
  | file o k =>
    rw [read_file hd hr he, ahead_file hd he]
    generalize hk' : min (k + n) (m.files.objects.contents o).length = k'
    have hd' : (m.setDescriptor pid fd (d.seek k')).descriptor? pid fd = some (d.seek k') :=
      descriptor?_setDescriptor hd
    have he' := Descriptor.endpoint_seek he k'
    have hr' := (Descriptor.readable_seek (d := d) k').trans hr
    refine ⟨rfl, ⟨_, hd', hr', he' ▸ nofun⟩, ?_, fun n' => ?_⟩
    · have hobjects : (m.setDescriptor pid fd (d.seek k')).files = m.files := rfl
      rw [ahead_file hd' he', hobjects, List.drop_drop, ← hk']
      rcases Nat.le_total (k + n) (m.files.objects.contents o).length with hin | hout
      · rw [Nat.min_eq_left hin]
      · rw [Nat.min_eq_right hout, List.drop_length, List.drop_eq_nil_of_le hout]
    · have hobjects : (m.setDescriptor pid fd (d.seek k')).files = m.files := rfl
      have hposition : min (k' + n') (m.files.objects.contents o).length =
          min (k + (n + n')) (m.files.objects.contents o).length := by omega
      rw [read_file hd' hr' he', read_file hd hr he, Descriptor.seek_seek he,
        setDescriptor_setDescriptor, hobjects, hposition]

theorem Writable.write (h : m.Writable pid fd) (bs : Bytes) :
    (m.write pid fd bs).2 = .answer (Int32.ofNat bs.length) ∧
      (m.write pid fd bs).1.Writable pid fd ∧
      ∀ bs', ((m.write pid fd bs).1.write pid fd bs').1 = (m.write pid fd (bs ++ bs')).1 := by
  obtain ⟨d, hd, hw, hin⟩ := h
  cases he : d.endpoint with
  | stdin => exact absurd he hin
  | stdout =>
    have hd' : ({ m with stdout := m.stdout ++ bs } : Machine).descriptor? pid fd = some d := hd
    rw [write_stdout hd hw he]
    refine ⟨rfl, ⟨d, hd', hw, hin⟩, fun bs' => ?_⟩
    rw [write_stdout hd' hw he, write_stdout hd hw he, List.append_assoc]
  | file o k =>
    have hd' := descriptor?_placed (o := o) (k := k) hd bs
    have he' := Descriptor.endpoint_seek he (k + bs.length)
    have hw' := (Descriptor.writable_seek (d := d) (k + bs.length)).trans hw
    rw [write_file hd hw he]
    refine ⟨rfl, ⟨_, hd', hw', he' ▸ nofun⟩, fun bs' => ?_⟩
    rw [write_file hd' hw' he', write_file hd hw he, placed_placed he]

/-- Calls of one process, served one after the other with these answers. -/
inductive Exchanges (pid : Pid) : Machine → List Reply → Machine → Prop
  | done (m : Machine) : Exchanges pid m [] m
  | next {m m' m'' : Machine} {r : Reply} {rest : List Reply} :
      m.serve pid r.call = (m', .answer r.answer) → Exchanges pid m' rest m'' →
      Exchanges pid m (r :: rest) m''

def writes (fd : Word) (chunks : List Bytes) : List Reply :=
  chunks.map fun bs => ⟨.write fd bs, Int32.ofNat bs.length⟩

def reads (fd : Word) (sizes : List Nat) (pieces : List Bytes) : List Reply :=
  List.zipWith (fun n bs => ⟨.read fd n, (Int32.ofNat bs.length, bs)⟩) sizes pieces

theorem Writable.serve (h : m.Writable pid fd) (bs : Bytes) :
    m.serve pid (.write fd bs) = ((m.write pid fd bs).1, .answer (Int32.ofNat bs.length)) :=
  Prod.ext rfl (h.write bs).1

theorem Readable.serve (h : m.Readable pid fd) (n : Nat) :
    m.serve pid (.read fd n) = ((m.read pid fd n).1,
      .answer (Int32.ofNat ((m.ahead pid fd).take n).length, (m.ahead pid fd).take n)) :=
  Prod.ext rfl (h.read n).1

theorem Writable.exchanges (h : m.Writable pid fd) (bs : Bytes) (rest : List Bytes) :
    m.Exchanges pid (writes fd (bs :: rest)) (m.write pid fd (bs :: rest).flatten).1 := by
  induction rest generalizing m bs with
  | nil =>
    rw [List.flatten_singleton]
    exact .next (h.serve bs) (.done _)
  | cons bs' rest ih =>
    obtain ⟨-, hnext, happend⟩ := h.write bs
    rw [List.flatten_cons, ← happend]
    exact .next (h.serve bs) (ih hnext bs')

theorem Readable.exchanges (h : m.Readable pid fd) (n : Nat) (sizes : List Nat) :
    m.Exchanges pid (reads fd (n :: sizes) (cuts (m.ahead pid fd) (n :: sizes)))
      (m.read pid fd (n :: sizes).sum).1 := by
  induction sizes generalizing m n with
  | nil =>
    rw [List.sum_singleton]
    exact .next (h.serve n) (.done _)
  | cons n' sizes ih =>
    obtain ⟨-, hnext, hahead, hadd⟩ := h.read n
    have hrest := ih hnext n'
    rw [hahead] at hrest
    rw [List.sum_cons, ← hadd]
    exact .next (h.serve n) hrest

theorem sum_counts (chunks : List Bytes) (h : chunks.flatten.length < 2147483648) :
    (chunks.map fun bs => (Int32.ofNat bs.length).toInt).sum =
      (Int32.ofNat chunks.flatten.length).toInt := by
  induction chunks with
  | nil => rfl
  | cons bs chunks ih =>
    rw [List.flatten_cons, List.length_append] at h
    rw [List.map_cons, List.sum_cons, ih (by omega), List.flatten_cons, List.length_append,
      Int32.toInt_ofNat_of_lt (by omega), Int32.toInt_ofNat_of_lt (by omega),
      Int32.toInt_ofNat_of_lt (by omega), Int.natCast_add]

theorem Exchanges.fitting {replies : List Reply} (h : m.Exchanges pid replies m')
    (hm : m.Fitting) : m'.Fitting := by
  induction h with
  | done => exact hm
  | next hs _ ih => exact ih (hm.serve (served_of_serve hs))

theorem resolve_modify {f : ProcessState → ProcessState} (hf : ∀ p, (f p).cwd = p.cwd) (q : Pid)
    (path : String) : ({ m with processes := m.processes.modify pid f } : Machine).resolve q path =
      m.resolve q path := by
  simp only [resolve, ProcessTable.get?_modify]
  split
  · cases m.processes.get? q with
    | none => rfl
    | some p => exact congrArg (Path.resolve path) (hf p)
  · rfl

theorem resolve_withDescriptors (m : Machine) (ds : DescriptorTable) (q : Pid) (path : String) :
    (m.withDescriptors pid ds).resolve q path = m.resolve q path := by
  rw [withDescriptors, resolve_modify]
  exact fun _ => rfl

theorem resolve_setDescriptor (m : Machine) (q : Pid) (path : String) :
    (m.setDescriptor pid fd d).resolve q path = m.resolve q path := by
  rw [setDescriptor, resolve_modify]
  exact fun _ => rfl

theorem free?_set {t : DescriptorTable} (ht : t.Fits) (hd : t.get? fd = some d) (d' : Descriptor) :
    (t.set fd (some d')).free? = t.free? := by
  rw [← DescriptorTable.lowest_taken ht, ← DescriptorTable.lowest_taken (ht.set fd _),
    DescriptorTable.taken_congr fun fd' => ?_]
  rw [DescriptorTable.get?_set hd]
  split
  · rename_i hfd
    rw [hfd, hd]
    rfl
  · rfl

theorem crowded_setDescriptor (hm : m.Fitting) (hd : m.descriptor? pid fd = some d)
    (d' : Descriptor) (q : Pid) : (m.setDescriptor pid fd d').Crowded q ↔ m.Crowded q := by
  by_cases hq : q = pid
  · subst hq
    obtain ⟨p, hp, hget⟩ := Option.bind_eq_some_iff.mp hd
    have hp' : (m.setDescriptor q fd d').processes.get? q =
        some { p with descriptors := p.descriptors.set fd (some d') } := by
      rw [setDescriptor, ProcessTable.get?_modify, if_pos rfl, hp]
      rfl
    simp only [Crowded, hp, hp', Option.some.injEq, forall_eq', free?_set (hm q p hp) hget]
  · simp only [Crowded, setDescriptor, ProcessTable.get?_modify, if_neg hq]

/-- A file that `place` leads to and that holds `bs`. -/
structure Holds (m : Machine) (place : String) (o : Nat) (bs : Bytes) : Prop where
  file : m.files.openFile place = .ok o
  there : o < m.files.objects.length
  contents : m.files.objects.contents o = bs

theorem created_empty (hm : m.Reachable) (ha : m.alive pid = true) {path : String}
    (hs : m.serve pid (.create path) = (m', .answer fd)) (hfd : fd ≠ -1) :
    ∃ place o, m.resolve pid path = some place ∧ m'.Holds place o [] ∧
      m'.descriptor? pid fd = some (.ofObject o) ∧
      ∀ q path', m'.resolve q path' = m.resolve q path' := by
  have hserved := served_of_serve hs
  generalize hr : Reaction.answer fd = r at hserved
  cases hserved with
  | refused | createdInVain =>
    obtain rfl := Reaction.answer.inj hr
    exact absurd rfl hfd
  | @created _ place files o n p ds hq hf hp hi =>
    obtain rfl := Reaction.answer.inj hr
    have hn := ((fitting_invariant.reachable hm pid p hp).insert hi).2
    have hplace := (housed_invariant.reachable hm).resolve ha hq
    have hmapped := (housed_invariant.reachable hm).mapped
    obtain ⟨hopen, hempty⟩ := hmapped.openFile_created hplace hf
    have hthere := hmapped.lt_of_create hplace hf
    refine ⟨place, o, hq, ⟨hopen, hthere, hempty⟩, ?_, fun q path' => ?_⟩
    · have hentered := get?_withDescriptors (m := { m with files }) hp ds
      rw [descriptor?_eq_get? hentered, DescriptorTable.get?_insert hi hn, if_pos rfl]
    · exact resolve_withDescriptors { m with files } ds q path'

theorem Holds.write {place : String} (h : m.Holds place o []) (hm : m.Fitting)
    (hd : m.descriptor? pid fd = some (.ofObject o)) (chunks : List Bytes) :
    ∃ m', m.Exchanges pid (writes fd chunks) m' ∧ m'.Holds place o chunks.flatten ∧
      (∀ q path, m'.resolve q path = m.resolve q path) ∧ ∀ q, m'.Crowded q ↔ m.Crowded q := by
  cases chunks with
  | nil => exact ⟨m, .done m, h, fun _ _ => rfl, fun _ => Iff.rfl⟩
  | cons bs rest =>
    have hw := writable_of_object hd
    refine ⟨_, hw.exchanges bs rest, ?_⟩
    rw [write_file hd rfl rfl]
    refine ⟨⟨h.file, (length_overwrite ..).symm ▸ h.there, ?_⟩, fun q path => ?_,
      fun q => ?_⟩
    · show (m.files.objects.overwrite o 0 (bs :: rest).flatten).contents o = _
      rw [Objects.overwrite_eq_put, Objects.contents_put _ _ _ h.there, h.contents, splice_empty]
    · exact resolve_setDescriptor { m with
        files.objects := m.files.objects.overwrite o 0 (bs :: rest).flatten } q path
    · exact crowded_setDescriptor (m := { m with
        files.objects := m.files.objects.overwrite o 0 (bs :: rest).flatten }) hm hd _ q

theorem Holds.read {place path : String} {bs : Bytes} (h : m.Holds place o bs) (hm : m.Fitting)
    (hplace : m.resolve pid path = some place) (hroom : ¬ m.Crowded pid) :
    ∃ m' fd, m.serve pid (.openFile path) = (m', .answer fd) ∧ fd ≠ -1 ∧
      ∀ sizes, ∃ m'', m'.Exchanges pid (reads fd sizes (cuts bs sizes)) m'' := by
  obtain ⟨p, hp, hfree⟩ : ∃ p, m.processes.get? pid = some p ∧ p.descriptors.free? ≠ none := by
    simpa only [Crowded, not_forall, exists_prop] using hroom
  obtain ⟨⟨ds, n⟩, hi⟩ : ∃ place, p.descriptors.insert (.ofObject o) = some place := by
    rwa [← Option.ne_none_iff_exists', ne_eq, Served.insert_eq_none_iff]
  have hn := ((hm pid p hp).insert hi).2
  have hentered := get?_withDescriptors hp ds
  have hd : (m.withDescriptors pid ds).descriptor? pid (Int32.ofNat n) = some (.ofObject o) := by
    rw [descriptor?_eq_get? hentered, DescriptorTable.get?_insert hi hn, if_pos rfl]
  have hserve : m.serve pid (.openFile path) =
      (m.withDescriptors pid ds, .answer (Int32.ofNat n)) := by
    simp only [Machine.serve, Machine.openFile, hplace, h.file, install, hp, hi,
      Served.withDescriptors_of_put hp]
  refine ⟨_, Int32.ofNat n, hserve, ofNat_ne_neg_one (Nat.lt_trans hn (by decide)), fun sizes => ?_⟩
  cases sizes with
  | nil => exact ⟨_, .done _⟩
  | cons size sizes =>
    have hr := readable_of_object hd
    have hahead : (m.withDescriptors pid ds).ahead pid (Int32.ofNat n) = bs :=
      (ahead_file hd rfl).trans h.contents
    have hreads := hr.exchanges size sizes
    rw [hahead] at hreads
    exact ⟨_, hreads⟩

structure Chunked (m : Machine) (pid : Pid) : Prop where
  /-- Two writes are one: they leave the same machine, and their counts add up. -/
  write : ∀ fd bs bs', m.Writable pid fd → bs.length + bs'.length < 2147483648 →
    ∃ (m₁ m₂ : Machine) (a a' : Word), m.serve pid (.write fd bs) = (m₁, .answer a) ∧
      m₁.serve pid (.write fd bs') = (m₂, .answer a') ∧
      m.serve pid (.write fd (bs ++ bs')) = (m₂, .answer (a + a')) ∧
      (a + a').toInt = a.toInt + a'.toInt
  /-- Two reads are one: they give the same bytes and leave the same machine. -/
  read : ∀ fd n n', m.Readable pid fd →
    ∃ (m₁ m₂ : Machine) (a a' : Word) (bs bs' : Bytes),
      m.serve pid (.read fd n) = (m₁, .answer (a, bs)) ∧
      m₁.serve pid (.read fd n') = (m₂, .answer (a', bs')) ∧
      m.serve pid (.read fd (n + n')) = (m₂, .answer (a + a', bs ++ bs'))
  /-- So are any number of them. -/
  writes : ∀ fd chunks, m.Writable pid fd → chunks ≠ [] → chunks.flatten.length < 2147483648 →
    ∃ m', m.Exchanges pid (writes fd chunks) m' ∧
      m.serve pid (.write fd chunks.flatten) =
        (m', .answer (Int32.ofNat chunks.flatten.length)) ∧
      (chunks.map fun bs => (Int32.ofNat bs.length).toInt).sum =
        (Int32.ofNat chunks.flatten.length).toInt
  reads : ∀ fd sizes, m.Readable pid fd → sizes ≠ [] →
    ∃ m' pieces, pieces.length = sizes.length ∧ m.Exchanges pid (reads fd sizes pieces) m' ∧
      m.serve pid (.read fd sizes.sum) =
        (m', .answer (Int32.ofNat pieces.flatten.length, pieces.flatten))
  /-- What goes into a new file in chunks comes out of it in any others, whoever opens it. -/
  returned : ∀ path m₁ (fd : Word) chunks, m.serve pid (.create path) = (m₁, .answer fd) →
    fd ≠ -1 → ∃ m₂, m₁.Exchanges pid (Machine.writes fd chunks) m₂ ∧
      ∀ q path', m.resolve q path' = m.resolve pid path → ¬ m₁.Crowded q →
        ∃ m₃ fd', m₂.serve q (.openFile path') = (m₃, .answer fd') ∧ fd' ≠ -1 ∧
          ∀ sizes, ∃ m₄ pieces, pieces.length = sizes.length ∧
            m₃.Exchanges q (Machine.reads fd' sizes pieces) m₄ ∧
            pieces.flatten = chunks.flatten.take sizes.sum

theorem Writable.twice (h : m.Writable pid fd) {bs bs' : Bytes}
    (hword : bs.length + bs'.length < 2147483648) :
    ∃ (m₁ m₂ : Machine) (a a' : Word), m.serve pid (.write fd bs) = (m₁, .answer a) ∧
      m₁.serve pid (.write fd bs') = (m₂, .answer a') ∧
      m.serve pid (.write fd (bs ++ bs')) = (m₂, .answer (a + a')) ∧
      (a + a').toInt = a.toInt + a'.toInt := by
  obtain ⟨-, hnext, happend⟩ := h.write bs
  refine ⟨_, _, _, _, h.serve bs, hnext.serve bs', ?_, ?_⟩
  · rw [h.serve, happend, List.length_append, Int32.ofNat_add]
  · rw [← Int32.ofNat_add, Int32.toInt_ofNat_of_lt hword, Int32.toInt_ofNat_of_lt (by omega),
      Int32.toInt_ofNat_of_lt (by omega), Int.natCast_add]

theorem Readable.twice (h : m.Readable pid fd) (n n' : Nat) :
    ∃ (m₁ m₂ : Machine) (a a' : Word) (bs bs' : Bytes),
      m.serve pid (.read fd n) = (m₁, .answer (a, bs)) ∧
      m₁.serve pid (.read fd n') = (m₂, .answer (a', bs')) ∧
      m.serve pid (.read fd (n + n')) = (m₂, .answer (a + a', bs ++ bs')) := by
  obtain ⟨-, hnext, hahead, hadd⟩ := h.read n
  refine ⟨_, _, _, _, _, _, h.serve n, hnext.serve n', ?_⟩
  rw [h.serve, hadd, hahead, ← Int32.ofNat_add, ← List.length_append, ← List.take_add]

/-- Transfers do the same however they are cut into chunks. -/
theorem transfers_chunked (hm : m.Reachable) (ha : m.alive pid = true) : m.Chunked pid where
  write _ _ _ h hword := h.twice hword
  read _ n n' h := h.twice n n'
  writes fd chunks h hchunks hword := by
    obtain ⟨bs, rest, rfl⟩ := List.exists_cons_of_ne_nil hchunks
    exact ⟨_, h.exchanges bs rest, h.serve _, sum_counts _ hword⟩
  reads fd sizes h hsizes := by
    obtain ⟨n, sizes, rfl⟩ := List.exists_cons_of_ne_nil hsizes
    refine ⟨_, _, length_cuts .., h.exchanges n sizes, ?_⟩
    rw [h.serve, flatten_cuts]
  returned path m₁ fd chunks hs hfd := by
    obtain ⟨place, o, hplace, hholds, hd, hresolve⟩ := created_empty hm ha hs hfd
    have hfits : m₁.Fitting := (fitting_invariant.reachable hm).serve (served_of_serve hs)
    obtain ⟨m₂, hwrites, hheld, hresolve', hcrowded⟩ := hholds.write hfits hd chunks
    refine ⟨m₂, hwrites, fun q path' hsame hroom => ?_⟩
    have hplace' : m₂.resolve q path' = some place := by
      rw [hresolve', hresolve, hsame, hplace]
    obtain ⟨m₃, fd', hopen, hfd', hreads⟩ :=
      hheld.read (hwrites.fitting hfits) hplace' (mt (hcrowded q).mp hroom)
    refine ⟨m₃, fd', hopen, hfd', fun sizes => ?_⟩
    obtain ⟨m₄, hread⟩ := hreads sizes
    exact ⟨m₄, _, length_cuts .., hread, flatten_cuts ..⟩

theorem transfers_chunked_scribe : scribe.Reachable ∧ scribe.alive 1 = true ∧
    ∃ m₁ m₂ m₃ m₄ fd pieces, scribe.serve 1 (.create "/f") = (m₁, .answer (2 : Word)) ∧
      m₁.Exchanges 1 (writes 2 [[1], [], [2, 3]]) m₂ ∧
      m₂.serve 1 (.openFile "/f") = (m₃, .answer fd) ∧
      m₃.Exchanges 1 (reads fd [2, 5] pieces) m₄ ∧ pieces.flatten = [1, 2, 3] := by
  have hstart : scribe.Reachable := .boot "p" [] (.build (.register "p" _ .empty))
  obtain ⟨m₁, hs⟩ : ∃ m₁, scribe.serve 1 (.create "/f") = (m₁, .answer (2 : Word)) := ⟨_, rfl⟩
  have hroom : ¬ m₁.Crowded 1 := by
    obtain rfl := (Prod.mk.inj hs).1
    intro hfull
    exact Option.some_ne_none 3 (hfull _ rfl)
  have hchunked : scribe.Chunked 1 := transfers_chunked hstart rfl
  obtain ⟨m₂, hwrites, hopens⟩ := hchunked.returned "/f" m₁ 2 [[1], [], [2, 3]] hs (by decide)
  obtain ⟨m₃, fd, hopen, -, hreads⟩ := hopens 1 "/f" rfl hroom
  obtain ⟨m₄, pieces, -, hread, hpieces⟩ := hreads [2, 5]
  exact ⟨hstart, rfl, m₁, m₂, m₃, m₄, fd, pieces, hs, hwrites, hopen, hread, hpieces⟩

end Machine

end KernelExam

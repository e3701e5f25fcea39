import KernelExam.Proofs.FileSystem.Topmost
import KernelExam.Proofs.Machine.Solo
import KernelExam.Proofs.Suite.Reporting
import KernelExam.Scenario

/-!
# Which file systems the walk accepts

The test of directories makes its calls one after the other, and each finds the tree that
those before it have left. Followed from call to call over an arbitrary tree, the walk goes
wrong in one of five places or comes to its end, and what decides this is all read off the
tree at the start.
-/

set_option autoImplicit false

namespace KernelExam

namespace Solo

def third (d : Option Descriptor) : DescriptorTable :=
  ⟨[some ⟨.stdin, true, false⟩, some ⟨.stdout, false, true⟩, d]⟩

def workshop (s : Solo) (cwd : String) (inside : Listing) (objects : Objects)
    (d : Option Descriptor) : Solo :=
  { s with cwd, descriptors := third d, files := ⟨.folder "blah" inside s.files.root, objects⟩ }

end Solo

namespace Suite.Directories

open Session Solo

variable {Q : Outcome → Solo → Prop} {s s' : Solo} {k : Nat}

section Expect

variable {α : Type} {R : α → Solo → Prop} {c : Call} {a : c.Answer} {right : c.Answer → Bool}
  {f : c.Answer → Program α}

theorem reaches_expect (ha : s.Answers c a s') (hright : right a = true)
    (h : Reaches Q R k s' (f a)) : Reaches Q R (k + 1) s ((expect c right).bind f) := by
  refine .call ha ?_
  show Reaches Q R k s' (((ensure (right a)).bind fun _ => .done a).bind f)
  rw [hright]
  exact h

theorem reaches_expect_wrong (ha : s.Answers c a s') (hwrong : right a = false)
    (hq : Q .fail s') : Reaches Q R (k + 1) s ((expect c right).bind f) := by
  refine .call ha ?_
  show Reaches Q R k s' (((ensure (right a)).bind fun _ => .done a).bind f)
  rw [hwrong]
  exact .report hq

theorem reaches_done (hq : Q .done s) : Reaches Q R k s done := .report (o := .done) hq

end Expect

def enter : Program Bytes := do
  let _ ← expect (.chdir "test") (· = 0)
  let fd ← expect (.openFile "asdf") (· = 2)
  let buffer ← echo fd
  let _ ← expect (.close fd) (· = 0)
  let _ ← expect (.chdir "..") (· = 0)
  pure buffer

def clear : Program Unit := do
  let _ ← expect (.rmdir "/test") (· = -1)
  let _ ← expect (.unlink "test/asdf") (· = 0)
  let _ ← expect (.rmdir "test") (· = 0)

def rebuild (buffer : Bytes) : Program Unit := do
  let _ ← expect (.mkdir "blah") (· = 0)
  let _ ← expect (.mkdir "blah") (· = -1)
  let _ ← expect (.chdir "blah") (· = 0)
  let fd ← expect (.create "qwer") (· = 2)
  let _ ← expect (.write fd greeting) (· = 12)
  let _ ← expect (.close fd) (· = 0)
  let fd ← Program.make (.openFile "qwer")
  let (_, bs) ← expect (.read fd 12) fun (n, _) => n = 12
  let _ ← expect (.write stdout (overlay bs (buffer.take 12))) (· = 12)
  let _ ← expect (.close fd) (· = 0)
  let _ ← expect (.unlink "qwer") (· = 0)
  let _ ← expect (.chdir "/") (· = 0)
  let _ ← expect (.rmdir "blah") (· = 0)
  done

theorem walk_eq : walk = enter.bind fun buffer => clear.bind fun _ => rebuild buffer := by
  show walk = enter >>= fun buffer => clear >>= fun _ => rebuild buffer
  simp only [walk, enter, clear, rebuild, bind_assoc, pure_bind]

theorem topmost_test : Path.Topmost "/test" "test" := ⟨by decide, by decide⟩

theorem topmost_blah : Path.Topmost "/blah" "blah" := ⟨by decide, by decide⟩

theorem count_iff {n : Nat} (h : n ≤ 100) :
    (0 < Int32.ofNat n ↔ n ≠ 0) ∧ ¬ 100 < Int32.ofNat n ∧ (Int32.ofNat n).toInt.toNat = n := by
  have hn : (Int32.ofNat n).toInt = n := Int32.toInt_ofNat_of_lt (by omega)
  have hzero : (0 : Int32).toInt = 0 := rfl
  have hhundred : (100 : Int32).toInt = 100 := rfl
  rw [Int32.lt_iff_toInt_lt, Int32.lt_iff_toInt_lt, hn, hzero, hhundred]
  omega

theorem take_overlay {bs : Bytes} {n : Nat} (h : bs.length ≤ n) :
    (overlay bs (zeros n)).take bs.length = bs := by
  have hzeros : (zeros n).length = n := List.length_replicate
  rw [overlay, hzeros, List.take_of_length_le h, List.take_left]

theorem reaches_echo {o : Nat} (hd : s.descriptors = third (some (.ofObject o)))
    (hfail : s.files.objects.contents o = [] → ∀ s', Q .fail s') :
    Reaches Q (fun buffer s' => s.files.objects.contents o ≠ [] ∧ buffer.length = 100 ∧
      ∃ d, s' = { s with descriptors := third (some d),
                         stdout := s.stdout ++ (s.files.objects.contents o).take 100 })
      2 s (echo 2) := by
  have hfile : s.descriptors.get? 2 = some ⟨.file o 0, true, true⟩ := by rw [hd]; rfl
  have hread := (acts_read 2 100 hfile (Nat.zero_le _)).answers
  have hslice : s.files.objects.slice o 0 100 = (s.files.objects.contents o).take 100 := rfl
  rw [hslice, hd] at hread
  generalize hbs : (s.files.objects.contents o).take 100 = bs at hread ⊢
  have hle : bs.length ≤ 100 := by
    rw [← hbs]
    exact List.length_take_le _ _
  obtain ⟨hpos, hsmall, hcount⟩ := count_iff hle
  rw [echo_eq]
  refine .call hread ?_
  dsimp only
  by_cases hempty : s.files.objects.contents o = []
  · obtain rfl : bs = [] := by rw [← hbs, hempty]; rfl
    exact .report (hfail hempty _)
  · have hne : bs.length ≠ 0 := by
      rw [← hbs, List.length_take]
      have := List.length_pos_of_ne_nil hempty
      omega
    rw [ensure, if_pos (decide_eq_true (hpos.mpr hne)), hcount, take_overlay hle]
    show Reaches Q _ 1 _ (if 100 < Int32.ofNat bs.length then .crash else _)
    rw [if_neg hsmall]
    refine reaches_expect (acts_write_stdout bs rfl).answers (decide_eq_true rfl) (.done ?_)
    exact ⟨hempty, length_overlay _ _, _, rfl⟩

theorem reaches_enter (hcwd : s.cwd = "/") (hd : s.descriptors = .stdio)
    (hfail : (∀ inside o, s.files.root.find? "test" = some (.folder inside) →
      inside.find? "asdf" = some (.file o) → s.files.objects.contents o = []) → ∀ s', Q .fail s') :
    Reaches Q (fun buffer s' => buffer.length = 100 ∧ ∃ inside o,
      s.files.root.find? "test" = some (.folder inside) ∧ inside.find? "asdf" = some (.file o) ∧
      s.files.objects.contents o ≠ [] ∧
      s' = { s with descriptors := third none,
                    stdout := s.stdout ++ (s.files.objects.contents o).take 100 }) 6 s enter := by
  have hpath : Path.resolve "test" s.cwd = some "/test" := by rw [hcwd]; decide
  by_cases hdir : s.files.isDir "/test" = true
  · obtain ⟨inside, htest⟩ := (FileSystem.isDir_topmost topmost_test).mp hdir
    refine reaches_expect (acts_chdir hpath hdir).answers rfl ?_
    have hfilePath : Path.resolve "asdf" "/test" = some "/test/asdf" := by decide
    have hparent : Path.parentFile "/test/asdf" = some ("/test", "asdf") := by decide
    by_cases hfile : ∃ o, inside.find? "asdf" = some (.file o)
    · obtain ⟨o, hasdf⟩ := hfile
      have hopen := FileSystem.openFile_below topmost_test htest hparent hasdf
      have hplace : s.descriptors.insert (.ofObject o) = some (third (some (.ofObject o)), 2) := by
        rw [hd]
        rfl
      refine reaches_expect
        (acts_openFile (s := { s with cwd := "/test" }) hfilePath hopen hplace).answers
        rfl ?_
      refine (reaches_echo (o := o) rfl fun hempty => hfail ?_).bind (l := 2) ?_
      · intro inside' o' htest' hasdf'
        obtain rfl := Entry.folder.inj (Option.some.inj (htest.symm.trans htest'))
        obtain rfl := Entry.file.inj (Option.some.inj (hasdf.symm.trans hasdf'))
        exact hempty
      · rintro buffer _ ⟨hne, hlength, d, rfl⟩
        have hup : Path.resolve ".." "/test" = some "/" := by decide
        refine reaches_expect (acts_close (d := d) rfl).answers rfl ?_
        refine reaches_expect (acts_chdir (s := { s with
          cwd := "/test"
          descriptors := third none
          stdout := s.stdout ++ (s.files.objects.contents o).take 100 }) hup rfl).answers rfl (.done ?_)
        refine ⟨hlength, inside, o, htest, hasdf, hne, ?_⟩
        rw [← hcwd]
    · obtain ⟨e, hopen⟩ := FileSystem.openFile_below_error topmost_test htest hparent
        fun o ho => hfile ⟨o, ho⟩
      refine reaches_expect_wrong
        (acts_openFile_refused (s := { s with cwd := "/test" }) hfilePath hopen).answers rfl
        (hfail ?_ _)
      intro inside' o htest' hasdf
      obtain rfl := Entry.folder.inj (Option.some.inj (htest.symm.trans htest'))
      exact absurd ⟨o, hasdf⟩ hfile
  · rw [Bool.not_eq_true] at hdir
    refine reaches_expect_wrong (acts_chdir_refused hpath hdir).answers rfl (hfail ?_ _)
    intro inside o htest
    rw [(FileSystem.isDir_topmost topmost_test).mpr ⟨inside, htest⟩] at hdir
    cases hdir

theorem reaches_clear {inside : Listing} {o : Nat} (hcwd : s.cwd = "/")
    (htest : s.files.root.find? "test" = some (.folder inside))
    (hasdf : inside.find? "asdf" = some (.file o))
    (hfail : inside.erase "asdf" ≠ .empty → ∀ s', Q .fail s') :
    Reaches Q (fun _ s' => inside.erase "asdf" = .empty ∧
      s' = { s with files := ⟨s.files.root.erase "test", s.files.objects⟩ }) 3 s clear := by
  have hdirPath : Path.resolve "/test" s.cwd = some "/test" := by rw [hcwd]; decide
  have hfilePath : Path.resolve "test/asdf" s.cwd = some "/test/asdf" := by rw [hcwd]; decide
  have hpath : Path.resolve "test" s.cwd = some "/test" := by rw [hcwd]; decide
  have hhere : s.cwd ≠ "/test" := by rw [hcwd]; decide
  have hfull := FileSystem.rmdir_full topmost_test htest (Listing.ne_empty_of_find? hasdf)
  have hparent : Path.parentFile "/test/asdf" = some ("/test", "asdf") := by decide
  have hunlink := FileSystem.unlink_below topmost_test htest hparent hasdf
  have hleft : (s.files.root.refill "test" (inside.erase "asdf")).find? "test" =
      some (.folder (inside.erase "asdf")) := Listing.find?_refill _ _ _ _ htest
  refine reaches_expect (answers_rmdir_refused hdirPath hfull) rfl ?_
  refine reaches_expect (acts_unlink hfilePath hunlink).answers rfl ?_
  by_cases hempty : inside.erase "asdf" = .empty
  · rw [hempty] at hleft ⊢
    have hrmdir : FileSystem.rmdir ⟨s.files.root.refill "test" .empty, s.files.objects⟩ "/test" =
        (⟨s.files.root.erase "test", s.files.objects⟩, .ok ()) := by
      rw [← Listing.erase_refill htest]
      exact FileSystem.rmdir_empty topmost_test hleft
    exact reaches_expect (answers_rmdir
      (s := { s with files := ⟨s.files.root.refill "test" .empty, s.files.objects⟩ })
      hpath hhere hrmdir) rfl (.done ⟨rfl, rfl⟩)
  · have hrmdir : FileSystem.rmdir
        ⟨s.files.root.refill "test" (inside.erase "asdf"), s.files.objects⟩ "/test" =
        (⟨s.files.root.refill "test" (inside.erase "asdf"), s.files.objects⟩,
          .error .directoryNotEmpty) := FileSystem.rmdir_full topmost_test hleft hempty
    exact reaches_expect_wrong (answers_rmdir_refused (s := { s with
      files := ⟨s.files.root.refill "test" (inside.erase "asdf"), s.files.objects⟩ })
      hpath hrmdir) rfl (hfail hempty _)

/-! The calls of the walk in its own directory `/blah`, and on the file `qwer` in it. -/

section Workshop

variable (s : Solo) (os : Objects)

def qwer (n : Nat) : Listing := .file "qwer" n .empty

theorem resolve_blah : Path.resolve "blah" "/" = some "/blah" := by decide

theorem resolve_qwer : Path.resolve "qwer" "/blah" = some "/blah/qwer" := by decide

theorem workshop_mkdir : (s.workshop "/" .empty os none).Answers (.mkdir "blah") (-1 : Word)
    (s.workshop "/" .empty os none) :=
  (acts_mkdir_refused (s := s.workshop "/" .empty os none) (e := .alreadyExists)
    resolve_blah rfl).answers

theorem workshop_chdir : (s.workshop "/" .empty os none).Answers (.chdir "blah") (0 : Word)
    (s.workshop "/blah" .empty os none) :=
  (acts_chdir (s := s.workshop "/" .empty os none) resolve_blah rfl).answers

theorem workshop_create : (s.workshop "/blah" .empty os none).Answers (.create "qwer") (2 : Word)
    (s.workshop "/blah" (qwer os.length) (os ++ [[]]) (some (.ofObject os.length))) :=
  (acts_create (s := s.workshop "/blah" .empty os none) (o := os.length)
    resolve_qwer rfl rfl).answers

theorem workshop_write :
    (s.workshop "/blah" (qwer os.length) (os ++ [[]]) (some (.ofObject os.length))).Answers
      (.write 2 greeting) (12 : Word)
      (s.workshop "/blah" (qwer os.length) (os ++ [greeting])
        (some ((Descriptor.ofObject os.length).seek 12))) := by
  have h := (acts_write_file
    (s := s.workshop "/blah" (qwer os.length) (os ++ [[]]) (some (.ofObject os.length)))
    2 (o := os.length) greeting rfl).answers
  rw [workshop] at h ⊢
  dsimp only at h
  rw [Objects.overwrite_fresh] at h
  exact h

theorem workshop_close (l : Listing) (d : Descriptor) :
    (s.workshop "/blah" l os (some d)).Answers (.close 2) (0 : Word) (s.workshop "/blah" l os none) :=
  (acts_close (d := d) rfl).answers

theorem workshop_openFile (n : Nat) : (s.workshop "/blah" (qwer n) os none).Answers
    (.openFile "qwer") (2 : Word) (s.workshop "/blah" (qwer n) os (some (.ofObject n))) :=
  (acts_openFile (s := s.workshop "/blah" (qwer n) os none) (o := n)
    resolve_qwer rfl rfl).answers

theorem workshop_read :
    (s.workshop "/blah" (qwer os.length) (os ++ [greeting]) (some (.ofObject os.length))).Answers
      (.read 2 12) (12, greeting)
      (s.workshop "/blah" (qwer os.length) (os ++ [greeting])
        (some ((Descriptor.ofObject os.length).seek 12))) := by
  have h := (acts_read
    (s := s.workshop "/blah" (qwer os.length) (os ++ [greeting]) (some (.ofObject os.length)))
    2 (o := os.length) 12 rfl (Nat.zero_le _)).answers
  have hslice : Objects.slice (os ++ [greeting]) os.length 0 12 = greeting := by
    have hnew : Objects.contents (os ++ [greeting]) os.length = greeting :=
      Objects.contents_allocate os greeting
    rw [Objects.slice, hnew]
    rfl
  rw [workshop] at h ⊢
  dsimp only at h
  rw [hslice] at h
  exact h

theorem workshop_print (l : Listing) (d : Option Descriptor) (bs : Bytes) :
    (s.workshop "/blah" l os d).Answers (.write stdout bs) (Int32.ofNat bs.length)
      (({ s with stdout := s.stdout ++ bs } : Solo).workshop "/blah" l os d) :=
  (acts_write_stdout (s := s.workshop "/blah" l os d) bs rfl).answers

theorem workshop_unlink (n : Nat) : (s.workshop "/blah" (qwer n) os none).Answers
    (.unlink "qwer") (0 : Word) (s.workshop "/blah" .empty os none) :=
  (acts_unlink (s := s.workshop "/blah" (qwer n) os none) resolve_qwer rfl).answers

theorem workshop_leave : (s.workshop "/blah" .empty os none).Answers (.chdir "/") (0 : Word)
    (s.workshop "/" .empty os none) :=
  (acts_chdir (s := s.workshop "/blah" .empty os none)
    (show Path.resolve "/" "/blah" = some "/" by decide) rfl).answers

theorem workshop_rmdir : (s.workshop "/" .empty os none).Answers (.rmdir "blah") (0 : Word)
    { s with cwd := "/", descriptors := third none, files := ⟨s.files.root, os⟩ } :=
  answers_rmdir (s := s.workshop "/" .empty os none) resolve_blah
    (show "/" ≠ "/blah" by decide) rfl

end Workshop

/-- The rest of the walk undoes itself; it goes wrong only when its directory is there already. -/
theorem reaches_rebuild {buffer : Bytes} (hcwd : s.cwd = "/") (hd : s.descriptors = third none)
    (hbuffer : buffer.length = 100) (hfail : s.files.root.find? "blah" ≠ none → ∀ s', Q .fail s')
    (hdone : s.files.root.find? "blah" = none →
      Q .done { s with files := ⟨s.files.root, s.files.objects ++ [greeting]⟩,
                       stdout := s.stdout ++ greeting }) :
    Reaches Q (fun _ _ => False) 13 s (rebuild buffer) := by
  have hpath : Path.resolve "blah" s.cwd = some "/blah" := by rw [hcwd]; decide
  by_cases hfree : s.files.root.find? "blah" = none
  · have hmkdir := FileSystem.mkdir_free topmost_blah hfree
    have hmade : s.Answers (.mkdir "blah") (0 : Word) (s.workshop "/" .empty s.files.objects none) := by
      rw [workshop, ← hcwd, ← hd]
      exact (acts_mkdir hpath hmkdir).answers
    have hecho : overlay greeting (buffer.take 12) = greeting := by
      have htwelve : (buffer.take 12).length = greeting.length := by
        rw [List.length_take, hbuffer]
        decide
      rw [overlay, htwelve, List.take_length, List.drop_eq_nil_of_le htwelve.le, List.append_nil]
    refine reaches_expect hmade rfl ?_
    refine reaches_expect (workshop_mkdir s _) rfl ?_
    refine reaches_expect (workshop_chdir s _) rfl ?_
    refine reaches_expect (workshop_create s _) rfl ?_
    refine reaches_expect (workshop_write s _) rfl ?_
    refine reaches_expect (workshop_close s _ _ _) rfl ?_
    refine .call (workshop_openFile s _ _) ?_
    refine reaches_expect (workshop_read s _) rfl ?_
    show Reaches Q _ 5 _ ((expect (.write stdout (overlay greeting (buffer.take 12))) _).bind _)
    rw [hecho]
    refine reaches_expect (workshop_print s _ _ _ _) rfl ?_
    refine reaches_expect (workshop_close _ _ _ _) rfl ?_
    refine reaches_expect (workshop_unlink _ _ _) rfl ?_
    refine reaches_expect (workshop_leave _ _) rfl ?_
    refine reaches_expect (workshop_rmdir _ _) rfl (reaches_done ?_)
    rw [← hcwd, ← hd]
    exact hdone hfree
  · obtain ⟨e, he⟩ := Option.ne_none_iff_exists'.mp hfree
    have hmkdir := FileSystem.mkdir_taken topmost_blah he
    exact reaches_expect_wrong (acts_mkdir_refused hpath hmkdir).answers rfl (hfail hfree _)

/-- What the walk asks of a file system: that `/test` has one entry, a file `asdf` with something
in it, and that there is no `/blah`. -/
structure Accepts (fs : FileSystem) : Prop where
  test : ∃ o, fs.root.find? "test" = some (.folder (.file "asdf" o .empty)) ∧
    fs.objects.contents o ≠ []
  blah : fs.root.find? "blah" = none

/-- What the walk reports on a file system, and what it has to show by then. -/
structure Walked (fs : FileSystem) (out : Bytes) (o : Outcome) (s' : Solo) : Prop where
  accepted : o = .done ↔ Accepts fs
  shown : o = .done → ∃ bs, fs.fileBytes "/test/asdf" = .ok bs ∧
    s'.stdout = out ++ bs.take 100 ++ greeting ∧
    s'.files = ⟨fs.root.erase "test", fs.objects ++ [greeting]⟩

theorem walked_fail {fs : FileSystem} {out : Bytes} (h : ¬ Accepts fs) : Walked fs out .fail s' :=
  ⟨iff_of_false nofun h, nofun⟩

theorem reaches_walk (hcwd : s.cwd = "/") (hd : s.descriptors = .stdio) :
    Reaches (Walked s.files s.stdout) (fun _ _ => False) 22 s walk := by
  rw [walk_eq]
  refine (reaches_enter hcwd hd ?_).bind (l := 16) ?_
  · intro hnone s'
    refine walked_fail fun h => ?_
    obtain ⟨o, htest, hne⟩ := h.test
    exact hne (hnone _ o htest rfl)
  rintro buffer _ ⟨hbuffer, inside, o, htest, hasdf, hne, rfl⟩
  refine (reaches_clear (s := { s with
    descriptors := third none
    stdout := s.stdout ++ (s.files.objects.contents o).take 100 }) hcwd htest hasdf ?_).bind
    (l := 13) ?_
  · intro hmore s'
    refine walked_fail fun h => hmore ?_
    obtain ⟨o', htest', -⟩ := h.test
    obtain rfl := Entry.folder.inj (Option.some.inj (htest.symm.trans htest'))
    rfl
  rintro _ _ ⟨hempty, rfl⟩
  obtain rfl : inside = .file "asdf" o .empty := Listing.eq_add_of_erase hasdf hempty
  have hblah : (s.files.root.erase "test").find? "blah" = s.files.root.find? "blah" :=
    Listing.find?_erase_of_ne _ _ _ (by decide)
  refine reaches_rebuild hcwd rfl hbuffer ?_ ?_
  · intro htaken s'
    exact walked_fail fun h => htaken (hblah.trans h.blah)
  · intro hfree
    have haccepts : Accepts s.files := ⟨⟨o, htest, hne⟩, hblah.symm.trans hfree⟩
    have hparent : Path.parentFile "/test/asdf" = some ("/test", "asdf") := by decide
    have hopen := FileSystem.openFile_below topmost_test htest hparent hasdf
    refine ⟨iff_of_true rfl haccepts, fun _ => ⟨s.files.objects.contents o, ?_, rfl, rfl⟩⟩
    rw [FileSystem.fileBytes, hopen]
    rfl

theorem reaches_main (args : List String) (hcwd : s.cwd = "/") (hd : s.descriptors = .stdio)
    (hlock : s.permits lockId = 1) (hcount : s.slots countSlot ≠ Int32.maxValue)
    (htest : s.slots Slot.testId.index = 0) :
    Reaches (Walked s.files s.stdout) (fun _ _ => False) 31 s (main args) := by
  refine (reaches_register hlock hcount).bind (l := 22) ?_
  rintro session _ ⟨hid, rfl⟩
  rw [run, if_pos (hid.trans htest)]
  exact (reaches_walk (s := s.counted) hcwd hd).bind (l := 0) fun _ _ h => h.elim

structure Judged (fs : FileSystem) (verdict : Verdict) (out : Bytes) (fs' : FileSystem) : Prop where
  done_iff : verdict = .done ↔ Accepts fs
  fail_iff : verdict = .fail ↔ ¬ Accepts fs
  echoed : verdict = .done → ∃ bs, fs.fileBytes "/test/asdf" = .ok bs ∧
    out = bs.take 100 ++ Text.utf8Bytes "hello world!"
  removed : verdict = .done → fs.Without "test" fs'

theorem Walked.judged {fs : FileSystem} {o : Outcome} {verdict : Verdict} {m : Machine}
    (h : Walked fs [] o s') (hm : fs.Mapped) (hverdict : verdict = o.verdict)
    (hc : s'.Concluded o m) : Judged fs verdict m.stdout m.files := by
  have hdone : verdict = .done ↔ o = .done := by
    rw [hverdict]
    cases o <;> simp [Outcome.verdict]
  have hfail : verdict = .fail ↔ ¬ o = .done := by
    rw [hverdict]
    cases o <;> simp [Outcome.verdict]
  refine ⟨hdone.trans h.accepted, hfail.trans (not_congr h.accepted), fun hv => ?_, fun hv => ?_⟩
  · obtain ⟨bs, hbs, hout, -⟩ := h.shown (hdone.mp hv)
    exact ⟨bs, hbs, hc.stdout.trans hout⟩
  · obtain ⟨bs, -, -, hfiles⟩ := h.shown (hdone.mp hv)
    rw [hc.files, hfiles]
    exact FileSystem.without_erase hm _ _

open Machine in
/-- The test of directories, alone on a machine with test 0 asked for and the lock open, is done
on the file systems that the walk accepts and fails on all others. When it is done it has echoed
both files, and the tree is what it was without `/test`. -/
theorem walk_judges {plan : Plan} (hp : plan.Drawn)
    (hi : plan.registry.lookup "dir_test" = some (Suite.image .directories))
    (hlock : plan.lockInit = .referee) (htest : plan.referee.load Slot.testId.index = 0)
    (hcount : plan.referee.load Slot.processCount.index ≠ Int32.maxValue) (args : List String) :
    ∃ start, plan.build.boot "dir_test" args = (start, .ok ()) ∧
      (∀ log m, start.Steps log m → m.referee.outcome = none →
        log.length < 32 ∧ ∃ q m', m.step q = some m') ∧
      (∀ x : Examination start,
        x.waited.referee.settled = true ∨ (∀ q, x.waited.step q = none) →
          Judged plan.files x.report.verdict x.report.stdout x.last.files) ∧
      ∃ m report, plan.build.run "dir_test" args = (m, .ok report) ∧
        Judged plan.files report.verdict report.stdout m.files := by
  have hslots (j : Word) (hj : ∀ k < Slot.shellProgramWords,
      j ≠ Slot.shellProgram.index + Int32.ofNat k) :
      (plan.build.named "dir_test").referee.load j = plan.referee.load j := by
    rw [named, Referee.load_setText _ _ _ hj, Plan.build, hlock]
    rfl
  have hpermits : (plan.build.named "dir_test").referee.permits lockId = 1 := by
    obtain ⟨slots, hset⟩ :=
      plan.build.referee.setText_eq .shellProgram "dir_test" Slot.shellProgramWords
    rw [named, hset, Plan.build, hlock]
    rfl
  have hname : Path.dropSlashes "dir_test" = "dir_test" := by decide
  have hboot : plan.build.boot "dir_test" args =
      ((first (plan.build.named "dir_test")).on (plan.build.named "dir_test")
        ⟨"dir_test", args, main args, []⟩, .ok ()) := by
    have h := boot_first hp.fresh rfl "dir_test" args (hname.symm ▸ hi) (by decide) (by decide)
    rwa [hname] at h
  have hopened : Examination.Opened ((first (plan.build.named "dir_test")).on
      (plan.build.named "dir_test") ⟨"dir_test", args, main args, []⟩) := by
    have h : Examination.Opened (plan.build.boot "dir_test" args).1 :=
      ⟨hp.fresh.census_boot _ _, endings_boot hp.fresh.processes _ _, hp.fresh.judged_boot _ _⟩
    rwa [hboot] at h
  have hreaches : Reaches (Walked plan.files []) (fun _ _ => False) 31
      (first (plan.build.named "dir_test")) (main args) := by
    refine reaches_main (s := first (plan.build.named "dir_test")) args rfl rfl hpermits ?_ ?_
    · exact fun h => hcount ((hslots _ (by decide)).symm.trans h)
    · exact (hslots _ (by decide)).trans htest
  refine ⟨_, hboot, ?_, ?_, ?_⟩
  · intro log m hsteps hnone
    exact hreaches.settles.goes_on hopened.judged hsteps hnone
  · intro x hrest
    obtain ⟨o, s', hwalked, hverdict, hlast⟩ := hreaches.examined hopened x hrest
    exact hwalked.judged hp.mapped hverdict hlast
  · obtain ⟨m, report, o, s', hrun, hwalked, hverdict, hout, hlast⟩ :=
      hreaches.run hopened hboot (by decide)
    rw [hrun]
    refine ⟨m, report, rfl, ?_⟩
    rw [hout]
    exact hwalked.judged hp.mapped hverdict hlast

def bare : Plan := Plan.empty.register "dir_test" (Suite.image .directories)

def larder : Plan :=
  { bare with files := ⟨.folder "test" (.file "asdf" 1 .empty) (.file "keep" 0 .empty),
                        [[1], [104, 105]]⟩ }

theorem larder_drawn : larder.Drawn := by
  have hplan : bare.provideAll [.file "/keep" [1], .file "/test/asdf" [104, 105]] = .ok larder := by
    rfl
  exact Plan.Drawn.provideAll (.register _ _ .empty) hplan

theorem walk_judges_larder :
    (∃ m report, larder.build.run "dir_test" [] = (m, .ok report) ∧ report.verdict = .done ∧
      report.stdout = [104, 105] ++ Text.utf8Bytes "hello world!" ∧
      m.files.isDir "/test" = false ∧ m.files.fileBytes "/keep" = .ok [1]) ∧
    ∃ m report, bare.build.run "dir_test" [] = (m, .ok report) ∧ report.verdict = .fail := by
  have hcount : (0 : Word) ≠ Int32.maxValue := by decide
  constructor
  · have haccepts : Accepts larder.files := ⟨⟨1, rfl, nofun⟩, rfl⟩
    obtain ⟨-, -, -, -, m, report, hrun, hjudged⟩ :=
      walk_judges larder_drawn rfl rfl rfl hcount []
    have hdone := hjudged.done_iff.mpr haccepts
    obtain ⟨bs, hbs, hout⟩ := hjudged.echoed hdone
    obtain rfl : [104, 105] = bs := Except.ok.inj hbs
    have hremoved := hjudged.removed hdone
    exact ⟨m, report, hrun, hdone, hout, (hremoved.gone "/test" (by decide) (by decide)).1,
      (hremoved.kept "/keep" (by decide) (by decide)).2.2⟩
  · have hrefuses : ¬ Accepts bare.files := by
      rintro ⟨⟨o, htest, -⟩, -⟩
      cases htest
    obtain ⟨-, -, -, -, m, report, hrun, hjudged⟩ :=
      walk_judges (.register _ _ .empty : bare.Drawn) rfl rfl rfl hcount []
    exact ⟨m, report, hrun, hjudged.fail_iff.mpr hrefuses⟩

end Suite.Directories

end KernelExam

import KernelExam.Proofs.Machine.Solo
import KernelExam.Proofs.Suite.FileSteps

/-!
# What the tests of files report

Each test is followed from its steps to its report. Three of the twelve start children: the steps
of a child come first while its parent waits for it, and where both can go on all orders come to
the same report.
-/

set_option autoImplicit false

namespace KernelExam.Suite.Files

open Session Solo

def judgement (random : Word) (bs : Bytes) : Outcome :=
  if bytesOfWord random <+: bs then .done else .fail

theorem judgement_short {random : Word} {bs : Bytes} (h : bs.length < 4) :
    judgement random bs = .fail := by
  refine if_neg fun hprefix => ?_
  have hle := hprefix.length_le
  rw [length_bytesOfWord] at hle
  omega

theorem judgement_long {random : Word} {bs : Bytes} (h : 4 ≤ bs.length) :
    judgement random bs = if firstWord bs = random then .done else .fail := by
  have hiff : bytesOfWord random <+: bs ↔ firstWord bs = random := by
    obtain ⟨a, b, c, d, rest, rfl⟩ : ∃ a b c d rest, bs = a :: b :: c :: d :: rest := by
      match bs, h with
      | a :: b :: c :: d :: rest, _ => exact ⟨a, b, c, d, rest, rfl⟩
    have hfirst : bytesOfWord (firstWord (a :: b :: c :: d :: rest)) = [a, b, c, d] :=
      bytesOfWord_wordOfBytes a b c d
    constructor
    · rintro ⟨tail, htail⟩
      have hfour : bytesOfWord random = [a, b, c, d] := by
        have htake := congrArg (List.take 4) htail
        rwa [List.take_left' (length_bytesOfWord random)] at htake
      rw [← firstWord_bytesOfWord random, hfour]
      rfl
    · rintro rfl
      rw [hfirst]
      exact ⟨rest, rfl⟩
  simp only [judgement, hiff]

section Tests

variable {registry : List (String × Image)} {n k : Nat} {p : Int} {s : Solo}
  {random test : Word} {o : Nat} {F : Unit → Program Unit}

theorem comesTo_checkValue {f : Unit → Program Unit} (value : Word)
    (hr : s.slots Slot.random.index = random)
    (hdone : ComesTo registry .done n 1 p s ((f ()).bind F) none) :
    ComesTo registry (if value = random then .done else .fail) n 2 p s
      ((checkValue value >>= f).bind F) none := by
  rw [← hr]
  by_cases hvalue : value = s.slots Slot.random.index
  · rw [if_pos hvalue, hvalue]
    exact .next (runs_checkValue (quiet_none _)) hdone
  · rw [if_neg hvalue]
    refine .call (acts_load _ 0) (quiet_none _) ?_
    show ComesTo registry .fail n 1 p s
      (((ensure (decide (value = s.slots Slot.random.index))).bind f).bind F) none
    rw [decide_eq_false hvalue]
    exact .report

theorem comesTo_readValue {fd : Word} {writable : Bool} {f : Word → Program Unit}
    (hfd : s.descriptors.get? fd = some ⟨.file o 0, true, writable⟩)
    (h : 4 ≤ (s.files.objects.contents o).length →
      ComesTo registry (if firstWord (s.files.objects.contents o) = random then .done else .fail) n
        (k + 1) p { s with descriptors := s.descriptors.set fd (some ⟨.file o 4, true, writable⟩) }
        ((f (firstWord (s.files.objects.contents o))).bind F) none) :
    ComesTo registry (judgement random (s.files.objects.contents o)) n (k + 2) p s
      ((readValue fd >>= f).bind F) none := by
  rcases Nat.lt_or_ge (s.files.objects.contents o).length 4 with hshort | hlong
  · rw [judgement_short hshort]
    have hread := acts_read fd 4 hfd (Nat.zero_le _)
    have hslice : s.files.objects.slice o 0 4 = s.files.objects.contents o :=
      List.take_of_length_le (Nat.le_of_lt hshort)
    have hcount : Int32.ofNat (s.files.objects.contents o).length ≠ 4 := by
      intro hfour
      have hvalue := Int32.toInt_ofNat_of_lt (n := (s.files.objects.contents o).length) (by omega)
      have htoInt : (4 : Int32).toInt = 4 := rfl
      rw [hfour, htoInt] at hvalue
      omega
    rw [hslice] at hread
    refine .mono (k := 2) (.call hread (quiet_none _) ?_) (Nat.le_add_left 2 k)
    show ComesTo registry .fail n 1 p _
      ((((ensure (decide (Int32.ofNat (s.files.objects.contents o).length = 4))).bind
        fun _ => .done _).bind f).bind F) none
    rw [decide_eq_false hcount]
    exact .report
  · rw [judgement_long hlong]
    exact .next (k := k + 1) (runs_readValue hfd hlong (quiet_none _)) (h hlong)

theorem comesTo_readBytes_short {writable : Bool} (l : Nat) {f : Bytes → Program Unit}
    (hd : s.descriptors.get? stdin = some ⟨.stdin, true, writable⟩) (hshort : s.stdin.length < l) :
    ComesTo registry .fail n (l + 1) p s ((readBytes l >>= f).bind F) none := by
  induction l generalizing s f with
  | zero => exact absurd hshort (Nat.not_lt_zero _)
  | succ l ih =>
    cases hs : s.stdin with
    | nil =>
      have hread := acts_read_console 1 hd
      rw [hs] at hread
      exact .mono (.call hread (quiet_none _) .report) (by omega)
    | cons b rest =>
      rw [hs] at hshort
      have hrest := ih (s := { s with stdin := rest }) (f := fun bs => f ([b] ++ bs)) hd
        (Nat.lt_of_succ_lt_succ hshort)
      refine .call (acts_read_byte hd hs) (quiet_none _) ?_
      show ComesTo registry .fail n (l + 1) p { s with stdin := rest }
        ((((readBytes l).bind fun bs => .done ([b] ++ bs)).bind f).bind F) none
      rw [Program.bind_assoc (readBytes l)]
      exact hrest

theorem comesTo_consoleTest (hd : s.descriptors.get? stdin = some ⟨.stdin, true, false⟩)
    (hr : s.slots Slot.random.index = random) :
    ComesTo registry (judgement random s.stdin) n 6 p s (consoleTest.bind F) none := by
  rcases Nat.lt_or_ge s.stdin.length 4 with hshort | hlong
  · rw [judgement_short hshort]
    exact .mono (comesTo_readBytes_short 4 hd hshort) (by decide)
  · rw [judgement_long hlong, ← firstWord_take]
    exact .next (runs_readBytes 4 hd hlong (quiet_none _)) (comesTo_checkValue _ hr .report)

variable (h : Furnished random test o s)
include h

theorem comesTo_opensUntilRefused {j l : Nat}
    (hd : s.descriptors = desk (List.replicate j (some (.ofObject o)))) (hj : j ≤ 14)
    (hl : 14 < j + l) :
    ComesTo registry .done n (l + 1) p s ((opensUntilRefused "input" l).bind F) none := by
  have hq : Path.resolve "input" s.cwd = some "/input" := h.cwd ▸ resolve_input
  induction l generalizing s j with
  | zero => omega
  | succ l ih =>
    rcases Nat.lt_or_eq_of_le hj with hlt | rfl
    · have hplace := insert_desk hlt (.ofObject o)
      rw [← hd] at hplace
      have hfd : Int32.ofNat (j + 2) ≠ -1 := ofNat_ne_neg_one (by omega)
      refine .call (acts_openFile hq h.openFile hplace) (quiet_none _) ?_
      show ComesTo registry .done n (l + 1) p _
        ((if Int32.ofNat (j + 2) = -1 then _ else opensUntilRefused "input" l).bind F) none
      rw [if_neg hfd]
      exact ih (h.with_descriptors _) rfl hlt (by omega) hq
    · have hfull := insert_desk_full (.ofObject o)
      rw [← hd] at hfull
      exact .mono (.call (acts_openFile_crowded hq h.openFile hfull) (quiet_none _) .report)
        (by omega)

variable (hd : s.descriptors = .stdio)
include hd

theorem comesTo_createTest : ComesTo registry .done n 4 p s ((createTest "aa").bind F) none := by
  refine .next (runs_ensureExists h.absent h.not_exists (quiet_none _)) ?_
  refine .next (runs_ensureCreated h.cwd h.free (insert_stdio hd _) (by decide) (quiet_none _)) ?_
  exact .next (runs_ensureExists_made h.absent (quiet_none _) _) .report

theorem comesTo_unlinkTest : ComesTo registry .done n 7 p s ((unlinkTest "aa").bind F) none := by
  refine .next (runs_ensureExists h.absent h.not_exists (quiet_none _)) ?_
  exact .next (runs_cycle h.cwd h.absent h.free (insert_stdio hd) (quiet_none _)) .report

theorem comesTo_closeTest : ComesTo registry .done n 86 p s ((closeTest "aa").bind F) none := by
  obtain ⟨s', hcycles⟩ := exists_runs_cycles 17 h.cwd h.absent h.free (insert_stdio hd)
    (quiet_none _)
  exact .next hcycles .report

theorem comesTo_exhaustTest :
    ComesTo registry .done n 21 p s ((exhaustTest "input").bind F) none := by
  have hq : Path.resolve "input" s.cwd = some "/input" := h.cwd ▸ resolve_input
  have hopens := runs_opens (j := 0) 10 hq h.openFile hd (by decide) (quiet_none s.permits)
  refine .next hopens ?_
  exact comesTo_opensUntilRefused (h.with_descriptors _) (j := 10) rfl (by decide) (by decide)

theorem comesTo_badWriteTest :
    ComesTo registry .done n 3 p s ((badWriteTest "aa").bind F) none := by
  refine .next (runs_ensureCreated h.cwd h.free (insert_stdio hd _) (by decide) (quiet_none _)) ?_
  exact .call (acts_writeRaw _ _) (quiet_none _) .report

theorem runs_open_input {I : (Word → Nat) → Prop} (hi : I s.permits) :
    Runs I 1 s (ensureOpened "input") { s with descriptors := desk [some (.ofObject o)] } 2 :=
  runs_ensureOpened (h.cwd ▸ resolve_input) h.openFile (insert_stdio hd _) (by decide) hi

theorem comesTo_badReadTest : ComesTo registry .done n 3 p s ((badReadTest "input").bind F) none :=
  .next (runs_open_input h hd (quiet_none _)) <|
    .call (acts_readRaw _ _) (quiet_none _) .report

theorem comesTo_readTest : ComesTo registry (judgement random (s.files.objects.contents o)) n 5 p s
    ((readTest "input").bind F) none := by
  refine .next (runs_open_input h hd (quiet_none _)) ?_
  refine comesTo_readValue (s := { s with descriptors := desk [some (.ofObject o)] }) rfl ?_
  intro _
  refine .next (runs_ensureClosed rfl (quiet_none _)) ?_
  exact comesTo_checkValue _ h.random .report

omit h hd in
theorem comesTo_writeBack (hcwd : s.cwd = "/") (hr : s.slots Slot.random.index = random)
    (value : Word) (source : Descriptor) :
    ComesTo registry (if value = random then .done else .fail) n 8 p
      (made s [] (desk [some source, some (.ofObject s.files.objects.length)]))
      ((do
        let n ← write 3 (bytesOfWord value)
        ensure (n = 4)
        ensureClosed 2
        ensureClosed 3
        let again ← ensureOpened "aa"
        let value ← readValue again
        ensureClosed again
        checkValue value
        done : Program Unit).bind F) none := by
  refine .next (.make (acts_write_made s (bytesOfWord value) (some source)) (quiet_none _)) ?_
  refine .next (runs_ensure rfl) ?_
  refine .next (runs_ensureClosed rfl (quiet_none _)) ?_
  refine .next (runs_ensureClosed rfl (quiet_none _)) ?_
  refine .next (runs_reopen hcwd (bytesOfWord value) (quiet_none _)) ?_
  refine .next (runs_readBack s value none (quiet_none _)) ?_
  refine .next (runs_ensureClosed rfl (quiet_none _)) ?_
  exact comesTo_checkValue (s := made s (bytesOfWord value) (desk [none, none])) value hr .report

theorem comesTo_writeTest :
    ComesTo registry (judgement random (s.files.objects.contents o)) n 11 p s
      ((writeTest "input" "aa").bind F) none := by
  have hplace : (desk [some (.ofObject o)]).insert (.ofObject s.files.objects.length) =
      some (desk [some (.ofObject o), some (.ofObject s.files.objects.length)], 3) := rfl
  have hcreate := runs_ensureCreated (s := { s with descriptors := desk [some (.ofObject o)] })
    h.cwd h.free hplace (by decide) (quiet_none _)
  have hcontents : (made s [] (desk [some (.ofObject o),
      some (.ofObject s.files.objects.length)])).files.objects.contents o =
      s.files.objects.contents o := Objects.contents_fresh _ o
  refine .next (runs_open_input h hd (quiet_none _)) ?_
  refine .next hcreate ?_
  rw [← hcontents]
  refine comesTo_readValue rfl fun _ => ?_
  rw [hcontents]
  exact comesTo_writeBack h.cwd h.random _ _

end Tests

def chosen (present absent : String) (s : Session) : Program Unit :=
  if s.testId = 0 then createTest absent
  else if s.testId = 1 then unlinkTest absent
  else if s.testId = 2 then closeTest absent
  else if s.testId = 3 then exhaustTest present
  else if s.testId = 4 then exitTest present s
  else if s.testId = 5 then readTest present
  else if s.testId = 6 then privateTest present s
  else if s.testId = 7 then writeTest present absent
  else if s.testId = 8 then badWriteTest absent
  else if s.testId = 9 then badReadTest present
  else if s.testId = 10 then consoleTest
  else if s.testId = 11 then outputTest present s
  else pure ()

section Main

variable {registry : List (String × Image)} {out : Outcome} {n k : Nat} {r q : Int} {s : Solo}
  {random test : Word} {o : Nat}

/-- Every process of the tests registers and reads the names first. -/
theorem comesTo_main {other : Option (Pid × Seat)} (h : Furnished random test o s)
    (hcount : s.slots countSlot ≠ Int32.maxValue)
    (hi : ∀ permits : Word → Nat, (∀ j, j ≠ lockId → permits j = s.permits j) → Quiet other permits)
    (args : List String)
    (hrest : ComesTo registry out n k r s.counted
      ((chosen "input" "aa" ⟨s.slots countSlot, test, "file_tests"⟩).bind fun _ => fail) other) :
    ComesTo registry out n (k + 13) r s (main args) other := by
  have hnow : Quiet other s.counted.permits := hi _ fun _ _ => rfl
  have hregister := runs_register hi h.lock hcount h.shell
  rw [h.testId] at hregister
  refine .runs (k := k + 4) hregister ?_
  refine .next (k := k + 2) (runs_stringArgument hnow (by decide) h.counted.present) ?_
  exact .next (runs_stringArgument hnow (by decide) h.counted.absent) hrest

section Child

/-! A child that was started while its parent waits. -/

variable {x : Program Unit} {cwd : String} {ds : DescriptorTable}
  (hcount : s.slots countSlot ≠ Int32.maxValue)
include hcount

theorem comesTo_child (h : Furnished random test o s)
    (hrest : ComesTo registry out n k r s.counted
      ((chosen "input" "aa" ⟨s.slots countSlot, test, "file_tests"⟩).bind fun _ => fail)
      (some (q, ⟨cwd, ds, awaits x⟩))) :
    ComesTo registry out n (k + 13) r s (main []) (some (q, ⟨cwd, ds, awaits x⟩)) := by
  refine comesTo_main h hcount (fun permits hsame => ?_) [] hrest
  exact quiet_awaits ((hsame waitId (by decide)).trans h.wait)

variable (hd : s.descriptors = .stdio) (hchild : s.slots countSlot ≠ 0)
include hd hchild

theorem comesTo_exitChild (h : Furnished random 4 o s)
    (hx : ComesTo registry out n k q (s.counted.seenBy ⟨cwd, ds, awaits x⟩) x none) :
    ComesTo registry out n (k + 21) r s (main []) (some (q, ⟨cwd, ds, awaits x⟩)) := by
  have hquiet : Quiet (some (q, ⟨cwd, ds, awaits x⟩)) s.counted.permits := quiet_awaits h.wait
  have hopens := runs_opens (s := s.counted) (j := 0) 5 (h.cwd ▸ resolve_input)
    h.counted.openFile hd (by decide) hquiet
  refine comesTo_child (k := k + 8) hcount h ?_
  show ComesTo registry out n (k + 8) r s.counted ((exitTest "input" _).bind _) _
  rw [exitTest, if_neg hchild]
  refine .next (k := k + 3) hopens ?_
  exact comesTo_release h.wait hx

theorem comesTo_privateChild (h : Furnished random 6 o s)
    (hslot : s.slots descriptorSlot.index = 2)
    (hx : ComesTo registry out n k q (s.counted.seenBy ⟨cwd, ds, awaits x⟩) x none) :
    ComesTo registry out n (k + 18) r s (main []) (some (q, ⟨cwd, ds, awaits x⟩)) := by
  have hquiet : Quiet (some (q, ⟨cwd, ds, awaits x⟩)) s.counted.permits := quiet_awaits h.wait
  have hload : s.counted.Acts (.ask Request.loadWord.code descriptorSlot.index 0) (2 : Word)
      s.counted := by
    have hacts := acts_load (s := s.counted) descriptorSlot.index 0
    rwa [slots_counted_of_ne (by decide), hslot] at hacts
  have hclose : s.counted.Acts (.close 2) (-1 : Word) s.counted :=
    acts_close_refused (hd.symm ▸ rfl : s.counted.descriptors.get? 2 = none)
  refine comesTo_child (k := k + 5) hcount h ?_
  show ComesTo registry out n (k + 5) r s.counted ((privateTest "input" _).bind _) _
  rw [privateTest, if_neg hchild]
  refine .call (k := k + 4) hload hquiet ?_
  refine .call (k := k + 3) hclose hquiet ?_
  exact comesTo_release h.wait hx

theorem comesTo_outputChild (h : Furnished random 11 o s) (hparent : Writer ds)
    (hwrites : x = writes (Text.utf8Bytes "input") (awaits (done : Program Unit))) :
    ComesTo registry .done n 21 r s (main []) (some (q, ⟨cwd, ds, awaits x⟩)) := by
  have hquiet : Quiet (some (q, ⟨cwd, ds, awaits x⟩)) s.counted.permits := quiet_awaits h.wait
  have hrelease := acts_releases (s := s.counted) (v := 0) (by decide)
  rw [permitting_self h.counted.wait] at hrelease
  have hwriter : Writer s.counted.descriptors := (hd.symm ▸ rfl : Writer s.descriptors)
  refine comesTo_child (k := 8) hcount h ?_
  show ComesTo registry .done n 8 r s.counted ((outputTest "input" _).bind _) _
  rw [outputTest, if_neg hchild]
  refine .call (k := 7) hrelease hquiet ?_
  rw [hwrites]
  exact comesTo_writers (k := 1) (s := s.counted) (fun _ => .report) hwriter hparent

end Child

def parental (test : Word) : Session := ⟨0, test, "file_tests"⟩

section Parent

variable (hreg : registry.lookup "file_tests" = some (Suite.image .files)) {F : Unit → Program Unit}
include hreg

theorem comesTo_restarts {f : Unit → Program Unit} (j : Nat) {c : Nat} (h : Furnished random 4 o s)
    (hc : (s.slots countSlot).toInt = c) (hpos : 0 < c) (hcount : c + j < 2147483647)
    (hn : n + j < 2147483647)
    (hf : ∀ n s, ComesTo registry .done n 1 r s ((f ()).bind F) none) :
    ComesTo registry .done n (22 * j + 1) r s ((restarts (parental 4) j >>= f).bind F) none := by
  -- A child opens files and leaves without closing them, but in a table of its own: the next one
  -- finds the state that this one found, with the count of processes one higher.
  induction j generalizing n s c with
  | zero => exact hf n s
  | succ j ih =>
    have hprogram : (restarts (parental 4) (j + 1) >>= f) = (do
        let pid ← (parental 4).restart
        ensure (pid ≠ -1)
        waitChild
        restarts (parental 4) j >>= f) := by
      simp only [restarts, bind_assoc]
    have hmax : s.slots countSlot ≠ Int32.maxValue := ne_maxValue (by omega)
    have hzero : s.slots countSlot ≠ 0 := by
      intro heq
      have hnone : (0 : Word).toInt = 0 := rfl
      rw [heq, hnone] at hc
      omega
    have hnext : (s.counted.slots countSlot).toInt = (c + 1 : Nat) := by
      rw [slots_counted, toInt_succ _ hmax, hc]
      rfl
    rw [hprogram]
    refine comesTo_restart (k := 22 * j + 22) hreg (by decide) (by omega) ?_
    refine comesTo_exitChild (k := 22 * j + 1) (s := s.child) hmax rfl hzero
      (h.with_descriptors _) ?_
    exact ih h.counted hnext (Nat.succ_pos c) (by omega) (by omega)

variable (hn : n < 2147483600) (hc : s.slots countSlot = 1)
include hn hc

theorem comesTo_exitTest (h : Furnished random 4 o s) :
    ComesTo registry .done n 111 r s ((exitTest "input" (parental 4)).bind F) none := by
  have hone : (s.slots countSlot).toInt = (1 : Nat) := by
    rw [hc]
    rfl
  rw [exitTest, if_pos (show (parental 4).processId = 0 from rfl)]
  exact comesTo_restarts hreg 5 h hone (by decide) (by decide) (by omega) fun _ _ => .report

theorem comesTo_privateParent (h : Furnished random 6 o s)
    (hd : s.descriptors = desk [some (.ofObject o)]) (hslot : s.slots descriptorSlot.index = 2)
    {f : Unit → Program Unit} (hf : ∀ n s, ComesTo registry .done n 1 r s ((f ()).bind F) none) :
    ComesTo registry (judgement random (s.files.objects.contents o)) n 24 r s ((do
      let child ← (parental 6).restart
      ensure (child ≠ -1)
      waitChild
      let value ← readValue 2
      ensureClosed 2
      checkValue value >>= f : Program Unit).bind F) none := by
  have hmax : (1 : Word) ≠ Int32.maxValue := by decide
  have hzero : (1 : Word) ≠ 0 := by decide
  have hopen : s.descriptors.get? 2 = some ⟨.file o 0, true, true⟩ := by
    rw [hd]
    rfl
  refine comesTo_restart (k := 23) hreg (by decide) (by omega) ?_
  refine comesTo_privateChild (k := 5) (s := s.child) (hc ▸ hmax) rfl (hc ▸ hzero)
    (h.with_descriptors _) hslot ?_
  refine .mono (k := 4) (comesTo_readValue (k := 2) (s := s.counted) hopen fun _ => ?_) (by decide)
  have hmoved : (s.descriptors.set 2 (some ⟨.file o 4, true, true⟩)).get? 2 =
      some ⟨.file o 4, true, true⟩ := by
    rw [hd]
    rfl
  refine .next (runs_ensureClosed hmoved (quiet_none _)) ?_
  exact comesTo_checkValue _ h.counted.random (hf _ _)

theorem comesTo_privateTest (h : Furnished random 6 o s) (hd : s.descriptors = .stdio) :
    ComesTo registry (judgement random (s.files.objects.contents o)) n 26 r s
      ((privateTest "input" (parental 6)).bind F) none := by
  have hstore : Runs (Quiet none) 1 { s with descriptors := desk [some (.ofObject o)] }
      (store descriptorSlot 2)
      (stored { s with descriptors := desk [some (.ofObject o)] } descriptorSlot.index 2) () :=
    .call (quiet_none _) (acts_store _ _) .done
  have hcount := (slots_stored_of_ne { s with descriptors := desk [some (.ofObject o)] } 2
    (show countSlot ≠ descriptorSlot.index by decide)).trans hc
  rw [privateTest, if_pos (show (parental 6).processId = 0 from rfl)]
  refine .next (runs_open_input h hd (quiet_none _)) ?_
  refine .next hstore ?_
  exact comesTo_privateParent hreg hn hcount ((h.with_descriptors _).stored 2) rfl
    (slots_stored _ _ _) fun _ _ => .report

theorem comesTo_outputTest (h : Furnished random 11 o s) (hd : s.descriptors = .stdio) :
    ComesTo registry .done n 22 r s ((outputTest "input" (parental 11)).bind F) none := by
  have hmax : (1 : Word) ≠ Int32.maxValue := by decide
  have hzero : (1 : Word) ≠ 0 := by decide
  have hwriter : Writer s.descriptors := by
    rw [hd]
    rfl
  rw [outputTest, if_pos (show (parental 11).processId = 0 from rfl)]
  refine comesTo_restart (k := 21) hreg (by decide) (by omega) ?_
  exact comesTo_outputChild (s := s.child) (hc ▸ hmax) rfl (hc ▸ hzero) (h.with_descriptors _)
    hwriter rfl

end Parent

end Main

/-- What has to hold of the file and of standard input for a test to be done: three read the file,
one reads the console, and eight ask nothing of either. -/
def Passes (random test : Word) (contents input : Bytes) : Prop :=
  test ∈ ([0, 1, 2, 3, 4, 8, 9, 11] : List Word) ∨
    test ∈ ([5, 6, 7] : List Word) ∧ bytesOfWord random <+: contents ∨
      test = 10 ∧ bytesOfWord random <+: input

instance (random test : Word) (contents input : Bytes) :
    Decidable (Passes random test contents input) :=
  inferInstanceAs (Decidable (_ ∨ _ ∧ _ ∨ _ ∧ _))

def reported (random test : Word) (contents input : Bytes) : Outcome :=
  if Passes random test contents input then .done else .fail

section Reported

variable {random test : Word} {contents input : Bytes}

theorem reported_free (ht : test ∈ ([0, 1, 2, 3, 4, 8, 9, 11] : List Word)) :
    reported random test contents input = .done := if_pos (Or.inl ht)

theorem reported_file (ht : test ∈ ([5, 6, 7] : List Word)) :
    reported random test contents input = judgement random contents := by
  have hapart : test ∉ ([0, 1, 2, 3, 4, 8, 9, 11] : List Word) ∧ test ≠ 10 := by
    simp only [List.mem_cons, List.not_mem_nil, or_false] at ht
    rcases ht with rfl | rfl | rfl <;> decide
  obtain ⟨hfree, hten⟩ := hapart
  simp only [reported, judgement, Passes, hfree, hten, ht, true_and, false_and, or_false, false_or]

theorem reported_console : reported random 10 contents input = judgement random input := by
  have hfree : (10 : Word) ∉ ([0, 1, 2, 3, 4, 8, 9, 11] : List Word) := by decide
  have hfile : (10 : Word) ∉ ([5, 6, 7] : List Word) := by decide
  simp only [reported, judgement, Passes, hfree, hfile, true_and, false_and, false_or]

theorem reported_unknown
    (ht : test ∉ ([0, 1, 2, 3, 4, 5, 6, 7, 8, 9, 10, 11] : List Word)) :
    reported random test contents input = .fail := by
  simp only [List.mem_cons, List.not_mem_nil, or_false, not_or] at ht
  refine if_neg ?_
  simp only [Passes, List.mem_cons, List.not_mem_nil, or_false, ht, false_and, not_false_eq_true]

end Reported

/-- Whatever test is asked for, the report on it is the right one. -/
theorem comesTo_chosen {registry : List (String × Image)} {s : Solo} {random test first : Word}
    {o : Nat} (h : Furnished random test o s) (hd : s.descriptors = .stdio)
    (hreg : registry.lookup "file_tests" = some (Suite.image .files))
    (hfirst : test ∈ ([4, 6, 11] : List Word) → first = 0) (hc : s.slots countSlot = first + 1) :
    ComesTo registry (reported random test (s.files.objects.contents o) s.stdin) 1 111 1 s
      ((chosen "input" "aa" ⟨first, test, "file_tests"⟩).bind fun _ => fail) none := by
  by_cases hknown : test ∈ ([0, 1, 2, 3, 4, 5, 6, 7, 8, 9, 10, 11] : List Word)
  · simp only [List.mem_cons, List.not_mem_nil, or_false] at hknown
    rcases hknown with rfl | rfl | rfl | rfl | rfl | rfl | rfl | rfl | rfl | rfl | rfl | rfl
    · rw [reported_free (by decide)]
      exact (comesTo_createTest h hd).mono (by decide)
    · rw [reported_free (by decide)]
      exact (comesTo_unlinkTest h hd).mono (by decide)
    · rw [reported_free (by decide)]
      exact (comesTo_closeTest h hd).mono (by decide)
    · rw [reported_free (by decide)]
      exact (comesTo_exhaustTest h hd).mono (by decide)
    · obtain rfl := hfirst (by decide)
      rw [reported_free (by decide)]
      exact comesTo_exitTest hreg (by decide) hc h
    · rw [reported_file (by decide)]
      exact (comesTo_readTest h hd).mono (by decide)
    · obtain rfl := hfirst (by decide)
      rw [reported_file (by decide)]
      exact (comesTo_privateTest hreg (by decide) hc h hd).mono (by decide)
    · rw [reported_file (by decide)]
      exact (comesTo_writeTest h hd).mono (by decide)
    · rw [reported_free (by decide)]
      exact (comesTo_badWriteTest h hd).mono (by decide)
    · rw [reported_free (by decide)]
      exact (comesTo_badReadTest h hd).mono (by decide)
    · rw [reported_console]
      exact (comesTo_consoleTest (hd.symm ▸ rfl) h.random).mono (by decide)
    · obtain rfl := hfirst (by decide)
      rw [reported_free (by decide)]
      exact (comesTo_outputTest hreg (by decide) hc h hd).mono (by decide)
  · have hnone : chosen "input" "aa" ⟨first, test, "file_tests"⟩ = pure () := by
      simp only [List.mem_cons, List.not_mem_nil, or_false, not_or] at hknown
      simp only [chosen, hknown, if_false]
    rw [reported_unknown hknown, hnone]
    exact .mono (k := 1) .report (by decide)

structure Judged (random test : Word) (contents input : Bytes) (verdict : Verdict) : Prop where
  done_iff : verdict = .done ↔ Passes random test contents input
  fail_iff : verdict = .fail ↔ ¬ Passes random test contents input

theorem judged_reported {random test : Word} {contents input : Bytes} {v : Showing}
    {report : Report} (hv : v.outcome = reported random test contents input)
    (hreport : v.Reported report) :
    Judged random test contents input report.verdict := by
  have hverdict : report.verdict = (reported random test contents input).verdict := by
    rw [← hv]
    exact hreport.1
  rw [hverdict, reported]
  by_cases hpasses : Passes random test contents input
  · rw [if_pos hpasses]
    exact ⟨iff_of_true rfl hpasses, iff_of_false nofun fun h => h hpasses⟩
  · rw [if_neg hpasses]
    exact ⟨iff_of_false nofun hpasses, iff_of_true rfl hpasses⟩

theorem crowd_on (s : Solo) (m : Machine) (t : Task) :
    Crowd m.registry 1 1 s t.body none ∅ (s.on m t) where
  registry := rfl
  tasks := rfl
  processes := rfl
  around := ⟨rfl, rfl, rfl, rfl, rfl, rfl, rfl, rfl⟩
  runner := rfl
  partner := nofun
  leavers := nofun
  nobody := by
    intro q hq
    obtain ⟨w, hw⟩ := Option.ne_none_iff_exists'.mp hq
    exact Or.inl (eq_one_of_alive_on (Machine.alive_of_seat? hw))

section Boot

open Machine

variable {plan : Plan} (hlock : plan.lockInit = .referee)
include hlock

theorem referee_build : plan.build.referee = plan.referee.setPermits lockId 1 := by
  rw [Plan.build, hlock]
  rfl

theorem slots_first {j : Word}
    (hj : ∀ k < Slot.shellProgramWords, j ≠ Slot.shellProgram.index + Int32.ofNat k) :
    (first (plan.build.named "file_tests")).slots j = plan.referee.load j := by
  have hload := load_named plan.build "file_tests" hj
  rw [referee_build hlock] at hload
  exact hload

theorem text_first {slot : Slot} {n : Nat}
    (hn : ∀ k < n, ∀ l < Slot.shellProgramWords,
      slot.index + Int32.ofNat k ≠ Slot.shellProgram.index + Int32.ofNat l) :
    (first (plan.build.named "file_tests")).text slot n = plan.referee.text slot.index n :=
  Referee.text_congr slot.index n fun k hk => slots_first hlock (hn k hk)

theorem settles_first {random test : Word} {o : Nat}
    (h : Furnished random test o (first (plan.build.named "file_tests")))
    (hi : plan.registry.lookup "file_tests" = some (Suite.image .files))
    (hcount : plan.referee.load Slot.processCount.index ≠ Int32.maxValue)
    (hfirst : test ∈ ([4, 6, 11] : List Word) → plan.referee.load Slot.processCount.index = 0)
    (args : List String) :
    ((first (plan.build.named "file_tests")).on (plan.build.named "file_tests")
      ⟨"file_tests", args, main args, []⟩).Settles (fun v => v.outcome =
        reported random test (plan.files.objects.contents o) plan.stdin) 124 := by
  have hslot : (first (plan.build.named "file_tests")).slots countSlot =
      plan.referee.load Slot.processCount.index := slots_first hlock (by decide)
  have hchosen := comesTo_chosen h.counted rfl hi hfirst
    (slots_counted.trans (congrArg (· + 1) hslot))
  rw [← hslot] at hcount hchosen
  have hmain := comesTo_main h hcount (fun _ _ => quiet_none _) args hchosen
  exact hmain _ ∅ (crowd_on _ (plan.build.named "file_tests") ⟨"file_tests", args, main args, []⟩)

variable (hp : plan.Drawn)
include hp

theorem permits_first (id : Word) :
    (first (plan.build.named "file_tests")).permits id = if id = lockId then 1 else 0 := by
  obtain ⟨slots, hreferee⟩ := hp.exists_slots
  have hpermits := congrFun (permits_named plan.build "file_tests") id
  rw [referee_build hlock, hreferee] at hpermits
  exact hpermits

theorem furnished_first (hpresent : plan.referee.text presentFile.index nameWords = .ok "input")
    (habsent : plan.referee.text absentFile.index nameWords = .ok "aa")
    {contents : Bytes} (hfile : plan.files.fileBytes "/input" = .ok contents)
    (hfree : plan.files.fileExists "/aa" = false) :
    ∃ o, Furnished (plan.referee.load Slot.random.index) (plan.referee.load Slot.testId.index) o
        (first (plan.build.named "file_tests")) ∧ plan.files.objects.contents o = contents := by
  have hshell : (first (plan.build.named "file_tests")).text .shellProgram Slot.shellProgramWords =
      .ok "file_tests" := by
    have hstored : (plan.build.referee.setText .shellProgram "file_tests"
        Slot.shellProgramWords).1.text Slot.shellProgram.index Slot.shellProgramWords = _ :=
      plan.build.referee.text_setText .shellProgram "file_tests" (by decide) (by decide)
        (Nat.le_refl _) (by decide)
    rw [Text.beforeNul_of_not_mem (by decide)] at hstored
    rw [← hstored]
    exact Referee.text_congr _ _ fun _ _ => rfl
  obtain ⟨o, hopen, hcontents⟩ : ∃ o, plan.files.openFile "/input" = .ok o ∧
      plan.files.objects.contents o = contents := by
    rw [FileSystem.fileBytes] at hfile
    cases hopen : plan.files.openFile "/input" with
    | error e =>
      rw [hopen] at hfile
      cases hfile
    | ok o =>
      rw [hopen] at hfile
      exact ⟨o, rfl, Except.ok.inj hfile⟩
  have hnone : plan.files.root.find? "aa" = none := by
    rw [FileSystem.fileExists_topmost topmost_aa, Option.isSome_eq_false_iff,
      Option.isNone_iff_eq_none] at hfree
    exact hfree
  refine ⟨o, ?_, hcontents⟩
  exact {
    cwd := rfl
    lock := permits_first hlock hp lockId
    wait := permits_first hlock hp waitId
    present := (text_first hlock (by decide)).trans hpresent
    absent := (text_first hlock (by decide)).trans habsent
    shell := hshell
    random := slots_first hlock (by decide)
    testId := slots_first hlock (by decide)
    input := (FileSystem.openFile_topmost topmost_input).mp hopen
    free := hnone }

end Boot

open Machine in
/-- The tests of files, on a machine with the names of a file that is there and of one that is
not, and with the lock open, come to the right report in any order of their processes' steps.
Three of them go by the number of the process, and expect that nobody registered before. -/
theorem contents_judged {plan : Plan} (hp : plan.Drawn)
    (hi : plan.registry.lookup "file_tests" = some (Suite.image .files))
    (hlock : plan.lockInit = .referee)
    (hpresent : plan.referee.text presentFile.index nameWords = .ok "input")
    (habsent : plan.referee.text absentFile.index nameWords = .ok "aa")
    {contents : Bytes} (hfile : plan.files.fileBytes "/input" = .ok contents)
    (hfree : plan.files.fileExists "/aa" = false)
    (hcount : plan.referee.load Slot.processCount.index ≠ Int32.maxValue)
    (hfirst : plan.referee.load Slot.testId.index ∈ ([4, 6, 11] : List Word) →
      plan.referee.load Slot.processCount.index = 0) (args : List String) :
    ∃ start, plan.build.boot "file_tests" args = (start, .ok ()) ∧
      (∀ log m, start.Steps log m → m.referee.outcome = none →
        log.length < 124 ∧ ∃ q m', m.step q = some m') ∧
      (∀ x : Examination start,
        x.waited.referee.settled = true ∨ (∀ q, x.waited.step q = none) →
          Judged (plan.referee.load Slot.random.index) (plan.referee.load Slot.testId.index)
            contents plan.stdin x.report.verdict) ∧
      ∃ m report, plan.build.run "file_tests" args = (m, .ok report) ∧
        Judged (plan.referee.load Slot.random.index) (plan.referee.load Slot.testId.index)
          contents plan.stdin report.verdict := by
  obtain ⟨hboot, hopened⟩ := opened_first hp hi (by decide) (by decide) (by decide) args
  obtain ⟨o, hfurnished, rfl⟩ := furnished_first hlock hp hpresent habsent hfile hfree
  have hsettles := settles_first hlock hfurnished hi hcount hfirst args
  refine ⟨_, hboot, ?_, ?_, ?_⟩
  · intro log m hsteps hnone
    exact hsettles.goes_on hopened.judged hsteps hnone
  · intro x hrest
    obtain ⟨v, hv, hreport⟩ := x.shown hsettles hopened hrest
    exact judged_reported hv hreport
  · obtain ⟨x, hsettled, hrun⟩ := hsettles.run_examined hboot hopened (by decide)
    obtain ⟨v, hv, hreport⟩ := x.shown hsettles hopened (Or.inl hsettled)
    exact ⟨x.last, x.report, hrun, judged_reported hv hreport⟩

def supplied (random test : Word) (contents : Bytes) : Plan :=
  { Plan.empty.register "file_tests" (Suite.image .files) with
    files := ⟨.file "input" 0 .empty, [contents]⟩
    referee := (((Referee.fresh.setText presentFile "input" nameWords).1.setText absentFile "aa"
      nameWords).1.store Slot.random.index random).store Slot.testId.index test }

theorem supplied_drawn (random test : Word) (contents : Bytes) :
    (supplied random test contents).Drawn := by
  have hplan : (Plan.empty.register "file_tests" (Suite.image .files)).provideAll
      [.text presentFile "input" nameWords, .text absentFile "aa" nameWords,
        .slot .random random, .slot .testId test, .file "/input" contents] =
      .ok (supplied random test contents) := by
    rfl
  exact Plan.Drawn.provideAll (.register _ _ .empty) hplan

theorem contents_judged_supplied :
    (∃ m report, (supplied 0x12345678 6 [0x78, 0x56, 0x34, 0x12, 0]).build.run "file_tests" [] =
      (m, .ok report) ∧ report.verdict = .done) ∧
    (∃ m report, (supplied 0x12345678 5 [0x12, 0x34, 0x56, 0x78]).build.run "file_tests" [] =
      (m, .ok report) ∧ report.verdict = .fail) := by
  have hcount : (0 : Word) ≠ Int32.maxValue := by decide
  constructor
  · obtain ⟨-, -, -, -, m, report, hrun, hjudged⟩ :=
      contents_judged (supplied_drawn 0x12345678 6 [0x78, 0x56, 0x34, 0x12, 0]) rfl rfl (by decide)
        (by decide) rfl rfl hcount (fun _ => rfl) []
    exact ⟨m, report, hrun, hjudged.done_iff.mpr (by decide)⟩
  · obtain ⟨-, -, -, -, m, report, hrun, hjudged⟩ :=
      contents_judged (supplied_drawn 0x12345678 5 [0x12, 0x34, 0x56, 0x78]) rfl rfl (by decide)
        (by decide) rfl rfl hcount (fun _ => rfl) []
    exact ⟨m, report, hrun, hjudged.fail_iff.mpr (by decide)⟩

end KernelExam.Suite.Files

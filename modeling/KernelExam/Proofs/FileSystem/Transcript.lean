import KernelExam.Proofs.FileSystem.Refinement

/-!
# Sequences of file operations

Operations as data, so that one sequence can be carried out on a file system and
on a path map. One step keeps the two together and gives one answer; the induction
over the sequence carries the relation, not equality, since a tree can list its
entries in more than one order.
-/

set_option autoImplicit false

namespace KernelExam

inductive FileOperation where
  | create (path : String)
  | openFile (path : String)
  | unlink (path : String)
  | mkdir (path : String)
  | rmdir (path : String)
  | makeFolders (path : String)
  | writeFile (path : String) (bytes : Bytes)
  | fileBytes (path : String)
  | isDir (path : String)
  | fileExists (path : String)
  deriving DecidableEq, Repr

def FileOperation.path : FileOperation → String
  | .create path | .openFile path | .unlink path | .mkdir path | .rmdir path => path
  | .makeFolders path | .writeFile path _ | .fileBytes path | .isDir path | .fileExists path => path

inductive FileAnswer where
  | object (result : Except FileError Nat)
  | made (result : Except FileError Unit)
  | bytes (result : Except FileError Bytes)
  | truth (b : Bool)
  deriving DecidableEq

def FileSystem.perform (fs : FileSystem) : FileOperation → FileSystem × FileAnswer
  | .create path => ((fs.create path).1, .object (fs.create path).2)
  | .openFile path => (fs, .object (fs.openFile path))
  | .unlink path => ((fs.unlink path).1, .made (fs.unlink path).2)
  | .mkdir path => ((fs.mkdir path).1, .made (fs.mkdir path).2)
  | .rmdir path => ((fs.rmdir path).1, .made (fs.rmdir path).2)
  | .makeFolders path => ((fs.makeFolders path).1, .made (fs.makeFolders path).2)
  | .writeFile path bs => ((fs.writeFile path bs).1, .made (fs.writeFile path bs).2)
  | .fileBytes path => (fs, .bytes (fs.fileBytes path))
  | .isDir path => (fs, .truth (fs.isDir path))
  | .fileExists path => (fs, .truth (fs.fileExists path))

/-- The same operation at the place that the path names. -/
def PathMap.perform (s : PathMap) (op : FileOperation) : PathMap × FileAnswer :=
  let names := Path.components op.path
  match op with
  | .create _ => ((s.create names).1, .object (s.create names).2)
  | .openFile _ => (s, .object (s.openFile names))
  | .unlink _ => ((s.unlink names).1, .made (s.unlink names).2)
  | .mkdir _ => ((s.mkdir names).1, .made (s.mkdir names).2)
  | .rmdir _ => ((s.rmdir names).1, .made (s.rmdir names).2)
  | .makeFolders _ => ((s.makeFolders names).1, .made (s.makeFolders names).2)
  | .writeFile _ bs => ((s.writeFile names bs).1, .made (s.writeFile names bs).2)
  | .fileBytes _ => (s, .bytes (s.fileBytes names))
  | .isDir _ => (s, .truth (s.isDir names))
  | .fileExists _ => (s, .truth (s.fileExists names))

def performAll {σ : Type} (perform : σ → FileOperation → σ × FileAnswer) :
    σ → List FileOperation → σ × List FileAnswer
  | s, [] => (s, [])
  | s, op :: ops =>
    let first := perform s op
    let rest := performAll perform first.1 ops
    (rest.1, first.2 :: rest.2)

theorem FileSystem.Shows.perform {fs : FileSystem} {s : PathMap} (h : fs.Shows s)
    {op : FileOperation} (hp : Path.Canonical op.path) : Agree (fs.perform op) (s.perform op) := by
  cases op with
  | create path => exact (h.create hp).map FileAnswer.object
  | openFile path => exact ⟨congrArg FileAnswer.object (h.openFile hp), h⟩
  | unlink path => exact (h.unlink hp).map FileAnswer.made
  | mkdir path => exact (h.mkdir hp).map FileAnswer.made
  | rmdir path => exact (h.rmdir hp).map FileAnswer.made
  | makeFolders path =>
    have hm := h.makeFolders hp.proper
    rw [hp.render_components] at hm
    exact hm.map FileAnswer.made
  | writeFile path bs => exact (h.writeFile hp bs).map FileAnswer.made
  | fileBytes path => exact ⟨congrArg FileAnswer.bytes (h.fileBytes hp), h⟩
  | isDir path => exact ⟨congrArg FileAnswer.truth (h.isDir path), h⟩
  | fileExists path => exact ⟨congrArg FileAnswer.truth (h.fileExists hp), h⟩

theorem FileSystem.Shows.performAll {fs : FileSystem} {s : PathMap} (h : fs.Shows s)
    (ops : List FileOperation) (hp : ∀ op ∈ ops, Path.Canonical op.path) :
    Agree (performAll FileSystem.perform fs ops) (performAll PathMap.perform s ops) := by
  induction ops generalizing fs s with
  | nil => exact ⟨rfl, h⟩
  | cons op ops ih =>
    have first := h.perform (hp op (by simp))
    have rest := ih first.shows (fun o ho => hp o (by simp [ho]))
    refine ⟨?_, rest.shows⟩
    show _ :: _ = _ :: _
    rw [first.answer, rest.answer]

theorem FileSystem.Shows.fileBytes_writeFile {fs : FileSystem} {s : PathMap} (h : fs.Shows s)
    {path : String} (hp : Path.Canonical path) (bs : Bytes)
    (hw : (fs.writeFile path bs).2 = .ok ()) :
    (fs.writeFile path bs).1.fileBytes path = .ok bs := by
  have hagree := h.writeFile hp bs
  have hs : s.writeFile (Path.components path) bs =
      ((s.writeFile (Path.components path) bs).1, .ok ()) := by
    rw [← hw, hagree.answer]
  rw [hagree.shows.fileBytes hp]
  exact PathMap.fileBytes_writeFile hs

/-- No sequence of operations tells a file system from a path map, and the two
belong together afterwards. -/
theorem FileSystem.transcript_eq_flat (ops : List FileOperation)
    (hp : ∀ op ∈ ops, Path.Canonical op.path) :
    let tree := KernelExam.performAll FileSystem.perform .empty ops
    let flat := KernelExam.performAll PathMap.perform .empty ops
    tree.2 = flat.2 ∧ tree.1.Shows flat.1 ∧
      ∀ path bs, Path.Canonical path → (tree.1.writeFile path bs).2 = .ok () →
        (tree.1.writeFile path bs).1.fileBytes path = .ok bs := by
  have h := FileSystem.Shows.empty.performAll ops hp
  refine ⟨h.answer, h.shows, ?_⟩
  intro path bs hc hw
  exact h.shows.fileBytes_writeFile hc bs hw

def roundTrip : List FileOperation :=
  [.mkdir "/a", .create "/a/f", .rmdir "/a", .mkdir "/a/f/g", .writeFile "/b/c/f" [1, 2],
    .fileBytes "/b/c/f", .unlink "/a/f", .rmdir "/a", .fileExists "/a", .rmdir "/"]

theorem FileSystem.transcript_roundTrip :
    (∀ op ∈ roundTrip, Path.Canonical op.path) ∧
      (KernelExam.performAll PathMap.perform .empty roundTrip).2 =
        [.made (.ok ()), .object (.ok 0), .made (.error .directoryNotEmpty),
          .made (.error .notADirectory), .made (.ok ()), .bytes (.ok [1, 2]), .made (.ok ()),
          .made (.ok ()), .truth false, .made (.error .invalidPath)] := by
  have hp : ∀ op ∈ roundTrip, Path.Canonical op.path := by decide
  refine ⟨hp, ?_⟩
  rw [← (transcript_eq_flat roundTrip hp).1]
  decide

end KernelExam

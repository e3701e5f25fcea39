import KernelExam.Program

/-!
# Rehearsals

One program runs alone on a kernel that does nothing but answer from a list of
cues and write down every call. Slots and semaphores work as they should; all
other answers are cues, whatever they claim.
-/

set_option autoImplicit false

namespace KernelExam

/-- The calls that are answered from cues. -/
inductive CueKind where
  | exec
  | join
  | create
  | openFile
  | read
  | write
  | readRaw
  | writeRaw
  | close
  | unlink
  | chdir
  | mkdir
  | rmdir
  | fileExists
  deriving DecidableEq, Repr

structure Cue where
  code : Word
  status : Word
  bytes : Bytes
  deriving DecidableEq, Repr

/-- A kernel that answers from cues. The slots are kept in the order of their
numbers. -/
structure Stage where
  slots : List (Word × Word)
  permits : Word → Nat
  cues : CueKind → List Cue
  defaults : CueKind → Option Cue

inductive Record where
  | answered (c : Call) (a : c.Answer)
  | blocked (request a0 a1 : Word)
  | exit (status : Word)

inductive Ending where
  | returned
  | exited (status : Word)
  | blocked (semaphore : Word)
  | crashed
  deriving DecidableEq, Repr

namespace Stage

def bare : Stage := ⟨[], fun _ => 0, fun _ => [], fun _ => none⟩

def load (st : Stage) (i : Word) : Word := (st.slots.lookup i).getD 0

def putSlot (i value : Word) : List (Word × Word) → List (Word × Word)
  | [] => [(i, value)]
  | (j, w) :: rest =>
    if i = j then (i, value) :: rest
    else if i < j then (i, value) :: (j, w) :: rest
    else (j, w) :: putSlot i value rest

def store (st : Stage) (i value : Word) : Stage := { st with slots := putSlot i value st.slots }

def storeRun (st : Stage) (i : Word) : List Word → Stage
  | [] => st
  | w :: ws => (st.store i w).storeRun (i + 1) ws

def setPermits (st : Stage) (id : Word) (n : Nat) : Stage :=
  { st with permits := fun j => if j = id then n else st.permits j }

def cue (st : Stage) (k : CueKind) : Option Cue × Stage :=
  match st.cues k with
  | c :: rest => (some c, { st with cues := fun j => if j = k then rest else st.cues j })
  | [] => (st.defaults k, st)

def codeOr (st : Stage) (k : CueKind) (otherwise : Word) : Word × Stage :=
  let (c, st) := st.cue k
  ((c.map Cue.code).getD otherwise, st)

def askReferee (st : Stage) (request a0 a1 : Word) : Option (Word × Stage) :=
  match Request.ofCode? request with
  | some .loadWord => some (st.load a0, st)
  | some .storeWord => some (0, st.store a0 a1)
  | some .p =>
    if 0 < st.permits a0 then some (0, st.setPermits a0 (st.permits a0 - 1)) else none
  | some .v => some (0, st.setPermits a0 (st.permits a0 + 1))
  | some .fileExists => some (st.codeOr .fileExists 0)
  | some .checkpoint => some (0, st)
  | some .done => some (0, st)
  | some .fail => some (0, st)
  | none => some (-1, st)

def answer (st : Stage) : (c : Call) → Option (c.Answer × Stage)
  | .exec _ _ => some (st.codeOr .exec 42)
  | .join _ status =>
    let (c, st) := st.cue .join
    some (((c.map fun c => (c.code, c.status)).getD (-1, status)), st)
  | .create _ => some (st.codeOr .create (-1))
  | .openFile _ => some (st.codeOr .openFile (-1))
  | .read _ _ =>
    let (c, st) := st.cue .read
    some (((c.map fun c => (c.code, c.bytes)).getD (-1, [])), st)
  | .write fd bs => some (st.codeOr .write (if fd = stdout then Int32.ofNat bs.length else -1))
  | .readRaw _ _ _ => some (st.codeOr .readRaw (-1))
  | .writeRaw _ _ _ => some (st.codeOr .writeRaw (-1))
  | .close _ => some (st.codeOr .close (-1))
  | .unlink _ => some (st.codeOr .unlink (-1))
  | .chdir _ => some (st.codeOr .chdir (-1))
  | .mkdir _ => some (st.codeOr .mkdir (-1))
  | .rmdir _ => some (st.codeOr .rmdir (-1))
  | .ask request a0 a1 => st.askReferee request a0 a1

end Stage

/-- Everything that came of a rehearsal. -/
structure Performance where
  records : List Record
  notes : List Note
  ending : Ending
  stage : Stage

namespace Performance

def after (r : Record) (p : Performance) : Performance := { p with records := r :: p.records }

def noting (n : Note) (p : Performance) : Performance := { p with notes := n :: p.notes }

end Performance

def Stage.stuck (st : Stage) : Call → Performance
  | .ask request a0 a1 => ⟨[.blocked request a0 a1], [], .blocked a0, st⟩
  | _ => ⟨[], [], .crashed, st⟩

def rehearse : Program Unit → Stage → Performance
  | .done _, st => ⟨[], [], .returned, st⟩
  | .exit status, st => ⟨[.exit status], [], .exited status, st⟩
  | .crash, st => ⟨[], [], .crashed, st⟩
  | .note n next, st => (rehearse next st).noting n
  | .call c next, st => match st.answer c with
    | some (a, st) => (rehearse (next a) st).after (.answered c a)
    | none => st.stuck c

end KernelExam

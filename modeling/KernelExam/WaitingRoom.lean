import KernelExam.Referee

/-!
# Waiting for permits

A referee together with the P operations that have not ended yet. A P that finds
no permit falls asleep. A V, the first report, the end of a process and the halt
wake all sleepers, whatever they wait for; setting permits wakes nobody, so a
sleeper can miss permits that are there. Who is awake looks at its semaphore once,
in any order with the others and with all other operations.
-/

set_option autoImplicit false

namespace KernelExam

/-- How a P ended. -/
inductive Passage where
  | halted
  | passed
  deriving DecidableEq, Repr

structure WaitingRoom where
  referee : Referee
  /-- Those who came in or were woken, and have still to look. -/
  awake : List Word
  asleep : List Word
  returned : List (Word × Passage)

namespace WaitingRoom

def fresh : WaitingRoom := ⟨.fresh, [], [], []⟩

def enter (w : WaitingRoom) (id : Word) (n : Nat) : WaitingRoom :=
  { w with awake := w.awake ++ List.replicate n id }

def wake (w : WaitingRoom) : WaitingRoom :=
  { w with awake := w.awake ++ w.asleep, asleep := [] }

def setPermits (w : WaitingRoom) (id : Word) (n : Nat) : WaitingRoom :=
  { w with referee := w.referee.setPermits id n }

def v (w : WaitingRoom) (id : Word) : Except Fault WaitingRoom :=
  (w.referee.v id).map fun referee => { w with referee }.wake

def report (w : WaitingRoom) (o : Outcome) (pid : Pid) : WaitingRoom × Bool :=
  match w.referee.report o pid with
  | (referee, true) => ({ w with referee }.wake, true)
  | (referee, false) => ({ w with referee }, false)

def ended (w : WaitingRoom) : WaitingRoom := { w with referee := w.referee.ended }.wake

def halt (w : WaitingRoom) : WaitingRoom := { w with referee := w.referee.halt }.wake

/-- The one at place `n` of those awake looks at its semaphore. -/
def look (w : WaitingRoom) (n : Nat) : WaitingRoom :=
  match w.awake[n]? with
  | none => w
  | some id =>
    let awake := w.awake.eraseIdx n
    match w.referee.p id with
    | .taken referee => { w with referee, awake, returned := w.returned ++ [(id, .passed)] }
    | .halted => { w with awake, returned := w.returned ++ [(id, .halted)] }
    | .blocked => { w with awake, asleep := w.asleep ++ [id] }

def lookAll : Nat → WaitingRoom → WaitingRoom
  | 0, w => w
  | n + 1, w => lookAll n (w.look 0)

def settle (w : WaitingRoom) : WaitingRoom := lookAll w.awake.length w

/-- Whether something holds of the referee, now or after a while. A while that
has to pass is long enough for everybody to look. -/
def await (w : WaitingRoom) (holds : Referee → Bool) (milliseconds : Nat) : WaitingRoom × Bool :=
  (if holds w.referee ∨ milliseconds = 0 then w else w.settle, holds w.referee)

def before (a b : Word × Passage) : Bool :=
  if a.1 = b.1 then a.2 = .halted || b.2 = .passed else a.1 ≤ b.1

def collect (w : WaitingRoom) (n : Nat) : WaitingRoom × List (Word × Passage) :=
  let w := w.settle
  ({ w with returned := w.returned.drop n }, (w.returned.take n).mergeSort before)

end WaitingRoom

end KernelExam

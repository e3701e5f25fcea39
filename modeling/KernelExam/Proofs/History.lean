import Mathlib.Data.List.Induction

/-!
# Logs read from their end

Some entries of a log start an account afresh: a semaphore is set, a file is emptied.
What counts afterwards is the value that the last of them left and what has come since.
-/

set_option autoImplicit false

namespace KernelExam

variable {α β : Type}

/-- The value that the last entry with a value left, `b` before any, and what came after it. -/
def sinceLast (value? : α → Option β) (b : β) (log : List α) : β × List α :=
  log.foldl (fun account e => match value? e with
    | some b => (b, [])
    | none => (account.1, account.2 ++ [e])) (b, [])

theorem sinceLast_concat_of_some {value? : α → Option β} {e : α} {b' : β} (h : value? e = some b')
    (b : β) (log : List α) : sinceLast value? b (log ++ [e]) = (b', []) := by
  simp [sinceLast, h]

theorem sinceLast_concat_of_none {value? : α → Option β} {e : α} (h : value? e = none)
    (b : β) (log : List α) :
    sinceLast value? b (log ++ [e]) =
      ((sinceLast value? b log).1, (sinceLast value? b log).2 ++ [e]) := by
  simp [sinceLast, h]

end KernelExam

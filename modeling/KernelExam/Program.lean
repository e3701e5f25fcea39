import KernelExam.Mailbox

/-!
# Programs and the calls they make

A program is a tree of calls to the kernel. Each call goes on with the answer,
whatever the kernel gives; a program that was written against one kernel can so
be run on any other. Exits and crashes are leaves, so nothing follows them.
Notes are remarks of the program about its own progress and reach no kernel.
-/

set_option autoImplicit false

namespace KernelExam

def stdin : Word := 0
def stdout : Word := 1

inductive Call where
  | exec (path : String) (args : List String)
  /-- Waits for a child; `status` is what the caller's variable holds before. -/
  | join (pid status : Word)
  | create (path : String)
  | openFile (path : String)
  | read (fd : Word) (size : Nat)
  | write (fd : Word) (bytes : Bytes)
  /-- Reads to an address that is none of the caller's buffers. -/
  | readRaw (fd : Word) (address size : Nat)
  | writeRaw (fd : Word) (address size : Nat)
  | close (fd : Word)
  | unlink (path : String)
  | chdir (path : String)
  | mkdir (path : String)
  | rmdir (path : String)
  | ask (request a0 a1 : Word)
  deriving DecidableEq, Repr

/-- A `join` answers with its code and what the status variable holds after it, a
`read` with its code and the bytes it puts at the front of the buffer, every other
call with its code alone. -/
@[reducible] def Call.Answer : Call → Type
  | .join _ _ => Word × Word
  | .read _ _ => Word × Bytes
  | _ => Word

def Call.code : (c : Call) → c.Answer → Word
  | .join _ _, a => a.1
  | .read _ _, a => a.1
  | .exec _ _, a => a
  | .create _, a => a
  | .openFile _, a => a
  | .write _ _, a => a
  | .readRaw _ _ _, a => a
  | .writeRaw _ _ _, a => a
  | .close _, a => a
  | .unlink _, a => a
  | .chdir _, a => a
  | .mkdir _, a => a
  | .rmdir _, a => a
  | .ask _ _ _, a => a

/-- What a program found in one of its steps. -/
inductive Finding where
  /-- Not even that there was nothing to find. -/
  | silent
  | nothing
  | number (n : Int)
  | truth (b : Bool)
  | text (s : String)
  | texts (ss : List String)
  | bytes (bs : Bytes)
  | pair (a b : Int)
  | filled (n : Int) (buffer : Bytes)
  | identity (process test : Word) (shell : String)
  deriving DecidableEq, Repr

structure Note where
  step : String
  finding : Finding
  deriving DecidableEq, Repr

inductive Program (α : Type) where
  | done (a : α)
  | call (c : Call) (next : c.Answer → Program α)
  | note (n : Note) (next : Program α)
  | exit (status : Word)
  | crash

namespace Program

def bind {α β : Type} : Program α → (α → Program β) → Program β
  | done a, f => f a
  | call c next, f => call c fun a => (next a).bind f
  | note n next, f => note n (next.bind f)
  | exit status, _ => exit status
  | crash, _ => crash

instance : Monad Program where
  pure := done
  bind := bind

theorem bind_done {α : Type} (x : Program α) : x.bind done = x := by
  induction x with
  | done a => rfl
  | call c next ih => simp only [bind, ih]
  | note n next ih => simp only [bind, ih]
  | exit status => rfl
  | crash => rfl

theorem bind_assoc {α β γ : Type} (x : Program α) (f : α → Program β) (g : β → Program γ) :
    (x.bind f).bind g = x.bind fun a => (f a).bind g := by
  induction x with
  | done a => rfl
  | call c next ih => simp only [bind, ih]
  | note n next ih => simp only [bind, ih]
  | exit status => rfl
  | crash => rfl

instance : LawfulMonad Program :=
  LawfulMonad.mk' Program (fun x => bind_done x) (fun _ _ => rfl) bind_assoc

def make (c : Call) : Program c.Answer := call c done

def remark (step : String) (finding : Finding) : Program Unit := note ⟨step, finding⟩ (done ())

end Program

end KernelExam

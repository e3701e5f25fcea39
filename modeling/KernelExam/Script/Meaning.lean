import KernelExam.Script.Basic
import KernelExam.Text.Numeral

/-!
# What a script does

The meaning of a script is a program. Each step that comes back is noted with
what it found. A step that does not come back is noted, if at all, before it is
taken.
-/

set_option autoImplicit false

namespace KernelExam

/-- What a script knows while it runs; the newest value of a variable is first. -/
structure Surroundings where
  pid : Int
  args : List String
  bindings : List (String × Int)
  session : Option Session

namespace Surroundings

def value (e : Surroundings) : Operand → Int
  | .literal n => n
  | .var name => (e.bindings.lookup name).getD 0

def word (e : Surroundings) (o : Operand) : Word := Int32.ofInt (e.value o)

def size (e : Surroundings) (o : Operand) : Nat := (e.value o).toNat

end Surroundings

def Finding.head : Finding → Int
  | .number n => n
  | .pair n _ => n
  | .filled n _ => n
  | .truth b => if b then 1 else 0
  | .identity n _ _ => n.toInt
  | _ => 0

def Surroundings.keep (e : Surroundings) (name : Option String) (found : Finding) : Surroundings :=
  match name with
  | some x => { e with bindings := (x, found.head) :: e.bindings }
  | none => e

def Session.identity (s : Session) : Finding := .identity s.processId s.testId s.shellProgram

namespace Action

def fillByte : UInt8 := 0xEE

def filled (n : Nat) : Bytes := List.replicate n fillByte

def buffered {α : Type} (n : Nat) (f : Bytes → Program α) : Program α :=
  if n < bufferLimit then f (filled n) else .crash

def number (w : Word) : Finding := .number w.toInt

def onlyCode (c : Call) : Program Finding := do
  let a ← Program.make c
  pure (number (c.code a))

def within {α : Type} (e : Surroundings) (f : Session → Program α) : Program α :=
  match e.session with
  | some s => f s
  | none => .crash

def named {α β : Type} (x : Except Fault α) (f : α → Program β) : Program β :=
  match x with
  | .ok a => f a
  | .error _ => .crash

def quietly (p : Program Unit) : Program Finding := do
  p
  pure .nothing

def find (e : Surroundings) : Action → Program Finding
  | pid => pure (.number e.pid)
  | argv => pure (.texts e.args)
  | argc => pure (.number e.args.length)
  | parseArg n => pure (number ((e.args[e.size n]?.bind Text.word?).getD 0))
  | exec path args => onlyCode (.exec path args)
  | join child status => do
    let (code, status) ← Program.make (.join (e.word child) (e.word status))
    pure (.pair code.toInt status.toInt)
  | create path => onlyCode (.create path)
  | openFile path => onlyCode (.openFile path)
  | read fd size => buffered (e.size size) fun buffer => do
    let (n, bs) ← Program.make (.read (e.word fd) buffer.length)
    pure (.filled n.toInt (overlay bs buffer))
  | write fd bytes => onlyCode (.write (e.word fd) bytes)
  | readRaw fd address size => onlyCode (.readRaw (e.word fd) (e.size address) (e.size size))
  | writeRaw fd address size => onlyCode (.writeRaw (e.word fd) (e.size address) (e.size size))
  | close fd => onlyCode (.close (e.word fd))
  | unlink path => onlyCode (.unlink path)
  | chdir path => onlyCode (.chdir path)
  | mkdir path => onlyCode (.mkdir path)
  | rmdir path => onlyCode (.rmdir path)
  | ask request a0 a1 => onlyCode (.ask (e.word request) (e.word a0) (e.word a1))
  | exit status => do
    Program.remark "exit" (number (e.word status))
    .exit (e.word status)
  | register init => do
    let s ← Session.register init
    pure s.identity
  | info => within e fun s => pure s.identity
  | processId => within e fun s => pure (number s.processId)
  | load slot => within e fun _ => named slot fun slot => do
    let w ← Session.load slot
    pure (number w)
  | store slot value => within e fun _ => named slot fun slot =>
    quietly (Session.store slot (e.word value))
  | loadWords slot size => within e fun _ => named slot fun slot =>
    buffered (e.size size) fun buffer => do
      let bs ← Session.loadWords slot buffer
      pure (.bytes bs)
  | string slot words => within e fun _ => named slot fun slot => do
    let s ← Session.stringArgument slot (e.size words)
    pure (.text s)
  | p semaphore => within e fun _ => named semaphore fun s => quietly (Session.p s)
  | v semaphore => within e fun _ => named semaphore fun s => quietly (Session.v s)
  | waitChild => within e fun _ => quietly Session.waitChild
  | signalParent => within e fun _ => quietly Session.signalParent
  | checkpoint value => within e fun _ => quietly (Session.checkpoint (e.word value))
  | fileExists slot words => within e fun _ => named slot fun slot => do
    let b ← Session.fileExists slot (e.size words)
    pure (.truth b)
  | restart => within e fun s => do
    let w ← s.restart
    pure (number w)
  | print parts => within e fun _ => do
    let b ← Session.writeText parts
    pure (.truth b)
  | ensure a b => within e fun _ => quietly (Session.ensure (e.value a = e.value b))
  | done => within e fun _ => do
    Program.remark "ctx.done" .silent
    Session.done
  | fail => within e fun _ => do
    Program.remark "ctx.fail" .silent
    Session.fail
  | leave status => within e fun _ => do
    Program.remark "ctx.exit" (number (e.word status))
    .exit (e.word status)

def sessionAfter (e : Surroundings) : Action → Finding → Option Session
  | register _, .identity process test shell => some ⟨process, test, shell⟩
  | _, _ => e.session

def take (a : Action) (name : Option String) (e : Surroundings) : Program Surroundings := do
  let found ← a.find e
  Program.remark a.label found
  pure { e.keep name found with session := a.sessionAfter e found }

end Action

namespace Script

/-- How a stretch of script ends: it comes to its end, or it returned. -/
inductive Flow where
  | next (e : Surroundings)
  | left

def iterate (body : Surroundings → Program Flow) : Nat → Surroundings → Program Flow
  | 0, e => pure (.next e)
  | n + 1, e => do
    match ← body e with
    | .next e => iterate body n e
    | .left => pure .left

/-- A return inside a test body ends that body only, so the frame then fails. -/
def run : Script → Surroundings → Program Flow
  | stop, e => pure (.next e)
  | act a name rest, e => do
    let e ← a.take name e
    rest.run e
  | leave, _ => pure .left
  | crash, _ => .crash
  | loop times body rest, e => do
    match ← iterate body.run (e.size times) e with
    | .next e => rest.run e
    | .left => pure .left
  | branch on value yes no rest, e => do
    match ← (if e.value on = value then yes.run e else no.run e) with
    | .next e => rest.run e
    | .left => pure .left
  | start name body, e => do
    Session.start fun s => do
      Program.remark "start" s.identity
      let _ ← body.run { e.keep name s.identity with session := some s }
    pure .left

def program (script : Script) (pid : Int) (args : List String) : Program Unit := do
  let _ ← script.run ⟨pid, args, [], none⟩

end Script

end KernelExam

import KernelExam.FileSystem.Objects

/-!
# Open descriptors

A table has at most sixteen places. A new descriptor takes the lowest place that
is free; the table grows only when no place below its end is.
-/

set_option autoImplicit false

namespace KernelExam

inductive Endpoint where
  | stdin
  | stdout
  | file (object position : Nat)
  deriving DecidableEq, Repr

structure Descriptor where
  endpoint : Endpoint
  readable : Bool
  writable : Bool
  deriving DecidableEq, Repr

def Descriptor.ofObject (object : Nat) : Descriptor := ⟨.file object 0, true, true⟩

def Descriptor.seek (d : Descriptor) (position : Nat) : Descriptor :=
  match d.endpoint with
  | .file object _ => { d with endpoint := .file object position }
  | _ => d

structure DescriptorTable where
  slots : List (Option Descriptor)
  deriving DecidableEq, Repr

namespace DescriptorTable

def capacity : Nat := 16

def stdio : DescriptorTable := ⟨[some ⟨.stdin, true, false⟩, some ⟨.stdout, false, true⟩]⟩

def closed : DescriptorTable := ⟨[]⟩

/-- The place that a number names; negative numbers name none. -/
def place? (fd : Word) : Option Nat := if 0 ≤ fd.toInt then some fd.toInt.toNat else none

def at? (t : DescriptorTable) (n : Nat) : Option Descriptor := (t.slots[n]?).join

def get? (t : DescriptorTable) (fd : Word) : Option Descriptor := (place? fd).bind t.at?

/-- The lowest place that a new descriptor may take. -/
def free? (t : DescriptorTable) : Option Nat :=
  let n := t.slots.findIdx Option.isNone
  if n < t.slots.length ∨ t.slots.length < capacity then some n else none

def insert (t : DescriptorTable) (d : Descriptor) : Option (DescriptorTable × Nat) :=
  t.free?.map fun n =>
    (⟨if n < t.slots.length then t.slots.set n (some d) else t.slots ++ [some d]⟩, n)

def set (t : DescriptorTable) (fd : Word) (d : Option Descriptor) : DescriptorTable :=
  match place? fd with
  | some n => ⟨t.slots.set n d⟩
  | none => t

def remove (t : DescriptorTable) (fd : Word) : DescriptorTable × Option Descriptor :=
  match t.get? fd with
  | some d => (t.set fd none, some d)
  | none => (t, none)

end DescriptorTable

end KernelExam

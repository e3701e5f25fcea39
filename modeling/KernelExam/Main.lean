import KernelExam.CommandLine

/-! The command line program. -/

set_option autoImplicit false

def main (arguments : List String) : IO UInt32 := do
  let n ← IO.rand 0 4294967295
  let printed := KernelExam.CommandLine.command (Int32.ofNat n) arguments
  IO.print printed.stdout
  IO.eprint printed.stderr
  return UInt32.ofNat printed.status

/-!
# Faults

The ways in which a step of a program or of the referee breaks down: a name that
belongs to the harness, a label that cannot be given, or a number that does not fit.
-/

set_option autoImplicit false

namespace KernelExam

inductive Fault where
  | reservedSlot
  | reservedSemaphore
  | addOverflow
  | multiplyOverflow
  | capacityOverflow
  | zeroInLabel (label : List UInt8)
  deriving DecidableEq, Repr

def Fault.message : Fault → String
  | .reservedSlot => "parameter slot overlaps a reserved slot"
  | .reservedSemaphore => "semaphore id overlaps a reserved semaphore"
  | .addOverflow => "attempt to add with overflow"
  | .multiplyOverflow => "attempt to multiply with overflow"
  | .capacityOverflow => "capacity overflow"
  | .zeroInLabel label =>
    "thread name may not contain interior null bytes: NulError(" ++
      toString (label.takeWhile (· ≠ 0)).length ++ ", [" ++
      ", ".intercalate (label.map fun b => toString b.toNat) ++ "])"

end KernelExam

/-!
# Decimal numerals

A numeral is an optional sign and at least one decimal digit, nothing else.
-/

set_option autoImplicit false

namespace KernelExam.Text

def digit? (c : Char) : Option Nat :=
  if '0' ≤ c ∧ c ≤ '9' then some (c.toNat - '0'.toNat) else none

def digitsFrom? (n : Nat) : List Char → Option Nat
  | [] => some n
  | c :: cs => (digit? c).bind fun d => digitsFrom? (10 * n + d) cs

def natural? (cs : List Char) : Option Nat := if cs = [] then none else digitsFrom? 0 cs

def signed? : List Char → Option Int
  | '+' :: cs => (natural? cs).map Int.ofNat
  | '-' :: cs => (natural? cs).map fun n => -(n : Int)
  | cs => (natural? cs).map Int.ofNat

def unsigned? : List Char → Option Nat
  | '+' :: cs => natural? cs
  | cs => natural? cs

/-- The numeral of a 32-bit word; one that does not fit is refused. -/
def word? (s : String) : Option Int32 :=
  (signed? s.toList).bind fun n =>
    if -2147483648 ≤ n ∧ n ≤ 2147483647 then some (Int32.ofInt n) else none

def count64? (s : String) : Option Nat :=
  (unsigned? s.toList).bind fun n => if n < 18446744073709551616 then some n else none

def padRight (width : Nat) (s : String) : String :=
  s ++ String.ofList (List.replicate (width - s.length) ' ')

def padLeft (width : Nat) (s : String) : String :=
  String.ofList (List.replicate (width - s.length) ' ') ++ s

end KernelExam.Text

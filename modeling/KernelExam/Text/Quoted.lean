import KernelExam.Text.CharClass

/-!
# Quoted text

How a message shows a piece of text or a list of numbers. A quoted text stands
between double quotes; a character that a terminal would not show by itself
appears as a backslash escape, everything else as it is.
-/

set_option autoImplicit false

namespace KernelExam.Text

def hexDigits (n : Nat) : List Char := Nat.toDigits 16 n

def codePointEscape (c : Char) : List Char :=
  '\\' :: 'u' :: '\x7b' :: hexDigits c.toNat ++ ['\x7d']

/-- One character of a quoted text. The single quote needs no escape. -/
def escapeChar (c : Char) : List Char :=
  if c = '\x00' then ['\\', '0']
  else if c = '\t' then ['\\', 't']
  else if c = '\n' then ['\\', 'n']
  else if c = '\r' then ['\\', 'r']
  else if c = '\\' then ['\\', '\\']
  else if c = '"' then ['\\', '"']
  else if isExtender c || isUnprintable c then codePointEscape c
  else [c]

def quoteChars (cs : List Char) : List Char := '"' :: cs.flatMap escapeChar ++ ['"']

def quoted (s : String) : String := String.ofList (quoteChars s.toList)

def bracketed (ns : List Int) : String :=
  "[" ++ ", ".intercalate (ns.map fun n => toString n) ++ "]"

end KernelExam.Text

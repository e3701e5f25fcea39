import KernelExam.Word

/-!
# File objects

The bytes of every file ever made, by object number. Objects are only added, so
a descriptor keeps its object when the last name of it is gone.
-/

set_option autoImplicit false

namespace KernelExam

abbrev Objects := List Bytes

namespace Objects

def contents (os : Objects) (o : Nat) : Bytes := os.getD o []

def allocate (os : Objects) (bs : Bytes) : Objects × Nat := (os ++ [bs], os.length)

def put (os : Objects) (o : Nat) (bs : Bytes) : Objects := os.set o bs

def append (os : Objects) (o : Nat) (bs : Bytes) : Objects := os.put o (os.contents o ++ bs)

/-- Bytes read from a position: at most `n`, and none from past the end. -/
def slice (os : Objects) (o position n : Nat) : Bytes := ((os.contents o).drop position).take n

/-- Writes at a position; a gap before it is filled with zeros. -/
def overwrite (os : Objects) (o position : Nat) (bs : Bytes) : Objects :=
  let old := os.contents o
  let long := old ++ zeros (position + bs.length - old.length)
  os.put o (long.take position ++ bs ++ long.drop (position + bs.length))

theorem contents_put (os : Objects) (o : Nat) (bs : Bytes) (h : o < os.length) :
    (os.put o bs).contents o = bs := by
  simp [put, contents, List.getD_eq_getElem?_getD, h]

theorem contents_put_of_ne (os : Objects) (o p : Nat) (bs : Bytes) (h : o ≠ p) :
    (os.put o bs).contents p = os.contents p := by
  simp [put, contents, List.getD_eq_getElem?_getD, h]

theorem contents_allocate (os : Objects) (bs : Bytes) :
    (os.allocate bs).1.contents (os.allocate bs).2 = bs := by
  simp [allocate, contents, List.getD_eq_getElem?_getD]

end Objects

end KernelExam

import KernelExam.FileSystem.Error

/-!
# Directory listings

A listing is the contents of one directory: its entries in no order that anyone
can observe, each under a name of its own. A file entry only names the object
that holds the bytes, so an object outlives its entry.
-/

set_option autoImplicit false

namespace KernelExam

inductive Listing where
  | empty
  | file (name : String) (object : Nat) (more : Listing)
  | folder (name : String) (inside : Listing) (more : Listing)
  deriving DecidableEq, Repr

inductive Entry where
  | file (object : Nat)
  | folder (inside : Listing)
  deriving DecidableEq, Repr

namespace Listing

def find? (name : String) : Listing → Option Entry
  | empty => none
  | file n o more => if n = name then some (.file o) else more.find? name
  | folder n inside more => if n = name then some (.folder inside) else more.find? name

def add (name : String) : Entry → Listing → Listing
  | .file o, l => file name o l
  | .folder inside, l => folder name inside l

def erase (name : String) : Listing → Listing
  | empty => empty
  | file n o more => if n = name then more else file n o (more.erase name)
  | folder n inside more => if n = name then more else folder n inside (more.erase name)

def refill (l : Listing) (name : String) (contents : Listing) : Listing :=
  match l with
  | empty => empty
  | file n o more => file n o (more.refill name contents)
  | folder n inside more =>
    if n = name then folder n contents more else folder n inside (more.refill name contents)

def folderAt : List String → Listing → Except FileError Listing
  | [], l => .ok l
  | name :: rest, l => match l.find? name with
    | some (.folder inside) => inside.folderAt rest
    | some (.file _) => .error .notADirectory
    | none => .error .notFound

def editAt (edit : Listing → Listing) : List String → Listing → Listing
  | [], l => edit l
  | name :: rest, l => match l.find? name with
    | some (.folder inside) => l.refill name (inside.editAt edit rest)
    | _ => l

/-- Makes the folders that are missing on the way down a list of names. The walk
stops at the first name that is a file; what it made before that stays. -/
def makeFolders : List String → Listing → Listing × Option FileError
  | [], l => (l, none)
  | name :: rest, l => match l.find? name with
    | some (.folder inside) =>
      let r := inside.makeFolders rest
      (l.refill name r.1, r.2)
    | some (.file _) => (l, some .notADirectory)
    | none =>
      let r := empty.makeFolders rest
      (l.add name (.folder r.1), r.2)

theorem find?_add (l : Listing) (name : String) (e : Entry) (n : String) :
    (l.add name e).find? n = if name = n then some e else l.find? n := by
  cases e <;> rfl

theorem find?_erase_of_ne (l : Listing) (name n : String) (h : name ≠ n) :
    (l.erase name).find? n = l.find? n := by
  induction l with
  | empty => rfl
  | file m o more ih =>
    by_cases hm : m = name
    · simp [erase, find?, hm, h]
    · simp [erase, find?, hm, ih]
  | folder m inside more _ ih =>
    by_cases hm : m = name
    · simp [erase, find?, hm, h]
    · simp [erase, find?, hm, ih]

theorem find?_refill_of_ne (l : Listing) (name n : String) (contents : Listing) (h : name ≠ n) :
    (l.refill name contents).find? n = l.find? n := by
  induction l with
  | empty => rfl
  | file m o more ih => simp [refill, find?, ih]
  | folder m inside more _ ih =>
    by_cases hm : m = name
    · simp [refill, find?, hm, h]
    · simp [refill, find?, hm, ih]

end Listing

end KernelExam

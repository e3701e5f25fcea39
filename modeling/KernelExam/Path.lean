/-!
# Paths

A path is read from left to right over a stack of names: a plain name goes down,
`.` stays, `..` goes up. A walk that would leave the root, or that meets an empty
name, has no end. The path of a stack begins with a slash, ends with none, and
holds neither of the two dots.
-/

set_option autoImplicit false

namespace KernelExam.Path

def segments : List Char → List (List Char)
  | [] => [[]]
  | c :: cs =>
    if c = '/' then [] :: segments cs
    else match segments cs with
      | s :: more => (c :: s) :: more
      | [] => [[c]]

def split (path : String) : List String := (segments path.toList).map String.ofList

def components (path : String) : List String := (split path).filter (· ≠ "")

def isAbsolute (path : String) : Bool := path.toList.head? = some '/'

def dropSlashes (path : String) : String := String.ofList (path.toList.dropWhile (· = '/'))

def render (names : List String) : String :=
  if names = [] then "/" else names.foldl (fun path name => path ++ "/" ++ name) ""

/-- The stack of names, innermost first, on which a walk from `here` ends. -/
def walk : List String → List String → Option (List String)
  | here, [] => some here
  | here, name :: rest =>
    if name = "" then none
    else if name = "." then walk here rest
    else if name = ".." then match here with
      | [] => none
      | _ :: up => walk up rest
    else walk (name :: here) rest

/-- The canonical path that `path` names for a process whose directory is `cwd`. -/
def resolve (path cwd : String) : Option String :=
  if path = "/" then some "/"
  else
    let start := if isAbsolute path then [] else (components cwd).reverse
    (walk start (split (dropSlashes path))).map fun stack => render stack.reverse

def splitLast : List Char → Option (List Char × List Char)
  | [] => none
  | c :: cs => match splitLast cs with
    | some (front, last) => some (c :: front, last)
    | none => if c = '/' then some ([], cs) else none

/-- The directory and the name of the last part of a path; the root has none. -/
def parentFile (path : String) : Option (String × String) :=
  if path = "/" then none
  else (splitLast path.toList).map fun (front, last) =>
    (if front = [] then "/" else String.ofList front, String.ofList last)

theorem segments_ne_nil (cs : List Char) : segments cs ≠ [] := by
  induction cs with
  | nil => simp [segments]
  | cons c cs ih =>
    by_cases h : c = '/'
    · simp [segments, h]
    · cases e : segments cs with
      | nil => exact absurd e ih
      | cons s more => simp [segments, h, e]

theorem walk_append (here first rest : List String) :
    walk here (first ++ rest) = (walk here first).bind fun there => walk there rest := by
  induction first generalizing here with
  | nil => rfl
  | cons name first ih =>
    by_cases h0 : name = ""
    · simp [walk, h0]
    · by_cases h1 : name = "."
      · simp [walk, h1, ih]
      · by_cases h2 : name = ".."
        · cases here with
          | nil => simp [walk, h2]
          | cons _ up => simp [walk, h2, ih]
        · simp [walk, h0, h1, h2, ih]

end KernelExam.Path

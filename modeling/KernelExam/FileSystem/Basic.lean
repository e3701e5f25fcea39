import KernelExam.FileSystem.Listing
import KernelExam.FileSystem.Objects
import KernelExam.Path

/-!
# The file system

A tree of listings over a store of file objects. Every operation gives the file
system after it together with its result, so what a refused operation leaves
behind is part of the answer. Paths are meant to be canonical; of any other the
part after the last slash is the name and the rest is the directory.
-/

set_option autoImplicit false

namespace KernelExam

structure FileSystem where
  root : Listing
  objects : Objects
  deriving DecidableEq, Repr

namespace FileSystem

def empty : FileSystem := ⟨.empty, []⟩

def folder (fs : FileSystem) (path : String) : Except FileError Listing :=
  fs.root.folderAt (Path.components path)

def entry (fs : FileSystem) (path : String) : Except FileError Entry :=
  match Path.parentFile path with
  | none => .error .isADirectory
  | some (parent, name) => match fs.folder parent with
    | .error e => .error e
    | .ok dir => match dir.find? name with
      | none => .error .notFound
      | some found => .ok found

def insert (fs : FileSystem) (parent name : String) (e : Entry) : FileSystem :=
  { fs with root := fs.root.editAt (·.add name e) (Path.components parent) }

def remove (fs : FileSystem) (parent name : String) : FileSystem :=
  { fs with root := fs.root.editAt (·.erase name) (Path.components parent) }

/-- Makes a regular file, or empties the one that is there. -/
def create (fs : FileSystem) (path : String) : FileSystem × Except FileError Nat :=
  match Path.parentFile path with
  | none => (fs, .error .isADirectory)
  | some (parent, name) => match fs.folder parent with
    | .error e => (fs, .error e)
    | .ok dir => match dir.find? name with
      | some (.file o) => ({ fs with objects := fs.objects.put o [] }, .ok o)
      | some (.folder _) => (fs, .error .isADirectory)
      | none =>
        let made := fs.objects.allocate []
        ({ fs with objects := made.1 }.insert parent name (.file made.2), .ok made.2)

def openFile (fs : FileSystem) (path : String) : Except FileError Nat :=
  match fs.entry path with
  | .error e => .error e
  | .ok (.file o) => .ok o
  | .ok (.folder _) => .error .isADirectory

def unlink (fs : FileSystem) (path : String) : FileSystem × Except FileError Unit :=
  match Path.parentFile path with
  | none => (fs, .error .isADirectory)
  | some (parent, name) => match fs.folder parent with
    | .error e => (fs, .error e)
    | .ok dir => match dir.find? name with
      | some (.file _) => (fs.remove parent name, .ok ())
      | some (.folder _) => (fs, .error .isADirectory)
      | none => (fs, .error .notFound)

def mkdir (fs : FileSystem) (path : String) : FileSystem × Except FileError Unit :=
  match Path.parentFile path with
  | none => (fs, .error .alreadyExists)
  | some (parent, name) => match fs.folder parent with
    | .error e => (fs, .error e)
    | .ok dir => match dir.find? name with
      | some _ => (fs, .error .alreadyExists)
      | none => (fs.insert parent name (.folder .empty), .ok ())

def rmdir (fs : FileSystem) (path : String) : FileSystem × Except FileError Unit :=
  match Path.parentFile path with
  | none => (fs, .error .invalidPath)
  | some (parent, name) => match fs.folder parent with
    | .error e => (fs, .error e)
    | .ok dir => match dir.find? name with
      | some (.folder .empty) => (fs.remove parent name, .ok ())
      | some (.folder _) => (fs, .error .directoryNotEmpty)
      | some (.file _) => (fs, .error .notADirectory)
      | none => (fs, .error .notFound)

def isDir (fs : FileSystem) (path : String) : Bool := (fs.folder path).isOk

def fileExists (fs : FileSystem) (path : String) : Bool := path = "/" || (fs.entry path).isOk

/-- Makes every directory on a path that is missing. -/
def makeFolders (fs : FileSystem) (path : String) : FileSystem × Except FileError Unit :=
  match fs.root.makeFolders (Path.components path) with
  | (root, none) => ({ fs with root }, .ok ())
  | (root, some e) => ({ fs with root }, .error e)

def writeFile (fs : FileSystem) (path : String) (bs : Bytes) : FileSystem × Except FileError Unit :=
  match Path.parentFile path with
  | none => (fs, .error .isADirectory)
  | some (parent, _) => match fs.makeFolders parent with
    | (fs, .error e) => (fs, .error e)
    | (fs, .ok ()) => match fs.create path with
      | (fs, .error e) => (fs, .error e)
      | (fs, .ok o) => ({ fs with objects := fs.objects.append o bs }, .ok ())

def fileBytes (fs : FileSystem) (path : String) : Except FileError Bytes :=
  (fs.openFile path).map fs.objects.contents

end FileSystem

end KernelExam

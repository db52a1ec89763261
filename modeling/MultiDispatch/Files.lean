import MultiDispatch.Files.Path

/-!
# Files

What there is to read under a path.  A snapshot is a finite set of regular files
with a working directory; a directory is there when something is in it.
-/

namespace MultiDispatch

inductive FileError where
  | notFound
  | directory
  | notDirectory
  | unreadable (reason : String)
  deriving DecidableEq

namespace FileError

def message : FileError → String
  | .notFound => "No such file or directory (os error 2)"
  | .directory => "Is a directory (os error 21)"
  | .notDirectory => "Not a directory (os error 20)"
  | .unreadable reason => reason

end FileError

/-- What reading the file under each path yields. -/
structure Files where
  read : Path → Except FileError String

namespace Files

/-- A regular file is there, whether or not it can be read. -/
def Contains (files : Files) (path : Path) : Prop :=
  match files.read path with
  | .ok _ | .error (.unreadable _) => True
  | .error _ => False

instance (files : Files) (path : Path) : Decidable (files.Contains path) := by
  unfold Contains
  split <;> infer_instance

end Files

/-- Places are given by the names from the root on. -/
structure Snapshot where
  workingDirectory : List String
  contents : List (List String × String)

namespace Snapshot

def IsDirectory (snapshot : Snapshot) (place : List String) : Prop :=
  place <+: snapshot.workingDirectory ∨
    ∃ file ∈ snapshot.contents, place <+: file.1 ∧ place ≠ file.1

instance (snapshot : Snapshot) (place : List String) : Decidable (snapshot.IsDirectory place) := by
  unfold IsDirectory
  infer_instance

def readPlace (snapshot : Snapshot) (place : List String) : Except FileError String :=
  match snapshot.contents.lookup place with
  | some text => .ok text
  | none => .error (if snapshot.IsDirectory place then .directory else .notFound)

/-- From one place by one part of a path; only directories can be gone on from. -/
def step (snapshot : Snapshot) (place : List String) (part : String) :
    Except FileError (List String) :=
  if snapshot.IsDirectory place then
    .ok (match part with
      | "" | "." => place
      | ".." => place.dropLast
      | name => place ++ [name])
  else .error (if (snapshot.contents.lookup place).isSome then .notDirectory else .notFound)

/-- The place that a path leads to; the empty path leads nowhere. -/
def resolve (snapshot : Snapshot) (path : Path) : Except FileError (List String) :=
  if path.parts = [""] then .error .notFound
  else path.parts.foldlM snapshot.step (if path.IsRooted then [] else snapshot.workingDirectory)

def files (snapshot : Snapshot) : Files where
  read path := snapshot.resolve path >>= snapshot.readPlace

end Snapshot

end MultiDispatch

import WeaveGate.Routes.Bootstrap

/-!
# Writing the snapshot call by call

`write_cache` as the calls it makes to the file system. Between any two of them, and after any part of a write, the
process may be killed. What is then left is what the next startup finds.
-/

namespace WeaveGate.Routes

open Posix (Path Octets)

/-- The next call. `std::fs::write` opens the temporary file, which empties it, and writes it in pieces. -/
inductive Progress where
  | createDirAll
  | openTmp
  | writeTmp (written : Nat)
  | rename
  | returned (ok : Bool)

structure Writing where
  progress : Progress
  files : Files Octets

/-- A rename onto the same file changes nothing. -/
def Files.rename (files : Files Octets) (source target : Path) : Files Octets :=
  (files.write source none).write target (files source)

/-- One call, for the text `json` of the document. A path without a file name is a directory, which cannot be opened
for writing. -/
inductive WriteStep (path : Path) (json : Octets) : Writing → Writing → Prop
  | createDirAll (files : Files Octets) : WriteStep path json ⟨.createDirAll, files⟩ ⟨.openTmp, files⟩
  | openTmp (files : Files Octets) (name : (Posix.Path.fileName path).isSome = true) :
      WriteStep path json ⟨.openTmp, files⟩ ⟨.writeTmp 0, files.write (tmpPath path) (some [])⟩
  | writeTmp (files : Files Octets) {n m : Nat} (hn : n < m) (hm : m ≤ json.length) :
      WriteStep path json ⟨.writeTmp n, files⟩ ⟨.writeTmp m, files.write (tmpPath path) (some (json.take m))⟩
  | closeTmp (files : Files Octets) : WriteStep path json ⟨.writeTmp json.length, files⟩ ⟨.rename, files⟩
  | rename (files : Files Octets) :
      WriteStep path json ⟨.rename, files⟩ ⟨.returned true, files.rename (tmpPath path) path⟩
  | fail {progress : Progress} (files : Files Octets) (h : progress ≠ .returned true) :
      WriteStep path json ⟨progress, files⟩ ⟨.returned false, files⟩

def Writing.start (files : Files Octets) : Writing := ⟨.createDirAll, files⟩

end WeaveGate.Routes

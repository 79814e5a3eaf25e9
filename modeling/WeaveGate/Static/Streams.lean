import WeaveGate.Static.MemCache

/-!
# Polling a body

`poll_next` of `fs/stream.rs` and of `mem_cache/stream.rs`, over a reader that may return fewer bytes than it is asked
for, and may fail.
-/

namespace WeaveGate.Static

open Posix (Octets Path)

/-- What the reader does when it is called. It returns at most `n` bytes, and none only when there are none left, or it
fails and keeps its place. -/
inductive ReadOutcome where
  | upTo (n : Nat) (pos : 0 < n)
  | fails

/-- What one poll does. The item is a chunk or an error, none at the end of the stream. -/
structure Poll where
  item : Option (Except Unit Octets)
  next : Reading
  inserted : Option (Path × MemFile)

def Poll.chunk (p : Poll) : Octets :=
  match p.item with
  | some (.ok chunk) => chunk
  | _ => []

/-- `Take` does not call its reader at the end of the window. -/
def Reading.poll (r : Reading) : ReadOutcome → Poll
  | .upTo n _ =>
      { item := if r.chunk n = [] then none else some (.ok (r.chunk n)), next := r.pollNext n, inserted := r.entry n }
  | .fails => { item := if r.stream.subLen ≤ r.pos then none else some (.error ()), next := r, inserted := none }

namespace FileStream

variable (s : FileStream) (reads : Nat → ReadOutcome)

/-- The stream before its `i`th poll. -/
def readingAt (i : Nat) : Reading := Run.stateAt (fun r outcome => (Reading.poll r outcome).next) (.start s) reads i

def pollAt (i : Nat) : Poll := (s.readingAt reads i).poll (reads i)

/-- The chunks of the first `k` polls. -/
def delivered (k : Nat) : Octets := (List.range k).flatMap fun i => (s.pollAt reads i).chunk

end FileStream

end WeaveGate.Static

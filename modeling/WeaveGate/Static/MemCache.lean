import WeaveGate.Lib.Run
import WeaveGate.Static.Handle

/-!
# The server with a memory cache

`mem_cache/stream.rs` and the store of `mem_cache/cache.rs`: bodies are read piece by piece, and a body that has
filled its buffer becomes an entry of the cache.
-/

namespace WeaveGate.Static

open Posix (Octets Path FileTree)

/-! ## Streams that are being read -/

/-- `MemCacheFileStream`: a stream, how much of it was read, and what was collected for the cache. The buffer is
gone once it has become an entry. -/
structure Reading where
  stream : FileStream
  pos : Nat
  memBuf : Option Octets
deriving DecidableEq

def Reading.start (s : FileStream) : Reading := { stream := s, pos := 0, memBuf := s.mem.map fun _ => [] }

namespace Reading

variable (r : Reading)

/-- What `read` returns when it returns `n` bytes, or as many as the buffer holds and the window has left. -/
def chunk (n : Nat) : Octets := ((r.stream.bytes.getD []).drop r.pos).take (min n r.stream.bufSize)

/-- The entry that the stream adds to the cache when the next `n` bytes fill the buffer. -/
def entry (n : Nat) : Option (Path × MemFile) :=
  match r.stream.mem, r.memBuf with
  | some (memOpts, capacity), some buf =>
      let buf := buf ++ r.chunk n
      if r.chunk n ≠ [] ∧ buf.length = capacity then
        some (memOpts.filePath, { data := buf, bufSize := r.stream.bufSize, contentType := memOpts.contentType
                                  lastModified := memOpts.lastModified })
      else none
  | _, _ => none

def pollNext (n : Nat) : Reading :=
  { r with pos := r.pos + (r.chunk n).length
           memBuf := if (r.entry n).isSome then none else r.memBuf.map (· ++ r.chunk n) }

end Reading

/-! ## The server -/

structure Server where
  store : Store
  readings : List Reading

def Server.empty : Server := { store := [], readings := [] }

/-- `poll k n` reads the `k`th stream, and the read returns at most `n` bytes. Expiry and eviction take an entry
out of the store, whenever they like. -/
inductive Event where
  | request (opts : HandleOpts)
  | poll (k n : Nat)
  | evict (path : Path)

def Body.stream? : Body → Option FileStream
  | .stream s => some s
  | _ => none

/-- One event. The client of a request gets `handle crates t s.store opts`. -/
def serve (crates : Crates) (t : FileTree) (s : Server) : Event → Server
  | .request opts =>
      let stream := (handle crates t s.store opts).toOption.bind (·.resp.body.stream?)
      { s with readings := s.readings ++ (stream.map Reading.start).toList }
  | .poll k n =>
      match s.readings[k]? with
      | none => s
      | some r =>
          { store := (r.entry n).elim s.store fun e => s.store.insert e.1 e.2
            readings := s.readings.set k (r.pollNext n) }
  | .evict path => { s with store := s.store.remove path }

end WeaveGate.Static

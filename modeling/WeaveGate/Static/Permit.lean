import WeaveGate.Lib.FairLock
import WeaveGate.Static.MemCache

/-!
# Requests side by side

`handle` of `static_files.rs` with the memory cache, step by step, as any number of requests takes the steps: the
lookup of `get_or_acquire`, the wait for `CACHE_PERMIT`, the end of the statement that acquires it, where the permit is
dropped, the normal flow, and the reads of the body.
-/

namespace WeaveGate.Static

open Posix (Octets Path FileTree)

/-! ## One request -/

inductive FetchPhase where
  | arrived
  | missed
  /-- It stands in the line for the permit. -/
  | acquiring
  | permitted
  /-- `get_or_acquire` has returned `None`, or is not called. -/
  | continuing
  | reading (r : Reading)
  /-- With the answer complete, from the store or not. -/
  | answered (hit : Bool)
deriving DecidableEq

structure Fetch where
  opts : HandleOpts
  phase : FetchPhase
  /-- It found the permit taken. -/
  waited : Bool

/-- `handle` up to its first point of suspension. -/
def lookupPhase (store : Store) (opts : HandleOpts) : FetchPhase :=
  if !isAllowed opts.method then .answered false
  else if opts.memoryCache.isNone || !isUtf8 (requestedPath opts) then .continuing
  else if (store.get? (requestedPath opts)).isSome then .answered true
  else .missed

/-- The body of the normal flow, where it is a stream. -/
def flowStream (crates : Crates) (t : FileTree) (opts : HandleOpts) : Option FileStream :=
  (handleFile crates t opts).toOption.bind (·.resp.body.stream?)

def Source.path? : Source → Option Path
  | .file f => some f.path
  | .cursor _ => none

/-- All bytes of the stream have been read. -/
def Reading.atEnd (r : Reading) : Bool := (r.stream.bytes.getD []).length ≤ r.pos

/-! ## All requests -/

/-- `opened` has the files that were opened, without those whose entry the store has lost since. Nothing reads it. -/
structure FetchState where
  store : Store
  permit : FairLock Nat
  fetches : List Fetch
  opened : List Path

def FetchState.new : FetchState := { store := [], permit := .free, fetches := [], opened := [] }

inductive FetchEvent where
  | arrive (opts : HandleOpts)
  | lookup (k : Nat)
  | acquire (k : Nat)
  | acquired (k : Nat)
  | dropPermit (k : Nat)
  | proceed (k : Nat)
  /-- A read of the body that returns at most `n` bytes. -/
  | poll (k n : Nat)
  /-- Expiry or eviction. -/
  | evict (path : Path)

def FetchState.setFetch (s : FetchState) (k : Nat) (f : Fetch) : FetchState := { s with fetches := s.fetches.set k f }

def fetchStep (crates : Crates) (t : FileTree) (s : FetchState) : FetchEvent → FetchState
  | .arrive opts => { s with fetches := s.fetches ++ [⟨opts, .arrived, false⟩] }
  | .lookup k =>
      match s.fetches[k]? with
      | some ⟨opts, .arrived, waited⟩ => s.setFetch k ⟨opts, lookupPhase s.store opts, waited⟩
      | _ => s
  | .acquire k =>
      match s.fetches[k]? with
      | some ⟨opts, .missed, _⟩ =>
          { s with permit := s.permit.request k }.setFetch k ⟨opts, .acquiring, s.permit.holder.isSome⟩
      | _ => s
  | .acquired k =>
      match s.fetches[k]? with
      | some ⟨opts, .acquiring, waited⟩ =>
          if s.permit.holder = some k then s.setFetch k ⟨opts, .permitted, waited⟩ else s
      | _ => s
  | .dropPermit k =>
      match s.fetches[k]? with
      | some ⟨opts, .permitted, waited⟩ =>
          { s with permit := s.permit.release }.setFetch k ⟨opts, .continuing, waited⟩
      | _ => s
  | .proceed k =>
      match s.fetches[k]? with
      | some ⟨opts, .continuing, waited⟩ =>
          match flowStream crates t opts with
          | none => s.setFetch k ⟨opts, .answered false, waited⟩
          | some stream =>
              { s with opened := s.opened ++ stream.source.path?.toList }.setFetch k
                ⟨opts, .reading (.start stream), waited⟩
      | _ => s
  | .poll k n =>
      match s.fetches[k]? with
      | some ⟨opts, .reading r, waited⟩ =>
          { s with store := (r.entry n).elim s.store fun e => s.store.insert e.1 e.2 }.setFetch k
            ⟨opts, if (r.pollNext n).atEnd then .answered false else .reading (r.pollNext n), waited⟩
      | _ => s
  | .evict path =>
      if (s.store.get? path).isSome then
        { s with store := s.store.remove path, opened := s.opened.filter (· ≠ path) }
      else s

end WeaveGate.Static

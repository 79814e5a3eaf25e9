import WeaveGate.Static.Lemmas.MemCache
import WeaveGate.Static.Theorems.Variants

/-!
# The memory cache

When answers from the cache are those of the file tree.
-/

namespace WeaveGate.Static

open Http
open Posix (Octets Path Name FileTree Inode Errno Canon)

variable {crates : Crates} {t : FileTree}

/-! ## All runs -/

/-- From an empty cache on, as long as every event meets the condition, all answers are those of a server with an
empty cache, and all entries are the complete files at their paths. -/
theorem responses_as_without_cache {events : List Event}
    (hevents : ∀ x ∈ Run.trace (serve crates t) Server.empty events, x.2.Harmless crates t x.1) :
    (∀ x ∈ Run.trace (serve crates t) Server.empty events, ∀ opts, x.2 = .request opts →
      observe (handle crates t x.1.store opts) = observe (handle crates t [] opts)) ∧
    (∀ x ∈ Run.trace (serve crates t) Server.empty events,
      ∀ p entry, x.1.store.get? p = some entry → entry.Complete crates t p) ∧
    ∀ p entry, (Run.final (serve crates t) Server.empty events).store.get? p = some entry →
      entry.Complete crates t p := by
  obtain ⟨hsound, hfinal⟩ := Run.invariant (I := Server.Sound crates t) (C := fun s e => Event.Harmless crates t s e)
    (fun s e hs he => hs.serve he) .empty hevents
  refine ⟨fun x hx opts hopts => ?_, fun x hx => (hsound x hx).entries, hfinal.entries⟩
  obtain ⟨s, e⟩ := x
  cases hopts
  exact (hsound _ hx).observe_eq (hevents _ hx)

def cachedOpts (uriPath : String) (headers : HeaderMap) : HandleOpts :=
  { gzipOpts uriPath with headers, memoryCache := some ⟨8388608⟩ }

/-- A client that accepts gzip reads the variant of `a.html`, up to the length of `a.html`. -/
def gzipRead : List Event :=
  [.request (cachedOpts "/a.html" [(.acceptEncoding, HeaderValue.fromStatic "gzip")]), .poll 0 1]

/-- Then a client that accepts no coding is sent the first bytes of the variant, and one that asks for the
options of a file is sent the file. -/
theorem serves_variant_from_cache :
    (∃ entry, (Run.final (serve sampleCrates variantTree) Server.empty gzipRead).store.get?
        (requestedPath (cachedOpts "/a.html" [])) = some entry ∧
      ¬ entry.Complete sampleCrates variantTree (requestedPath (cachedOpts "/a.html" []))) ∧
    observe (handle sampleCrates variantTree
        (Run.final (serve sampleCrates variantTree) Server.empty gzipRead).store (cachedOpts "/a.html" [])) ≠
      observe (handle sampleCrates variantTree [] (cachedOpts "/a.html" [])) ∧
    observe (handle sampleCrates variantTree
        (Run.final (serve sampleCrates variantTree) Server.empty
          [.request (cachedOpts "/c.html" []), .poll 0 100]).store
        { cachedOpts "/c.html" [] with method := .options }) ≠
      observe (handle sampleCrates variantTree [] { cachedOpts "/c.html" [] with method := .options }) := by
  refine ⟨?_, by decide +kernel, by decide +kernel⟩
  have hstored : ((Run.final (serve sampleCrates variantTree) Server.empty gzipRead).store.get?
      (requestedPath (cachedOpts "/a.html" []))).any (·.data = named "g") = true := by decide +kernel
  obtain ⟨entry, hentry, hdata⟩ := (Option.any_eq_true _ _).mp hstored
  refine ⟨entry, hentry, ?_⟩
  rintro ⟨i, hi, hkind, _⟩
  have hmeta : variantTree.metadata (requestedPath (cachedOpts "/a.html" [])) = .ok (sampleFile (named "a")) := by
    decide +kernel
  cases hmeta.symm.trans hi
  rw [of_decide_eq_true hdata] at hkind
  exact absurd hkind (by decide)

def plainReads : List Event :=
  [.request (cachedOpts "/c.html" []), .poll 0 100, .request (cachedOpts "/c.html" []),
    .evict (requestedPath (cachedOpts "/c.html" []))]

theorem responses_as_without_cache_plain :
    (∀ x ∈ Run.trace (serve sampleCrates variantTree) Server.empty plainReads, ∀ opts, x.2 = .request opts →
      observe (handle sampleCrates variantTree x.1.store opts) = observe (handle sampleCrates variantTree [] opts)) ∧
    (∀ x ∈ Run.trace (serve sampleCrates variantTree) Server.empty plainReads,
      ∀ p entry, x.1.store.get? p = some entry → entry.Complete sampleCrates variantTree p) ∧
    ∀ p entry, (Run.final (serve sampleCrates variantTree) Server.empty plainReads).store.get? p = some entry →
      entry.Complete sampleCrates variantTree p :=
  responses_as_without_cache (by decide +kernel)

end WeaveGate.Static

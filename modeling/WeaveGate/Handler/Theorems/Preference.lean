import WeaveGate.Handler.Theorems
import WeaveGate.Static.Theorems.Formats

/-!
# The coding that a client prefers

The codings of compressed responses and of pre-compressed files against the weights that the client has sent. Codings
of weight zero stay in the sorted list, behind all others.
-/

namespace WeaveGate.Handler

open Http
open Posix (Path FileTree)
open Static (ContentCoding Line SendsLines ReadsQvalues elementsOf Honors Undisturbed hasVariant variantFor_negotiable
  gzipRefused acceptLine acceptLine_sends)

variable {crates : Crates} {headers : HeaderMap} {lines : List Line}

/-- A coding in which the server can compress. -/
def compresses (c : ContentCoding) : Bool := c ∈ availableEncodings

/-- Both choices follow the weights, whatever the order of the elements and wherever the lines end. -/
structure FollowsPreference (crates : Crates) (t : FileTree) (filePath : Path) (headers : HeaderMap)
    (lines : List Line) : Prop where
  encoding : Honors (elementsOf lines) compresses (getPreferredEncoding crates headers)
  variant : Honors (elementsOf lines) (hasVariant t filePath)
    ((Static.precompressedVariant crates.static t filePath headers).map (·.encoding))
  rearranged : ∀ headers' lines', SendsLines headers' lines' → (elementsOf lines').Perm (elementsOf lines) →
    getPreferredEncoding crates headers' = getPreferredEncoding crates headers ∧
      Static.precompressedVariant crates.static t filePath headers' =
        Static.precompressedVariant crates.static t filePath headers

/-! ## The two searches -/

theorem getPreferredEncoding_eq (headers : HeaderMap) : getPreferredEncoding crates headers =
    (Static.sortedEncodings crates.static headers).bind (·.findSome? (Option.guard compresses)) :=
  Option.bind_congr fun encodings _ => encodings.find?_eq_findSome?_guard

theorem guard_negotiable (c : ContentCoding) (h : (Option.guard compresses c).isSome = true) :
    c ∈ Static.negotiable := by
  rw [Option.isSome_guard] at h
  cases c <;> revert h <;> decide

/-- The weights are followed exactly where the first accepted coding is not overtaken in reading, and where no
named coding is refused without another one to take its place. -/
theorem followsPreference_iff (laws : ReadsQvalues crates.static) (h : SendsLines headers lines) (t : FileTree)
    (filePath : Path) : FollowsPreference crates t filePath headers lines ↔
      Undisturbed (elementsOf lines) compresses ∧ Undisturbed (elementsOf lines) (hasVariant t filePath) := by
  have hencoding : Honors (elementsOf lines) compresses (getPreferredEncoding crates headers) ↔
      Undisturbed (elementsOf lines) compresses := by
    have hsearch := Static.honors_search_iff laws h guard_negotiable fun c g hg =>
      (Option.guard_eq_some_iff.mp hg).1.symm
    simp only [Option.isSome_guard, ← getPreferredEncoding_eq] at hsearch
    rwa [Option.map_id'] at hsearch
  have hvariant : Honors (elementsOf lines) (hasVariant t filePath)
      ((Static.precompressedVariant crates.static t filePath headers).map (·.encoding)) ↔
      Undisturbed (elementsOf lines) (hasVariant t filePath) :=
    Static.honors_search_iff laws h (variantFor_negotiable t filePath) fun c v hv => (Static.variantFor_eq_some hv).1
  constructor
  · exact fun hfollows => ⟨hencoding.mp hfollows.encoding, hvariant.mp hfollows.variant⟩
  · rintro ⟨hkept, hkept'⟩
    refine ⟨hencoding.mpr hkept, hvariant.mpr hkept', fun headers' lines' h' hperm => ⟨?_, ?_⟩⟩
    · rw [getPreferredEncoding_eq, getPreferredEncoding_eq]
      exact Static.search_congr laws h' h (fun e => hperm.mem_iff) guard_negotiable
    · exact Static.search_congr laws h' h (fun e => hperm.mem_iff) (variantFor_negotiable t filePath)

def readingCrates : Crates := { sampleCrates with static := Static.readingCrates }

/-- `gzip;q=0.506,br;q=0.505` -/
def gzipBeforeBrotli : Line :=
  Static.lineOf (Static.weighted "gzip".toList Static.isToken_gzip [5, 0, 6] (by decide))
    [Static.weighted "br".toList Static.isToken_br [5, 0, 5] (by decide)]

/-- A refused coding is chosen, and of two codings the one of smaller weight. -/
theorem chooses_refused :
    getPreferredEncoding readingCrates (acceptLine gzipRefused) = some .gzip ∧
    (∀ e ∈ elementsOf [gzipRefused], e.q = 0) ∧
    ¬ FollowsPreference readingCrates Static.linkedIndex [] (acceptLine gzipRefused) [gzipRefused] ∧
    getPreferredEncoding readingCrates (acceptLine gzipBeforeBrotli) = some .brotli ∧
    ¬ FollowsPreference readingCrates Static.linkedIndex [] (acceptLine gzipBeforeBrotli) [gzipBeforeBrotli] := by
  have hgzip : getPreferredEncoding readingCrates (acceptLine gzipRefused) = some .gzip := by decide +kernel
  have hbrotli : getPreferredEncoding readingCrates (acceptLine gzipBeforeBrotli) = some .brotli := by decide +kernel
  refine ⟨hgzip, by decide, fun h => ?_, hbrotli, fun h => ?_⟩
  · have hhonors := h.encoding
    rw [hgzip] at hhonors
    obtain ⟨e, he, hc⟩ := Static.LeadsAsSent.accepted hhonors
    have hall : ∀ e ∈ elementsOf [gzipRefused], ¬ 0 < e.q := by decide
    exact hall e he (Static.Element.acceptedCoding_eq_some.mp hc).1
  · have hhonors := h.encoding
    rw [hbrotli] at hhonors
    obtain ⟨_, b, hb, hc, hfirst⟩ := hhonors
    have hranks := hfirst _ (List.mem_cons_self : _ ∈ elementsOf [gzipBeforeBrotli]) .gzip (by decide) (by decide)
    have hq : ∀ b ∈ elementsOf [gzipBeforeBrotli], b.acceptedCoding = some .brotli → b.q = 505 := by decide
    rw [hq b hb hc] at hranks
    revert hranks
    decide

theorem followsPreference_iff_gzip :
    FollowsPreference readingCrates Static.linkedIndex [] (acceptLine gzipBeforeBrotli) [gzipBeforeBrotli] ↔
      Undisturbed (elementsOf [gzipBeforeBrotli]) compresses ∧
        Undisturbed (elementsOf [gzipBeforeBrotli]) (hasVariant Static.linkedIndex []) :=
  followsPreference_iff Static.readingCrates_reads (acceptLine_sends gzipBeforeBrotli) Static.linkedIndex []

end WeaveGate.Handler

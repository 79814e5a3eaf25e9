import WeaveGate.Handler.Lemmas.Auth
import WeaveGate.Handler.Theorems.Head
import WeaveGate.Static.Theorems.SharedCache

/-!
# Hosts that share a server

What a client of one virtual host is answered does not depend on the files of the others, nor on what the memory cache
holds of them.
-/

namespace WeaveGate.Handler

open Http Settings
open Posix (Canon FileTree)
open Static (Body)

variable {crates : Crates} {w w' : World} {opts : RequestHandlerOpts} {remoteIp : Option Str} {req : Request Body}

/-- The files of the host and their entries in the cache are the same. -/
structure World.SameHost (w w' : World) (root : Posix.Path) : Prop where
  served : Static.SameServed w.tree w'.tree root
  store : ∀ p, Posix.Below root p → w'.store.get? p = w.store.get? p

/-- Whatever the static handler is called for, it is for the files of one host. -/
def ServedAlike (crates : Crates) (opts : RequestHandlerOpts) (remoteIp : Option Str) (req : Request Body) (w w' : World) :
    Prop :=
  ∀ call, (handle crates w opts remoteIp req).staticCall = some call → World.SameHost w w' call.basePath

theorem fileCall_eq_of_acceptMarkdown (crates : Crates) (w w' : World) (req : Request Body)
    (h : opts.acceptMarkdown = false) :
    fileCall crates w' opts req = fileCall crates w opts req ∧
      markdownPath crates w' opts req = markdownPath crates w opts req := by
  have hnone : ∀ w, markdownPath crates w opts req = none := fun w => by simp [markdownPath, h]
  rw [fileCall, fileCall, hnone, hnone]
  exact ⟨rfl, rfl⟩

theorem serveStatic_sameHost (hpages : World.SamePages opts w w') (hmarkdown : opts.acceptMarkdown = false)
    (hindex : ∀ index ∈ opts.indexFiles, ∃ n, index = [.normal n])
    (h : World.SameHost w w' (fileCall crates w opts req).basePath) :
    serveStatic crates w' opts req = serveStatic crates w opts req := by
  obtain ⟨hcall, hpath⟩ := fileCall_eq_of_acceptMarkdown crates w w' req hmarkdown
  rw [serveStatic_eq, serveStatic_eq, hcall, hpath, Static.handle_agree h.served hindex h.store, hpages.errorPage_eq]

/-- The answer is the same, and so is an archive that is sent with it. -/
theorem hosts_isolated (hstages : World.SameStages opts w w') (hmarkdown : opts.acceptMarkdown = false)
    (hindex : ∀ index ∈ opts.indexFiles, ∃ n, index = [.normal n]) (h : ServedAlike crates opts remoteIp req w w') :
    handle crates w' opts remoteIp req = handle crates w opts remoteIp req ∧
      ∀ call r job n, (handle crates w opts remoteIp req).staticCall = some call →
        Static.handle crates.static w.tree w.store call = .ok r → r.resp.body = .archive job →
          Static.archive w'.tree job n = Static.archive w.tree job n := by
  unfold ServedAlike at h
  rw [handle_eq_beforeFiles, handle_eq_beforeFiles, hstages.beforeFiles_eq]
  rw [handle_eq_beforeFiles] at h
  rcases beforeFiles_cases crates w opts remoteIp req with ⟨outcome, houtcome, hnone⟩ | ⟨req', hreach⟩
  · rw [houtcome]
    exact ⟨rfl, fun call _ _ _ hcall => absurd (hnone.symm.trans hcall) (Option.some_ne_none call).symm⟩
  · rw [beforeFiles_of_reachesFiles hreach] at h ⊢
    refine ⟨serveStatic_sameHost hstages.toSamePages hmarkdown hindex (h _ rfl), fun call r job n hcall hr hjob => ?_⟩
    have hserved := (h call hcall).served
    cases hcall
    exact Static.archive_agree hserved.below (Static.handle_archive_below hserved hindex hr hjob) n

def twoHosts (edited : Bool) : World := { sampleWorld with tree := Static.sharedTree edited }

def hostedOpts : RequestHandlerOpts :=
  let virtualHosts : List VirtualHosts := ["a", "b"].map fun host => ⟨host.toList, Static.hostRoot host⟩
  { plainOpts with advancedOpts := some { Proxy.sampleAdvanced [] with virtualHosts := some virtualHosts } }

def hostedRequest (host : String) : Request Body :=
  { method := .get, uri := ⟨none, none, PathAndQuery.parse "/page.html".toList⟩, headers := [(.host, Static.named host)]
    body := .empty }

theorem twoHosts_sameHost : World.SameHost (twoHosts false) (twoHosts true) (Static.hostRoot "a") where
  served :=
    { below := by
        have hsame : (Static.sharedTree false).SameFiles (Static.sharedTree true) [Static.named "srv", Static.named "a"] :=
          .of_nodes rfl (by decide)
        exact hsame.agreeBelow rfl rfl
      isDir := by decide
      beside := by decide }
  store _ _ := rfl

/-- The page of one host is edited, and only its own clients see it. -/
theorem hosts_isolated_edited :
    handle sampleCrates (twoHosts true) hostedOpts none (hostedRequest "a") =
      handle sampleCrates (twoHosts false) hostedOpts none (hostedRequest "a") ∧
    handle sampleCrates (twoHosts true) hostedOpts none (hostedRequest "b") ≠
      handle sampleCrates (twoHosts false) hostedOpts none (hostedRequest "b") := by
  have hcall : (handle sampleCrates (twoHosts false) hostedOpts none (hostedRequest "a")).staticCall.map (·.basePath) =
      some (Static.hostRoot "a") := by decide +kernel
  have halike : ServedAlike sampleCrates hostedOpts none (hostedRequest "a") (twoHosts false) (twoHosts true) := by
    intro call hmade
    rw [hmade] at hcall
    have hroot : call.basePath = Static.hostRoot "a" := Option.some.inj hcall
    rw [hroot]
    exact twoHosts_sameHost
  have hstages : World.SameStages hostedOpts (twoHosts false) (twoHosts true) :=
    { page404 := rfl, page50x := rfl, ticket := rfl, permits := rfl, metrics := rfl, maintenance := rfl
      maintenanceFile := rfl }
  refine ⟨(hosts_isolated hstages rfl (List.forall_mem_nil _) halike).1, fun heq => ?_⟩
  have hnew : (handle sampleCrates (twoHosts true) hostedOpts none (hostedRequest "b")).result.toOption.bind
      (·.body.bytes) = some (Static.named "new") := by decide +kernel
  have hold : (handle sampleCrates (twoHosts false) hostedOpts none (hostedRequest "b")).result.toOption.bind
      (·.body.bytes) = some (Static.named "old") := by decide +kernel
  rw [heq, hold] at hnew
  exact absurd hnew (by decide)

end WeaveGate.Handler

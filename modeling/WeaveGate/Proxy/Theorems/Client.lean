import WeaveGate.Proxy.Client
import WeaveGate.Settings.Theorems.Parse
import WeaveGate.Static.Theorems.Access

/-!
# Whom the clients trust
-/

namespace WeaveGate.Proxy

open Http Settings
open Posix (FileTree Octets Path)

variable {crates : PemCrates} {t : FileTree} {home : Option Octets}

/-! ## Loading -/

/-- A file with certificates, all of which are trust anchors. -/
structure HoldsAnchors (crates : PemCrates) (t : FileTree) (path : Path) (ders : List Octets) : Prop where
  certs : ∃ content, (t.open path).toOption.bind FileTree.OpenFile.content = some content ∧
    crates.certs content = some ders
  nonempty : ders ≠ []
  accepted : ∀ der ∈ ders, crates.accepts der = true

theorem foldlM_addCertificate {ders : List Octets} {roots roots' : RootCertStore} :
    ders.foldlM (addCertificate crates) roots = .ok roots' ↔
      (∀ der ∈ ders, crates.accepts der = true) ∧ roots' = { roots with added := roots.added ++ ders } := by
  induction ders generalizing roots with
  | nil =>
      rw [List.foldlM_nil, Checked.pure_eq_ok, List.append_nil]
      exact ⟨fun h => ⟨by simp, h.symm⟩, fun h => h.2.symm⟩
  | cons der ders ih =>
      rw [List.foldlM_cons, Checked.bind_eq_ok]
      unfold addCertificate
      by_cases haccepts : crates.accepts der = true
      · rw [if_pos haccepts]
        constructor
        · rintro ⟨_, hroots, h⟩
          cases hroots
          obtain ⟨hall, hroots'⟩ := ih.mp h
          refine ⟨List.forall_mem_cons.mpr ⟨haccepts, hall⟩, ?_⟩
          rw [hroots', List.append_assoc]
          rfl
        · rintro ⟨hall, hroots'⟩
          refine ⟨_, rfl, ih.mpr ⟨fun d hd => hall d (List.mem_cons_of_mem _ hd), ?_⟩⟩
          rw [hroots', List.append_assoc]
          rfl
      · rw [if_neg haccepts]
        refine iff_of_false (fun ⟨_, h, _⟩ => by cases h) fun h => haccepts (h.1 der List.mem_cons_self)

theorem loadPemCaFile_eq_ok {path : Path} {roots roots' : RootCertStore} :
    loadPemCaFile crates t roots path = .ok roots' ↔
      ∃ ders, HoldsAnchors crates t path ders ∧ roots' = { roots with added := roots.added ++ ders } := by
  unfold loadPemCaFile
  constructor
  · intro h
    split at h
    · cases h
    · rename_i content hcontent
      split at h
      · cases h
      · cases h
      · rename_i der ders hders
        obtain ⟨hall, hroots'⟩ := foldlM_addCertificate.mp h
        exact ⟨_, ⟨⟨content, hcontent, hders⟩, List.cons_ne_nil _ _, hall⟩, hroots'⟩
  · rintro ⟨ders, ⟨⟨content, hcontent, hders⟩, hne, hall⟩, hroots'⟩
    obtain ⟨der, rest, rfl⟩ := List.exists_cons_of_ne_nil hne
    simp only [hcontent, hders]
    exact foldlM_addCertificate.mpr ⟨hall, hroots'⟩

theorem foldlM_loadPemCaFile {paths : List Path} {roots roots' : RootCertStore} :
    paths.foldlM (loadPemCaFile crates t) roots = .ok roots' ↔
      ∃ files, List.Forall₂ (HoldsAnchors crates t) paths files ∧
        roots' = { roots with added := roots.added ++ files.flatten } := by
  induction paths generalizing roots with
  | nil =>
      rw [List.foldlM_nil, Checked.pure_eq_ok]
      constructor
      · rintro rfl
        exact ⟨[], .nil, by rw [List.flatten_nil, List.append_nil]⟩
      · rintro ⟨_, hfiles, hroots'⟩
        cases hfiles
        rw [hroots', List.flatten_nil, List.append_nil]
  | cons path paths ih =>
      rw [List.foldlM_cons, Checked.bind_eq_ok]
      constructor
      · rintro ⟨_, hpath, h⟩
        obtain ⟨ders, hders, rfl⟩ := loadPemCaFile_eq_ok.mp hpath
        obtain ⟨files, hfiles, hroots'⟩ := ih.mp h
        refine ⟨ders :: files, .cons hders hfiles, ?_⟩
        rw [hroots', List.flatten_cons, List.append_assoc]
      · rintro ⟨_, hfiles, hroots'⟩
        cases hfiles with
        | cons hders hfiles =>
            refine ⟨_, loadPemCaFile_eq_ok.mpr ⟨_, hders, rfl⟩, ih.mpr ⟨_, hfiles, ?_⟩⟩
            rw [hroots', List.flatten_cons, List.append_assoc]

/-! ## Trust -/

/-- Public roots unless the file switches them off, the certificates of its files, and never nobody. -/
structure TrustsAsTold (crates : PemCrates) (t : FileTree) (home : Option Octets) (file : Option File.ProxyTls)
    (roots : RootCertStore) : Prop where
  webpki : roots.webpkiRoots = true ↔ ∀ tls, file = some tls → tls.disableWebpkiRoots ≠ some true
  added : ∃ files, roots.added = files.flatten ∧ List.Forall₂
    (fun text ders => ∃ path, expandTlsPath home text = .ok path ∧ HoldsAnchors crates t path ders)
    ((file.map caPaths).getD []) files
  nonempty : roots.isEmpty = false

theorem forall₂_comp {α β γ : Type} {R : α → β → Prop} {S : β → γ → Prop} {xs : List α} {ys : List β} {zs : List γ}
    (h : List.Forall₂ R xs ys) (h' : List.Forall₂ S ys zs) : List.Forall₂ (fun x z => ∃ y, R x y ∧ S y z) xs zs := by
  induction h generalizing zs with
  | nil =>
      cases h'
      exact .nil
  | cons hxy _ ih =>
      cases h' with
      | cons hyz h' => exact .cons ⟨_, hxy, hyz⟩ (ih h')

theorem exists_forall₂ {α β : Type} {R : α → β → Prop} {xs : List α} (h : ∀ x ∈ xs, ∃ y, R x y) :
    ∃ ys, List.Forall₂ R xs ys := by
  induction xs with
  | nil => exact ⟨[], .nil⟩
  | cons x xs ih =>
      obtain ⟨⟨y, hy⟩, hxs⟩ := List.forall_mem_cons.mp h
      obtain ⟨ys, hys⟩ := ih hxs
      exact ⟨y :: ys, .cons hy hys⟩

theorem isEmpty_eq_false_of_files {paths : List Path} {files : List (List Octets)} (hne : paths ≠ [])
    (h : List.Forall₂ (HoldsAnchors crates t) paths files) (webpkiRoots : Bool) :
    ({ webpkiRoots, added := files.flatten } : RootCertStore).isEmpty = false := by
  cases h with
  | nil => exact absurd rfl hne
  | cons hders _ => simp [RootCertStore.isEmpty, hders.nonempty]

/-- A connector that is built trusts what the file tells it to. -/
theorem trustsAsTold_of_build {file : Option File.ProxyTls} {tls : ProxyTlsSettings} {roots : RootCertStore}
    (htls : proxyTls t home file = .ok tls) (h : buildHttpsConnector crates t tls = .ok roots) :
    TrustsAsTold crates t home file roots := by
  rw [proxyTls_eq_ok] at htls
  unfold buildHttpsConnector at h
  split at h
  · rename_i hnone
    cases h
    cases file with
    | none => exact ⟨iff_of_true rfl (fun _ h => by cases h), ⟨[], rfl, .nil⟩, rfl⟩
    | some file =>
        have hpaths : caPaths file = [] := by
          have hlength := htls.files.length_eq
          rw [hnone] at hlength
          exact List.length_eq_zero_iff.mp hlength
        refine ⟨iff_of_true rfl ?_, ⟨[], rfl, ?_⟩, rfl⟩
        · rintro _ ⟨⟩ hdisabled
          exact htls.anchored hdisabled hnone
        · rw [Option.map_some, Option.getD_some, hpaths]
          exact .nil
  · rename_i hsome
    cases file with
    | none =>
        rw [htls] at hsome
        exact absurd rfl hsome
    | some file =>
        obtain ⟨roots', hload, h⟩ := Checked.bind_eq_ok.mp h
        obtain ⟨files, hfiles, rfl⟩ := foldlM_loadPemCaFile.mp hload
        split at h
        · cases h
        · cases h
          refine ⟨htls.roots.trans (by simp), ⟨files, List.nil_append _, ?_⟩, ?_⟩
          · exact (forall₂_comp htls.files hfiles).imp fun text ders h => by
              obtain ⟨path, ⟨hexpand, _⟩, hders⟩ := h
              exact ⟨path, hexpand, hders⟩
          · rw [List.nil_append]
            exact isEmpty_eq_false_of_files hsome hfiles _

/-- A connector is built when every file of the settings holds anchors. -/
theorem buildHttpsConnector_isOk_iff {tls : ProxyTlsSettings} : (∃ roots, buildHttpsConnector crates t tls = .ok roots) ↔
    ∀ path ∈ tls.caFiles, ∃ ders, HoldsAnchors crates t path ders := by
  unfold buildHttpsConnector
  by_cases hnone : tls.caFiles = []
  · rw [if_pos hnone, hnone]
    exact iff_of_true ⟨_, rfl⟩ fun _ h => by cases h
  · rw [if_neg hnone]
    constructor
    · rintro ⟨_, hroots⟩ path hpath
      obtain ⟨_, hload, _⟩ := Checked.bind_eq_ok.mp hroots
      obtain ⟨files, hfiles, _⟩ := foldlM_loadPemCaFile.mp hload
      obtain ⟨ders, _, hders⟩ := Checked.exists_right hfiles hpath
      exact ⟨ders, hders⟩
    · intro hall
      obtain ⟨files, hfiles⟩ := exists_forall₂ hall
      have hload : tls.caFiles.foldlM (loadPemCaFile crates t) { webpkiRoots := tls.useWebpkiRoots, added := [] } =
          .ok { webpkiRoots := tls.useWebpkiRoots, added := [] ++ files.flatten } :=
        foldlM_loadPemCaFile.mpr ⟨files, hfiles, rfl⟩
      refine ⟨_, Checked.bind_eq_ok.mpr ⟨_, hload, if_neg ?_⟩⟩
      rw [List.nil_append, isEmpty_eq_false_of_files hnone hfiles]
      exact Bool.false_ne_true

theorem buildHttpsConnector_isOk_iff_texts {file : Option File.ProxyTls} {tls : ProxyTlsSettings}
    (htls : proxyTls t home file = .ok tls) :
    (∃ roots, buildHttpsConnector crates t tls = .ok roots) ↔ ∀ text ∈ (file.map caPaths).getD [],
      ∃ path ders, expandTlsPath home text = .ok path ∧ HoldsAnchors crates t path ders := by
  constructor
  · rintro ⟨roots, hroots⟩ text htext
    obtain ⟨files, _, hfiles⟩ := (trustsAsTold_of_build htls hroots).added
    obtain ⟨ders, _, path, hpath, hders⟩ := Checked.exists_right hfiles htext
    exact ⟨path, ders, hpath, hders⟩
  · intro hall
    refine buildHttpsConnector_isOk_iff.mpr fun path hpath => ?_
    rw [proxyTls_eq_ok] at htls
    cases file with
    | none =>
        rw [htls] at hpath
        cases hpath
    | some file =>
        obtain ⟨text, htext, hexpand, _⟩ := Checked.exists_left htls.files hpath
        obtain ⟨path', ders, hexpand', hders⟩ := hall text htext
        cases hexpand.symm.trans hexpand'
        exact ⟨ders, hders⟩

/-! ## Both clients -/

structure ClientsTrust (crates : PemCrates) (t : FileTree) (home : Option Octets) (file : Option File.ProxyTls)
    (settings : ClientSettings) : Prop where
  proxy : ∀ config, buildProxyClient crates t settings = .ok config → TrustsAsTold crates t home file config.roots
  bootstrap : ∀ config, buildBootstrapClient crates t settings.tls = .ok config →
    TrustsAsTold crates t home file config.roots
  proxyBuilds : (∃ config, buildProxyClient crates t settings = .ok config) ↔ ∀ text ∈ (file.map caPaths).getD [],
    ∃ path ders, expandTlsPath home text = .ok path ∧ HoldsAnchors crates t path ders
  bootstrapBuilds : (∃ config, buildBootstrapClient crates t settings.tls = .ok config) ↔
    ∃ config, buildProxyClient crates t settings = .ok config

theorem clientsTrust_of_proxyTls {file : Option File.ProxyTls} {settings : ClientSettings}
    (htls : proxyTls t home file = .ok settings.tls) : ClientsTrust crates t home file settings := by
  have hbuilds {α : Type} (config : RootCertStore → α) :
      (∃ c, (do let roots ← buildHttpsConnector crates t settings.tls; return config roots) = (.ok c : Except Error α)) ↔
        ∃ roots, buildHttpsConnector crates t settings.tls = .ok roots := by
    simp only [Checked.bind_eq_ok, Checked.pure_eq_ok]
    constructor
    · rintro ⟨_, roots, hroots, _⟩
      exact ⟨roots, hroots⟩
    · rintro ⟨roots, hroots⟩
      exact ⟨_, roots, hroots, rfl⟩
  refine ⟨fun config h => ?_, fun config h => ?_, ?_, ?_⟩
  · obtain ⟨roots, hroots, h⟩ := Checked.bind_eq_ok.mp h
    cases h
    exact trustsAsTold_of_build htls hroots
  · obtain ⟨roots, hroots, h⟩ := Checked.bind_eq_ok.mp h
    cases h
    exact trustsAsTold_of_build htls hroots
  · exact (hbuilds _).trans (buildHttpsConnector_isOk_iff_texts htls)
  · exact (hbuilds _).trans (hbuilds _).symm

/-- With the settings of a file, the clients trust what the file tells them to, or are not built. -/
theorem clients_trust {parse : ParseCrates} {logInit : Bool} {opts : General} {settings : WeaveGate.Settings}
    {adv : Advanced} {client : ClientSettings} (h : parseFrom parse t home logInit opts = .ok settings)
    (hadv : settings.advanced = some (adv, client)) (crates : PemCrates) :
    ∃ path resolved file options, UsesFile t opts path ∧ HoldsSettings parse.toml t path file resolved ∧
      file.advanced = some options ∧ ClientsTrust crates t home options.proxyTls client := by
  obtain ⟨path, resolved, file, options, uses, holds, hfile, hread⟩ := (reads_of_parseFrom h).exists_file hadv
  exact ⟨path, resolved, file, options, uses, holds, hfile, clientsTrust_of_proxyTls (proxyTls_eq_ok.mpr hread.tls)⟩

/-- A file that trusts its own certificate only. -/
def ownCaOptions : File.Advanced :=
  { headers := none, rewrites := none, redirects := none, virtualHosts := none, proxies := none, routesBootstrap := none
    proxyTls := some { caFile := some "ca.pem".toList, caFiles := none, disableWebpkiRoots := some true }
    proxyPoolMaxIdlePerHost := none, proxyPoolIdleTimeoutSecs := none, proxyFirst := none, maxUpgradeTunnels := none
    memoryCache := none }

def ownCaTree : FileTree :=
  { nodes :=
      [ ([], Static.sampleDir [Static.named "weavegate.toml", Static.named "ca.pem"]),
        ([Static.named "weavegate.toml"], Static.sampleFile (Static.named "own")),
        ([Static.named "ca.pem"], Static.sampleFile (Static.named "root")) ]
    cwd := [], symloopMax := 40, wf := by decide }

def ownCaCrates : ParseCrates :=
  { toml := { Value := FileSettings, fromStr := fun text => if text = "own".toList then some ⟨none, some ownCaOptions⟩ else none
              deserialize := some }
    patterns := Settings.sampleCrates, globAccepts := fun _ => true
    logger := ⟨File.LogLevel, id, fun s => [File.LogLevel.error, .warn, .info, .debug, .trace].find? (·.name = s), fun _ _ => true⟩ }

def ownCaPem : PemCrates := { certs := fun content => some [content], accepts := fun _ => true }

def ownCaAdvanced : Advanced × ClientSettings :=
  ({ headers := none, rewrites := none, redirects := none, virtualHosts := none, proxies := none, proxyDefs := none
     routesBootstrap := none, proxySettings := ⟨false, none⟩, memoryCache := none },
    { poolMaxIdlePerHost := 32, poolIdleTimeoutSecs := 90, tls := ⟨[pathOf "ca.pem"], false⟩ })

def ownCaPath : Path := Posix.canonPath [Static.named "weavegate.toml"]

theorem ownCa_holds : HoldsSettings ownCaCrates.toml ownCaTree (pathOf "./weavegate.toml") ⟨none, some ownCaOptions⟩
    ownCaPath :=
  ⟨⟨[Static.named "weavegate.toml"], by decide +kernel, rfl⟩, by decide +kernel, Static.named "own", "own".toList,
    ⟨none, some ownCaOptions⟩, by decide +kernel, by decide +kernel, rfl, rfl⟩

theorem ownCa_reads : ReadsSettings ownCaCrates ownCaTree none true .default
    ⟨{ General.default with configFile := ownCaPath }, some ownCaAdvanced⟩ := by
  refine .file (.found [] _ rfl (by decide +kernel) (by simp)) ownCa_holds rfl (fun _ => ⟨File.LogLevel.error, rfl, rfl⟩) ?_
  exact ⟨trivial, trivial, trivial, ⟨.cons ⟨by decide +kernel, by decide +kernel⟩ .nil, by decide, fun _ => by decide⟩,
    ⟨none, trivial, rfl⟩, ⟨rfl, rfl, rfl⟩, rfl, rfl, rfl, rfl⟩

theorem clients_trust_ownCa : ∃ path resolved file options, UsesFile ownCaTree .default path ∧
    HoldsSettings ownCaCrates.toml ownCaTree path file resolved ∧ file.advanced = some options ∧
      ClientsTrust ownCaPem ownCaTree none options.proxyTls ownCaAdvanced.2 :=
  clients_trust (parseFrom_of_reads ownCa_reads) rfl ownCaPem

end WeaveGate.Proxy

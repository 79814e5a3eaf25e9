import WeaveGate.Lib.Checked
import WeaveGate.Settings.Parse
import WeaveGate.Settings.Theorems.Patterns

/-!
# Which configurations are accepted

What each part of the configuration file has to be, and what the settings make of it.
-/

namespace WeaveGate.Settings

open Http
open Posix (FileTree Octets Path)

variable {crates : ParseCrates} {t : FileTree} {home : Option Octets}

theorem withContext_eq_ok {α : Type} {text : String} {x : Option α} {a : α} :
    withContext text x = .ok a ↔ x = some a := by
  cases x <;> simp [withContext]

/-- An optional list of entries, each of them turned into what the settings hold. -/
theorem entries_eq_ok {α β γ : Type} {f : α → Except Error β} {g : List β → γ} {xs : List α} {out : Option γ} :
    (do let ys ← xs.mapM f; return some (g ys)) = (.ok out : Except Error (Option γ)) ↔
      ∃ ys, List.Forall₂ (fun x y => f x = .ok y) xs ys ∧ out = some (g ys) := by
  simp only [Checked.bind_eq_ok, Checked.mapM_eq_ok, Checked.pure_eq_ok]
  constructor
  · rintro ⟨ys, hys, hout⟩
    exact ⟨ys, hys, hout.symm⟩
  · rintro ⟨ys, hys, hout⟩
    exact ⟨ys, hys, hout.symm⟩

/-! ## Patterns -/

/-- The glob and the regular expression that is derived from it compile. -/
structure DerivesRegex (C : PatternCrates) (source : Str) (regex : Regex) : Prop where
  glob : C.globs.accepts source = true
  expression : C.regexAccepts (regexEquivalent (C.globRegex ⟨source⟩)) = true
  pattern : regex = ⟨regexEquivalent (C.globRegex ⟨source⟩)⟩

theorem compileSource_eq_ok {C : PatternCrates} {option source : Str} {regex : Regex} :
    compileSource C option source = .ok regex ↔ DerivesRegex C source regex := by
  unfold compileSource
  constructor
  · intro h
    split at h
    · rename_i hglob
      dsimp only at h
      split at h
      · rename_i hregex
        exact ⟨hglob, hregex, (Except.ok.inj h).symm⟩
      · cases h
    · cases h
  · rintro ⟨hglob, hregex, rfl⟩
    rw [if_pos hglob]
    exact if_pos hregex

structure ReadsRewrite (C : PatternCrates) (entry : RewritesEntry) (rewrite : Rewrites) : Prop where
  source : DerivesRegex C entry.source rewrite.source
  destination : rewrite.destination = entry.destination
  redirect : rewrite.redirect = entry.redirect

theorem compileRewrite_eq_ok {C : PatternCrates} {entry : RewritesEntry} {rewrite : Rewrites} :
    compileRewrite C entry = .ok rewrite ↔ ReadsRewrite C entry rewrite := by
  unfold compileRewrite
  simp only [Checked.bind_eq_ok, compileSource_eq_ok, Checked.pure_eq_ok]
  constructor
  · rintro ⟨regex, hregex, rfl⟩
    exact ⟨hregex, rfl, rfl⟩
  · rintro ⟨hregex, hdestination, hredirect⟩
    exact ⟨_, hregex, by rw [← hdestination, ← hredirect]⟩

structure ReadsRedirect (C : PatternCrates) (entry : RedirectsEntry) (redirect : Redirects) : Prop where
  host : redirect.host = entry.host
  source : DerivesRegex C entry.source redirect.source
  destination : redirect.destination = entry.destination
  kind : redirect.kind.code = entry.kind.asU16

theorem statusFromU16_eq_some {n : Nat} {status : StatusCode} : statusFromU16 n = some status ↔ status.code = n := by
  unfold statusFromU16
  constructor
  · intro h
    split at h
    · rw [← Option.some.inj h]
    · cases h
  · rintro rfl
    rw [dif_pos status.valid]

theorem compileRedirect_eq_ok {C : PatternCrates} {entry : RedirectsEntry} {redirect : Redirects} :
    compileRedirect C entry = .ok redirect ↔ ReadsRedirect C entry redirect := by
  obtain ⟨status, hstatus⟩ := statusFromU16_asU16 entry.kind
  have hcode := statusFromU16_eq_some.mp hstatus
  unfold compileRedirect
  simp only [Checked.bind_eq_ok, compileSource_eq_ok, hstatus, Checked.pure_eq_ok]
  constructor
  · rintro ⟨regex, hregex, rfl⟩
    exact ⟨rfl, hregex, rfl, hcode⟩
  · rintro ⟨hhost, hregex, hdestination, hkind⟩
    have hkind : status = redirect.kind := Option.some.inj (hstatus.symm.trans (statusFromU16_eq_some.mpr hkind))
    exact ⟨_, hregex, by rw [hkind, ← hhost, ← hdestination]⟩

theorem compileHeaders_eq_ok {entry : File.Headers} {headers : Headers} :
    compileHeaders crates entry = .ok headers ↔
      crates.globAccepts entry.source = true ∧ headers = ⟨⟨entry.source⟩, entry.headers⟩ := by
  unfold compileHeaders
  split
  · rename_i haccepts
    simp [haccepts, eq_comm]
  · rename_i hno
    simp [hno]

/-! ## Trust settings -/

/-- Every file is there, and without the public roots there has to be one. -/
structure ReadsTls (t : FileTree) (home : Option Octets) (file : File.ProxyTls) (tls : ProxyTlsSettings) : Prop where
  files : List.Forall₂ (fun text path => expandTlsPath home text = .ok path ∧ t.isFile path = true) (caPaths file)
    tls.caFiles
  roots : tls.useWebpkiRoots = true ↔ file.disableWebpkiRoots ≠ some true
  anchored : file.disableWebpkiRoots = some true → tls.caFiles ≠ []

theorem fromFile_eq_ok {file : File.ProxyTls} {tls : ProxyTlsSettings} :
    ProxyTlsSettings.fromFile t home file = .ok tls ↔ ReadsTls t home file tls := by
  have hroots : (!file.disableWebpkiRoots.getD false) = true ↔ file.disableWebpkiRoots ≠ some true := by
    rcases file.disableWebpkiRoots with _ | _ | _ <;> simp
  unfold ProxyTlsSettings.fromFile
  simp only [Checked.bind_eq_ok, Checked.mapM_eq_ok]
  constructor
  · rintro ⟨caFiles, hcaFiles, h⟩
    split at h
    · cases h
    · rename_i hanchored
      split at h
      · cases h
      · rename_i hfiles
        cases h
        refine ⟨?_, hroots, fun hdisabled (hnil : caFiles = []) => hanchored ?_⟩
        · have hall : ∀ path ∈ caFiles, t.isFile path = true := by simpa using hfiles
          refine List.forall₂_iff_zip.mpr ⟨hcaFiles.length_eq, fun {text path} hmem => ?_⟩
          exact ⟨List.forall₂_iff_zip.mp hcaFiles |>.2 hmem, hall path (List.of_mem_zip hmem).2⟩
        · simp [hdisabled, hnil]
  · rintro ⟨hfiles, htls, hanchored⟩
    refine ⟨tls.caFiles, hfiles.imp fun _ _ h => h.1, ?_⟩
    rw [if_neg, if_neg]
    · congr 1
      rcases tls with ⟨caFiles, useWebpkiRoots⟩
      congr 1
      rw [Bool.eq_iff_iff, hroots]
      exact htls.symm
    · intro hmissing
      obtain ⟨path, hpath, hno⟩ := List.any_eq_true.mp hmissing
      obtain ⟨_, _, _, hfile⟩ := Checked.exists_left hfiles hpath
      simp [hfile] at hno
    · intro hnone
      obtain ⟨hdisabled, hnil⟩ := (Bool.and_eq_true _ _).mp hnone
      refine hanchored (not_not.mp fun hne => ?_) (of_decide_eq_true hnil)
      rw [hroots.mpr hne] at hdisabled
      cases hdisabled

/-! ## Virtual hosts -/

/-- The root of an entry that has one is a directory. -/
def ReadsVirtualHost (t : FileTree) (entry : File.VirtualHosts) (host : Option VirtualHosts) : Prop :=
  match entry.root with
  | none => host = none
  | some root => t.isDir root = true ∧ host = some ⟨entry.host, root⟩

theorem exists_of_isDir {path : Path} (h : t.isDir path = true) : t.exists path = true := by
  unfold FileTree.exists
  unfold FileTree.isDir at h
  cases hmeta : (t.metadata path).toOption with
  | none => rw [hmeta] at h; cases h
  | some inode => rfl

theorem getValidDirpath_eq_some {path path' : Path} :
    getValidDirpath t path = some path' ↔ t.isDir path = true ∧ path' = path := by
  unfold getValidDirpath
  constructor
  · intro h
    split at h
    · rename_i hdir
      exact ⟨((Bool.and_eq_true _ _).mp hdir).2, (Option.some.inj h).symm⟩
    · cases h
  · rintro ⟨hdir, rfl⟩
    rw [if_pos]
    rw [exists_of_isDir hdir, hdir]
    rfl

theorem virtualHost_eq_ok {entry : File.VirtualHosts} {host : Option VirtualHosts} :
    virtualHost t entry = .ok host ↔ ReadsVirtualHost t entry host := by
  unfold virtualHost ReadsVirtualHost
  cases entry.root with
  | none => simp [eq_comm]
  | some root =>
      simp only [Checked.bind_eq_ok, withContext_eq_ok, getValidDirpath_eq_some, Checked.pure_eq_ok]
      constructor
      · rintro ⟨_, ⟨hdir, rfl⟩, rfl⟩
        exact ⟨hdir, rfl⟩
      · rintro ⟨hdir, rfl⟩
        exact ⟨root, ⟨hdir, rfl⟩, rfl⟩

/-! ## Advanced options -/

/-- A section that is there is read entry by entry. -/
def ReadsSection {α β : Type} (R : α → β → Prop) (section? : Option (List α)) (read : Option (List β)) : Prop :=
  match section?, read with
  | none, none => True
  | some entries, some results => List.Forall₂ R entries results
  | _, _ => False

def ReadsHeaders (crates : ParseCrates) (entry : File.Headers) (headers : Headers) : Prop :=
  crates.globAccepts entry.source = true ∧ headers = ⟨⟨entry.source⟩, entry.headers⟩

structure ReadsAdvanced (crates : ParseCrates) (t : FileTree) (home : Option Octets) (file : File.Advanced)
    (adv : Advanced) (client : ClientSettings) : Prop where
  headers : ReadsSection (ReadsHeaders crates) file.headers adv.headers
  rewrites : ReadsSection (ReadsRewrite crates.patterns) file.rewrites adv.rewrites
  redirects : ReadsSection (ReadsRedirect crates.patterns) file.redirects adv.redirects
  tls : match file.proxyTls with
    | none => client.tls = .default
    | some tls => ReadsTls t home tls client.tls
  virtualHosts : ∃ hosts, ReadsSection (ReadsVirtualHost t) file.virtualHosts hosts ∧
    adv.virtualHosts = hosts.map List.reduceOption
  rules : adv.proxies = none ∧ adv.proxyDefs = file.proxies ∧ adv.routesBootstrap = file.routesBootstrap
  proxySettings : adv.proxySettings = ⟨file.proxyFirst.getD false, Proxy.maxUpgradeTunnels file.maxUpgradeTunnels⟩
  memoryCache : adv.memoryCache = file.memoryCache
  pool : client.poolMaxIdlePerHost = file.proxyPoolMaxIdlePerHost.getD 32 ∧
    client.poolIdleTimeoutSecs = file.proxyPoolIdleTimeoutSecs.getD 90

theorem readsSection_iff {α β γ : Type} (f : α → Except Error β) (R : α → β → Prop) (g : List β → γ)
    (hf : ∀ x y, f x = .ok y ↔ R x y) (section? : Option (List α)) (out : Option γ) :
    (match section? with
      | some xs => do let ys ← xs.mapM f; return some (g ys)
      | none => .ok none) = (.ok out : Except Error (Option γ)) ↔
      ∃ read, ReadsSection R section? read ∧ out = read.map g := by
  cases section? with
  | none =>
      constructor
      · intro h
        cases h
        exact ⟨none, trivial, rfl⟩
      · rintro ⟨read, hread, rfl⟩
        cases read with
        | none => rfl
        | some _ => exact hread.elim
  | some xs =>
      refine entries_eq_ok.trans ?_
      simp only [hf]
      constructor
      · rintro ⟨ys, hys, rfl⟩
        exact ⟨some ys, hys, rfl⟩
      · rintro ⟨read, hread, rfl⟩
        cases read with
        | none => exact hread.elim
        | some ys => exact ⟨ys, hread, rfl⟩

theorem readsSection_iff_id {α β : Type} (f : α → Except Error β) (R : α → β → Prop) (hf : ∀ x y, f x = .ok y ↔ R x y)
    (section? : Option (List α)) (out : Option (List β)) :
    (match section? with
      | some xs => do let ys ← xs.mapM f; return some ys
      | none => .ok none) = (.ok out : Except Error (Option (List β))) ↔ ReadsSection R section? out := by
  refine (readsSection_iff f R id hf section? out).trans ⟨?_, fun h => ⟨out, h, (Option.map_id_apply).symm⟩⟩
  rintro ⟨read, hread, rfl⟩
  rwa [Option.map_id]

theorem proxyTls_eq_ok {file : Option File.ProxyTls} {tls : ProxyTlsSettings} :
    proxyTls t home file = .ok tls ↔ match file with
      | none => tls = .default
      | some file => ReadsTls t home file tls := by
  cases file with
  | none => simp [proxyTls, eq_comm]
  | some file => exact fromFile_eq_ok

theorem headersEntries_eq_ok {file : Option (List File.Headers)} {out : Option (List Headers)} :
    headersEntries crates file = .ok out ↔ ReadsSection (ReadsHeaders crates) file out := by
  have h := readsSection_iff_id (compileHeaders crates) (ReadsHeaders crates) (fun _ _ => compileHeaders_eq_ok) file out
  cases file <;> exact h

theorem rewritesEntries_eq_ok {C : PatternCrates} {file : Option (List RewritesEntry)} {out : Option (List Rewrites)} :
    rewritesEntries C file = .ok out ↔ ReadsSection (ReadsRewrite C) file out := by
  have h := readsSection_iff_id (compileRewrite C) (ReadsRewrite C) (fun _ _ => compileRewrite_eq_ok) file out
  cases file <;> exact h

theorem redirectsEntries_eq_ok {C : PatternCrates} {file : Option (List RedirectsEntry)}
    {out : Option (List Redirects)} :
    redirectsEntries C file = .ok out ↔ ReadsSection (ReadsRedirect C) file out := by
  have h := readsSection_iff_id (compileRedirect C) (ReadsRedirect C) (fun _ _ => compileRedirect_eq_ok) file out
  cases file <;> exact h

theorem vhostsEntries_eq_ok {file : Option (List File.VirtualHosts)} {out : Option (List VirtualHosts)} :
    vhostsEntries t file = .ok out ↔
      ∃ hosts, ReadsSection (ReadsVirtualHost t) file hosts ∧ out = hosts.map List.reduceOption := by
  have h := readsSection_iff (virtualHost t) (ReadsVirtualHost t) List.reduceOption (fun _ _ => virtualHost_eq_ok) file out
  cases file <;> exact h

theorem advancedOptions_eq_ok {file : File.Advanced} {adv : Advanced} {client : ClientSettings} :
    advancedOptions crates t home file = .ok (adv, client) ↔ ReadsAdvanced crates t home file adv client := by
  unfold advancedOptions
  constructor
  · intro h
    obtain ⟨headers, h₁, h⟩ := Checked.bind_eq_ok.mp h
    obtain ⟨rewrites, h₂, h⟩ := Checked.bind_eq_ok.mp h
    obtain ⟨redirects, h₃, h⟩ := Checked.bind_eq_ok.mp h
    obtain ⟨tls, h₄, h⟩ := Checked.bind_eq_ok.mp h
    obtain ⟨hosts, h₅, h⟩ := Checked.bind_eq_ok.mp h
    cases h
    exact ⟨headersEntries_eq_ok.mp h₁, rewritesEntries_eq_ok.mp h₂, redirectsEntries_eq_ok.mp h₃, proxyTls_eq_ok.mp h₄,
      vhostsEntries_eq_ok.mp h₅, ⟨rfl, rfl, rfl⟩, rfl, rfl, rfl, rfl⟩
  · intro h
    refine Checked.bind_eq_ok.mpr ⟨_, headersEntries_eq_ok.mpr h.headers, ?_⟩
    refine Checked.bind_eq_ok.mpr ⟨_, rewritesEntries_eq_ok.mpr h.rewrites, ?_⟩
    refine Checked.bind_eq_ok.mpr ⟨_, redirectsEntries_eq_ok.mpr h.redirects, ?_⟩
    refine Checked.bind_eq_ok.mpr ⟨_, proxyTls_eq_ok.mpr h.tls, ?_⟩
    refine Checked.bind_eq_ok.mpr ⟨_, vhostsEntries_eq_ok.mpr h.virtualHosts, ?_⟩
    rw [Checked.pure_eq_ok, Prod.mk.injEq]
    obtain ⟨hproxies, hdefs, hbootstrap⟩ := h.rules
    constructor
    · rw [← hproxies, ← hdefs, ← hbootstrap, ← h.proxySettings, ← h.memoryCache]
    · rw [← h.pool.1, ← h.pool.2]

/-! ## The configuration file -/

/-- The file that is read is the first of four in the working directory, or else the one that is asked for. -/
inductive UsesFile (t : FileTree) (opts : General) (path : Path) : Prop where
  | found (before after : List Path) (names : configFileNames = before ++ path :: after) (isFile : t.isFile path = true)
      (first : ∀ p ∈ before, t.isFile p = false)
  | asked (isFile : t.isFile path = true) (path_eq : path = opts.configFile)
      (none : ∀ p ∈ configFileNames, t.isFile p = false)

theorem usesFile_iff {opts : General} {path : Path} :
    UsesFile t opts path ↔ configFileToUse t opts = path ∧ t.isFile path = true := by
  unfold configFileToUse
  constructor
  · intro h
    cases h with
    | found before after names isFile first =>
        refine ⟨?_, isFile⟩
        have hfind : configFileNames.find? t.isFile = some path :=
          List.find?_eq_some_iff_append.mpr ⟨isFile, before, after, names, fun p hp => by simp [first p hp]⟩
        rw [hfind]
        rfl
    | asked isFile path_eq none =>
        refine ⟨?_, isFile⟩
        have hfind : configFileNames.find? t.isFile = Option.none :=
          List.find?_eq_none.mpr fun p hp => by simp [none p hp]
        rw [hfind]
        exact path_eq.symm
  · rintro ⟨huse, hfile⟩
    cases hfind : configFileNames.find? t.isFile with
    | none =>
        rw [hfind] at huse
        exact .asked hfile huse.symm fun p hp => Bool.not_eq_true _ ▸ List.find?_eq_none.mp hfind p hp
    | some first =>
        rw [hfind] at huse
        cases huse
        obtain ⟨_, before, after, hnames, hbefore⟩ := List.find?_eq_some_iff_append.mp hfind
        exact .found before after hnames hfile fun p hp => by simpa using hbefore p hp

/-- It leads to a file with the extension `toml` that holds the settings as TOML. -/
structure HoldsSettings (toml : TomlCrates) (t : FileTree) (path : Path) (file : FileSettings) (resolved : Path) : Prop where
  leads : ∃ canon, t.canonicalize path = .ok canon ∧ resolved = Posix.canonPath canon
  extension : FileSettings.extension resolved = some (Posix.utf8 "toml".toList)
  content : ∃ content text value, (t.open resolved).toOption.bind FileTree.OpenFile.content = some content ∧
    Utf8.decode content = some text ∧ toml.fromStr text = some value ∧ toml.deserialize value = some file

theorem fileSettings_read_eq_ok {toml : TomlCrates} {path : Path} {file : FileSettings} :
    FileSettings.read toml t path = .ok file ↔ FileSettings.extension path = some (Posix.utf8 "toml".toList) ∧
      ∃ content text value, (t.open path).toOption.bind FileTree.OpenFile.content = some content ∧
        Utf8.decode content = some text ∧ toml.fromStr text = some value ∧ toml.deserialize value = some file := by
  unfold FileSettings.read
  by_cases hext : FileSettings.extension path = some (Posix.utf8 "toml".toList)
  · rw [if_neg (not_not.mpr hext)]
    simp only [Checked.bind_eq_ok, withContext_eq_ok, FileSettings.readTomlFile, FileSettings.readFile,
      Option.bind_eq_some_iff, hext, true_and]
    constructor
    · rintro ⟨value, ⟨text, ⟨opened, hopen, content, hcontent, htext⟩, hvalue⟩, hfile⟩
      exact ⟨content, text, value, ⟨opened, hopen, hcontent⟩, htext, hvalue, hfile⟩
    · rintro ⟨content, text, value, ⟨opened, hopen, hcontent⟩, htext, hvalue, hfile⟩
      exact ⟨value, ⟨text, ⟨opened, hopen, content, hcontent, htext⟩, hvalue⟩, hfile⟩
  · rw [if_pos hext]
    exact iff_of_false (fun h => by cases h) fun h => hext h.1

theorem readFileSettings_eq_ok {path : Path} {out : Option (FileSettings × Path)} :
    readFileSettings crates t path = .ok out ↔ match out with
      | none => t.isFile path = false
      | some (file, resolved) => t.isFile path = true ∧ HoldsSettings crates.toml t path file resolved := by
  unfold readFileSettings
  by_cases hfile : t.isFile path = true
  · rw [if_pos hfile]
    simp only [Checked.bind_eq_ok, withContext_eq_ok, Checked.toOption_eq_some, fileSettings_read_eq_ok,
      Checked.pure_eq_ok]
    constructor
    · rintro ⟨canon, hcanon, file, ⟨hext, hcontent⟩, rfl⟩
      exact ⟨hfile, ⟨canon, hcanon, rfl⟩, hext, hcontent⟩
    · intro h
      rcases out with _ | ⟨file, resolved⟩
      · rw [hfile] at h
        cases h
      · obtain ⟨_, ⟨canon, hcanon, rfl⟩, hext, hcontent⟩ := h
        exact ⟨canon, hcanon, file, ⟨hext, hcontent⟩, rfl⟩
  · rw [if_neg hfile]
    rcases out with _ | ⟨file, resolved⟩
    · simp [hfile]
    · simp [hfile]

/-! ## Both together -/

/-- The options of the command line, where the file has none of its own. -/
def ReadsGeneral (opts : General) (file : Option File.General) (general : General) : Prop :=
  match file with
  | none => general = opts
  | some file => ∃ status, general = opts.withFile file status ∧
      status.code = file.maintenanceModeStatus.getD opts.maintenanceModeStatus.code

theorem generalOptions_eq_ok {opts general : General} {file : Option File.General} :
    generalOptions opts file = .ok general ↔ ReadsGeneral opts file general := by
  unfold generalOptions ReadsGeneral
  cases file with
  | none => simp [eq_comm]
  | some file =>
      simp only [Checked.bind_eq_ok, Checked.pure_eq_ok, maintenanceStatus]
      cases file.maintenanceModeStatus with
      | none =>
          constructor
          · rintro ⟨status, hstatus, rfl⟩
            cases hstatus
            exact ⟨_, rfl, rfl⟩
          · rintro ⟨status, rfl, hstatus⟩
            have hsame : opts.maintenanceModeStatus = status :=
              Option.some.inj ((statusFromU16_eq_some.mpr hstatus.symm).symm.trans (statusFromU16_eq_some.mpr rfl))
            exact ⟨status, congrArg Except.ok hsame, rfl⟩
      | some v =>
          simp only [withContext_eq_ok, statusFromU16_eq_some, Option.getD_some]
          constructor
          · rintro ⟨status, hstatus, rfl⟩
            exact ⟨_, rfl, hstatus⟩
          · rintro ⟨status, rfl, hstatus⟩
            exact ⟨_, hstatus, rfl⟩

/-- The level of the file, or else that of the command line, is one, and the logger starts with it. -/
def LogsAt (crates : ParseCrates) (logInit : Bool) (general : General) : Prop :=
  logInit = true → ∃ level, crates.logger.parse (crates.logger.lowercase general.logLevel) = some level ∧
    crates.logger.tryInit level general.logWithAnsi = true

theorem configure_eq_ok {logger : LoggerCrates} {level : Str} {enableAnsi : Bool} {u : Unit} :
    configure logger level enableAnsi = .ok u ↔
      ∃ parsed, logger.parse level = some parsed ∧ logger.tryInit parsed enableAnsi = true := by
  unfold configure
  rw [Checked.bind_eq_ok]
  refine exists_congr fun parsed => and_congr withContext_eq_ok ?_
  split
  · rename_i hinit
    exact iff_of_true rfl hinit
  · rename_i hno
    exact iff_of_false (fun h => by cases h) hno

theorem loggerInit_eq_ok {logInit : Bool} {general : General} {u : Unit} :
    loggerInit crates logInit general = .ok u ↔ LogsAt crates logInit general := by
  unfold loggerInit LogsAt
  cases logInit with
  | false => exact iff_of_true rfl fun h => by cases h
  | true =>
      rw [if_pos rfl, withContext_eq_ok, Checked.toOption_eq_some, configure_eq_ok]
      exact ⟨fun h _ => h, fun h => h rfl⟩

def ReadsAdvanced? (crates : ParseCrates) (t : FileTree) (home : Option Octets) (file : Option File.Advanced)
    (advanced : Option (Advanced × ClientSettings)) : Prop :=
  match file, advanced with
  | none, none => True
  | some file, some (adv, client) => ReadsAdvanced crates t home file adv client
  | _, _ => False

theorem advancedSettings_eq_ok {file : Option File.Advanced} {advanced : Option (Advanced × ClientSettings)} :
    advancedSettings crates t home file = .ok advanced ↔ ReadsAdvanced? crates t home file advanced := by
  unfold advancedSettings ReadsAdvanced?
  cases file with
  | none => cases advanced <;> simp
  | some file =>
      simp only [Checked.bind_eq_ok, Checked.pure_eq_ok]
      rcases advanced with _ | ⟨adv, client⟩
      · simp
      · constructor
        · rintro ⟨_, hread, hsome⟩
          cases hsome
          exact advancedOptions_eq_ok.mp hread
        · intro hread
          exact ⟨_, advancedOptions_eq_ok.mpr hread, rfl⟩

/-- What the settings of a server come from. -/
inductive ReadsSettings (crates : ParseCrates) (t : FileTree) (home : Option Octets) (logInit : Bool) (opts : General) :
    WeaveGate.Settings → Prop where
  | commandLine (noFile : ∀ path ∈ opts.configFile :: configFileNames, t.isFile path = false)
      (logs : LogsAt crates logInit opts) : ReadsSettings crates t home logInit opts ⟨opts, none⟩
  | file {path resolved : Path} {file : FileSettings} {general : General}
      {advanced : Option (Advanced × ClientSettings)} (uses : UsesFile t opts path)
      (holds : HoldsSettings crates.toml t path file resolved)
      (reads : ReadsGeneral { opts with configFile := resolved } file.general general)
      (logs : LogsAt crates logInit general)
      (readsAdvanced : ReadsAdvanced? crates t home file.advanced advanced) :
      ReadsSettings crates t home logInit opts ⟨general, advanced⟩

/-- What the command line asks the program to do is not for the file to say. -/
theorem ReadsSettings.keeps {logInit : Bool} {opts : General} {settings : WeaveGate.Settings}
    (h : ReadsSettings crates t home logInit opts settings) :
    settings.general.version = opts.version ∧ settings.general.commands = opts.commands := by
  cases h with
  | commandLine => exact ⟨rfl, rfl⟩
  | @file path resolved file general advanced uses holds reads logs readsAdvanced =>
      cases hgeneral : file.general with
      | none =>
          rw [hgeneral] at reads
          cases reads
          exact ⟨rfl, rfl⟩
      | some options =>
          rw [hgeneral] at reads
          obtain ⟨status, rfl, _⟩ := reads
          exact ⟨rfl, rfl⟩

/-- Advanced options come from a file. -/
theorem ReadsSettings.exists_file {logInit : Bool} {opts : General} {settings : WeaveGate.Settings} {adv : Advanced}
    {client : ClientSettings} (h : ReadsSettings crates t home logInit opts settings)
    (hadv : settings.advanced = some (adv, client)) :
    ∃ path resolved file options, UsesFile t opts path ∧ HoldsSettings crates.toml t path file resolved ∧
      file.advanced = some options ∧ ReadsAdvanced crates t home options adv client := by
  cases h with
  | commandLine => cases hadv
  | @file path resolved file general advanced uses holds reads logs readsAdvanced =>
      cases hadv
      cases hfile : file.advanced with
      | none =>
          rw [hfile] at readsAdvanced
          exact readsAdvanced.elim
      | some options =>
          rw [hfile] at readsAdvanced
          exact ⟨path, resolved, file, options, uses, holds, hfile, readsAdvanced⟩

theorem not_usesFile_iff {opts : General} : t.isFile (configFileToUse t opts) = false ↔
    ∀ path ∈ opts.configFile :: configFileNames, t.isFile path = false := by
  unfold configFileToUse
  cases hfind : configFileNames.find? t.isFile with
  | none =>
      have hnone : ∀ path ∈ configFileNames, t.isFile path = false := fun path hpath => by
        simpa using List.find?_eq_none.mp hfind path hpath
      simp only [List.forall_mem_cons, Option.getD_none]
      exact (and_iff_left hnone).symm
  | some path =>
      have hfile := List.find?_some hfind
      have hmem := List.mem_of_find?_eq_some hfind
      refine iff_of_false (by simp [hfile]) fun hnone => ?_
      rw [hnone path (List.mem_cons_of_mem _ hmem)] at hfile
      cases hfile

theorem reads_of_parseFrom {logInit : Bool} {opts : General} {settings : WeaveGate.Settings}
    (h : parseFrom crates t home logInit opts = .ok settings) : ReadsSettings crates t home logInit opts settings := by
  obtain ⟨out, hout, h⟩ := Checked.bind_eq_ok.mp h
  rw [readFileSettings_eq_ok] at hout
  rcases out with _ | ⟨file, resolved⟩
  · obtain ⟨_, hlog, h⟩ := Checked.bind_eq_ok.mp h
    cases h
    exact .commandLine (not_usesFile_iff.mp hout) (loggerInit_eq_ok.mp hlog)
  · obtain ⟨hfile, hholds⟩ := hout
    obtain ⟨general, hgeneral, h⟩ := Checked.bind_eq_ok.mp h
    obtain ⟨_, hlog, h⟩ := Checked.bind_eq_ok.mp h
    obtain ⟨advanced, hadvanced, h⟩ := Checked.bind_eq_ok.mp h
    cases h
    exact .file (usesFile_iff.mpr ⟨rfl, hfile⟩) hholds (generalOptions_eq_ok.mp hgeneral) (loggerInit_eq_ok.mp hlog)
      (advancedSettings_eq_ok.mp hadvanced)

theorem parseFrom_of_reads {logInit : Bool} {opts : General} {settings : WeaveGate.Settings}
    (h : ReadsSettings crates t home logInit opts settings) : parseFrom crates t home logInit opts = .ok settings := by
  refine Checked.bind_eq_ok.mpr ?_
  cases h with
  | commandLine noFile logs =>
      refine ⟨none, readFileSettings_eq_ok.mpr (not_usesFile_iff.mpr noFile), ?_⟩
      exact Checked.bind_eq_ok.mpr ⟨(), loggerInit_eq_ok.mpr logs, rfl⟩
  | file uses holds reads logs readsAdvanced =>
      obtain ⟨rfl, hfile⟩ := usesFile_iff.mp uses
      refine ⟨some (_, _), readFileSettings_eq_ok.mpr ⟨hfile, holds⟩, ?_⟩
      refine Checked.bind_eq_ok.mpr ⟨_, generalOptions_eq_ok.mpr reads, ?_⟩
      refine Checked.bind_eq_ok.mpr ⟨(), loggerInit_eq_ok.mpr logs, ?_⟩
      exact Checked.bind_eq_ok.mpr ⟨_, advancedSettings_eq_ok.mpr readsAdvanced, rfl⟩

end WeaveGate.Settings

import WeaveGate.Static.Theorems.Redirect

/-!
# The links of a listing

Where a client ends up that resolves the link of an entry against the request, and what the server finds there.
-/

namespace WeaveGate.Static

open Posix (Octets Path Name FileTree Inode Canon)
open UriReference (IsDot)

/-! ## The text of a link -/

theorem unreserved_spec {b : UInt8} (h : unreserved b = true) : b ≠ Percent.sign ∧ b.toNat < 0x80 := by
  unfold unreserved at h
  simp only [Bool.or_eq_true, Bool.and_eq_true, decide_eq_true_eq, List.mem_cons, List.not_mem_nil, or_false,
    UInt8.le_iff_toNat_le, ← UInt8.toNat_inj, UInt8.toNat_ofNat] at h
  simp only [ne_eq, ← UInt8.toNat_inj, Percent.sign, UInt8.toNat_ofNat]
  omega

/-- The characters that `percent_encode` leaves or makes. -/
def isEncoded (c : Char) : Bool := c.isAlphanum || c ∈ ['_', '-', '.', '~', '%']

theorem isEncoded_encode {name : Name} {c : Char} (h : c ∈ Percent.encode unreserved name) : isEncoded c = true := by
  rcases Percent.mem_encode h with ⟨b, _, hkeep, rfl⟩ | rfl | halnum
  · have hall : (List.range 128).all (fun n => unreserved (UInt8.ofNat n) → isEncoded (Char.ofNat n) = true) = true := by
      decide
    have hlt := (unreserved_spec hkeep).2
    have h := of_decide_eq_true (List.all_eq_true.mp hall b.toNat (List.mem_range.mpr hlt))
    rw [UInt8.ofNat_toNat] at h
    exact h hkeep
  · rfl
  · rw [isEncoded, halnum, Bool.true_or]

theorem not_mem_encode {c : Char} (hc : isEncoded c = false) (name : Name) : c ∉ Percent.encode unreserved name := by
  intro hmem
  rw [isEncoded_encode hmem] at hc
  cases hc

theorem decode_encode_name (name : Name) :
    Percent.decode (Posix.utf8 (Percent.encode unreserved name)) = name := by
  have h := Percent.decode_encode (fun _ => unreserved_spec) name []
  rwa [List.append_nil, Percent.decode, List.append_nil] at h

/-- The link within the directory: the encoded name and the slash of a directory. -/
def linkName (name : Name) (type : FileType) : Str :=
  Percent.encode unreserved name ++ if type = .directory then ['/'] else []

variable {name : Name} {type : FileType}

theorem encode_ne_nil (hname : Posix.IsEntryName name) : Percent.encode unreserved name ≠ [] := by
  intro h
  have hdecode := decode_encode_name name
  rw [h] at hdecode
  exact hname.1 hdecode.symm

theorem not_isDot_encode (hname : Posix.IsEntryName name) : ¬ IsDot (Percent.encode unreserved name) := by
  have hdecode := decode_encode_name name
  rintro (h | h) <;> rw [h] at hdecode
  · exact hname.2.1 hdecode.symm
  · exact hname.2.2.1 hdecode.symm

theorem segments_linkName (hname : Posix.IsEntryName name) :
    ∀ segment ∈ (linkName name type).splitOn '/', ¬ IsDot segment := by
  have hencode := List.splitOn_eq_singleton (not_mem_encode (show isEncoded '/' = false by decide) name)
  have hempty : ¬ IsDot [] := by decide
  unfold linkName
  split
  · rw [List.splitOn_append_cons_self, hencode]
    simp [not_isDot_encode hname, hempty]
  · rw [List.append_nil, hencode]
    simp [not_isDot_encode hname]

theorem decodedNames_linkName (hname : Posix.IsEntryName name) : decodedNames (linkName name type) = [name] := by
  have hencode : decodedNames (Percent.encode unreserved name) = [name] := by
    rw [decodedNames, decode_encode_name, Posix.Path.names_entry hname]
  unfold linkName
  split
  · rw [decodedNames_append_slash, hencode]
    rfl
  · rw [List.append_nil, hencode]

theorem linkName_clean (name : Name) (type : FileType) : ∀ c ∈ linkName name type, c ≠ '?' ∧ c ≠ '#' ∧ c ≠ ':' := by
  intro c hc
  have hencoded : isEncoded c = true ∨ c = '/' := by
    rcases List.mem_append.mp hc with hc | hc
    · exact .inl (isEncoded_encode hc)
    · split at hc
      · exact .inr (List.mem_singleton.mp hc)
      · cases hc
  refine ⟨?_, ?_, ?_⟩ <;> rintro rfl <;> exact absurd hencoded (by decide)

theorem linkName_head (hname : Posix.IsEntryName name) (type : FileType) :
    linkName name type ≠ [] ∧ ¬ Text.startsWith (linkName name type) '/' = true := by
  unfold linkName
  cases hencode : Percent.encode unreserved name with
  | nil => exact absurd hencode (encode_ne_nil hname)
  | cons c rest =>
      refine ⟨by simp, fun h => ?_⟩
      have hc : c = '/' := by simpa [Text.startsWith] using h
      exact not_mem_encode (show isEncoded '/' = false by decide) name (by rw [hencode, hc]; exact List.mem_cons_self)

theorem endsWith_append {a b : Str} {c : Char} (hb : b ≠ []) : Text.endsWith (a ++ b) c = Text.endsWith b c := by
  rw [Text.endsWith, Text.endsWith, List.getLast?_append_of_ne_nil _ hb]

theorem linkName_endsWith (name : Name) (type : FileType) :
    Text.endsWith (linkName name type) '/' = true ↔ type = .directory := by
  unfold linkName
  split
  · simp [Text.endsWith, *]
  · rename_i htype
    rw [List.append_nil]
    refine iff_of_false (fun h => ?_) htype
    have hlast : (Percent.encode unreserved name).getLast? = some '/' := by simpa [Text.endsWith] using h
    exact not_mem_encode (show isEncoded '/' = false by decide) name (List.mem_of_getLast? hlast)

/-! ## Resolving a link -/

theorem entryUri_eq (basePath : Str) (name : Name) (type : FileType) : entryUri basePath name type =
    (if !Text.endsWith basePath '/' && basePath ≠ [] then
      ((Text.rsplitOnce '/' basePath).elim basePath Prod.snd) ++ ['/'] else []) ++ linkName name type := by
  unfold entryUri linkName
  dsimp only
  split <;> split <;> simp

theorem entryUri_of_dir {dir last : Str} (hlast : '/' ∉ last) (name : Name) (type : FileType) :
    entryUri (dir ++ '/' :: last) name type =
      if last = [] then linkName name type else last ++ '/' :: linkName name type := by
  have hends : Text.endsWith (dir ++ '/' :: last) '/' = true ↔ last = [] := by
    constructor
    · intro h
      by_contra hne
      rw [show dir ++ '/' :: last = (dir ++ ['/']) ++ last by simp, endsWith_append hne] at h
      have hmem : last.getLast? = some '/' := by simpa [Text.endsWith] using h
      exact hlast (List.mem_of_getLast? hmem)
    · rintro rfl
      simp [Text.endsWith]
  rw [entryUri_eq, Text.rsplitOnce_append hlast, Option.elim_some]
  by_cases hempty : last = []
  · rw [if_neg (by simp [hends.mpr hempty]), if_pos hempty, List.nil_append]
  · have hopen : Text.endsWith (dir ++ '/' :: last) '/' = false := by simpa using mt hends.mp hempty
    rw [if_pos (by simp [hopen]), if_neg hempty, List.append_assoc]
    rfl

/-- The last segment starts with what reads as the scheme of a link. -/
def ReadsAsScheme (path : Str) : Prop :=
  ∃ dir scheme rest, path = dir ++ '/' :: (scheme ++ ':' :: rest) ∧ scheme ≠ [] ∧ ':' ∉ scheme ∧ '/' ∉ scheme ∧
    '/' ∉ rest

theorem exists_last_slash {path : Str} (h : Text.startsWith path '/' = true) :
    ∃ dir last, path = dir ++ '/' :: last ∧ '/' ∉ last := by
  have hmem : '/' ∈ path.reverse := by
    rw [List.mem_reverse]
    exact List.mem_of_mem_head? (by simpa [Text.startsWith] using h)
  obtain ⟨before, after, hrev, hnot⟩ := List.eq_append_cons_of_mem hmem
  refine ⟨after.reverse, before.reverse, ?_, by simpa using hnot⟩
  rw [← List.reverse_reverse path, hrev]
  simp

theorem readDirEntry_uri {t : FileTree} {opts : HandleOpts} {rootPathAbs : Canon} {parent : Path} {entry : FileEntry}
    (h : readDirEntry t opts rootPathAbs parent name = .ok (some entry)) :
    entry.uri = entryUri opts.uriPath name entry.type := by
  replace h := readDirEntry_eq_ok h
  unfold fileEntry at h
  dsimp only at h
  split at h
  · cases h
  · split at h
    · cases h
    · obtain ⟨_, _, rfl⟩ := Option.map_eq_some_iff.mp h
      rfl

/-- What a link resolves to when it is read as a path. -/
theorem resolve_link {base : UriReference} {path link : Str} (hlink : ∀ c ∈ link, c ≠ '?' ∧ c ≠ '#')
    (hscheme : UriReference.cutScheme link = (none, link)) (hne : link ≠ [])
    (hslash : ¬ Text.startsWith link '/' = true) (hmerge : UriReference.merge base link = path)
    (hdots : ∀ segment ∈ path.splitOn '/', ¬ IsDot segment) :
    base.resolve (.parse link) = { base with path, query := none, fragment := none } := by
  rw [UriReference.resolve_relative hlink hscheme hne hslash, hmerge,
    (UriReference.removeDotSegments_eq_self_iff _).mpr hdots]

theorem startsWith_segment {segment : Str} (hne : segment ≠ []) (h : '/' ∉ segment) (s : Str) :
    ¬ Text.startsWith (segment ++ s) '/' = true := by
  obtain ⟨c, rest, rfl⟩ := List.exists_cons_of_ne_nil hne
  intro hstart
  have hc : c = '/' := by simpa [Text.startsWith] using hstart
  exact h (hc ▸ List.mem_cons_self)

theorem cutScheme_link {dir last : Str} (h : ¬ ReadsAsScheme (dir ++ '/' :: last)) (hlast : '/' ∉ last) {s : Str}
    (hs : ':' ∉ s) : UriReference.cutScheme (last ++ '/' :: s) = (none, last ++ '/' :: s) := by
  by_cases hcolon : ':' ∈ last
  · obtain ⟨scheme, rest, rfl, hnot⟩ := List.eq_append_cons_of_mem hcolon
    have hslash : '/' ∉ scheme ∧ '/' ∉ rest := by
      rw [List.mem_append, List.mem_cons, not_or, not_or] at hlast
      exact ⟨hlast.1, hlast.2.2⟩
    have hempty : scheme = [] := by
      by_contra hne
      exact h ⟨dir, scheme, rest, rfl, hne, hnot, hslash⟩
    rw [List.append_assoc, List.cons_append, UriReference.cutScheme_append hnot, if_pos (.inl hempty)]
  · exact UriReference.cutScheme_of_not_mem (by simp [hcolon, hs])

/-- The path of an entry below the requested one. -/
theorem resolve_entryUri (base : UriReference) (hstart : Text.startsWith base.path '/' = true)
    (hclean : ∀ c ∈ base.path, c ≠ '?' ∧ c ≠ '#')
    (hdots : ∀ segment ∈ base.path.splitOn '/', ¬ IsDot segment) (hname : Posix.IsEntryName name)
    (hscheme : ¬ ReadsAsScheme base.path) (type : FileType) :
    ∃ path, base.resolve (.parse (entryUri base.path name type)) = { base with path, query := none, fragment := none } ∧
      decodedNames path = decodedNames base.path ++ [name] := by
  have hlink : ∀ c ∈ linkName name type, c ≠ '?' ∧ c ≠ '#' := fun c hc =>
    ⟨(linkName_clean name type c hc).1, (linkName_clean name type c hc).2.1⟩
  have hcolon : ':' ∉ linkName name type := fun hmem => (linkName_clean name type _ hmem).2.2 rfl
  obtain ⟨hne, hhead⟩ := linkName_head hname type
  have hnoscheme := UriReference.cutScheme_of_not_mem hcolon
  have hsegments : ∀ segment ∈ (linkName name type).splitOn '/', ¬ IsDot segment := segments_linkName hname
  obtain ⟨dir, last, hpath, hlast⟩ := exists_last_slash hstart
  have hmerge := UriReference.merge_of_dir hpath hlast
  rw [hpath, List.splitOn_append_cons_self, List.forall_mem_append] at hdots
  rw [hpath, entryUri_of_dir hlast]
  by_cases hopen : last = []
  · refine ⟨dir ++ '/' :: linkName name type, ?_, ?_⟩
    · rw [if_pos hopen]
      refine resolve_link hlink hnoscheme hne hhead (hmerge _) ?_
      rw [List.splitOn_append_cons_self]
      exact List.forall_mem_append.mpr ⟨hdots.1, hsegments⟩
    · rw [decodedNames_append_slash, decodedNames_append_slash, hopen, decodedNames_linkName hname]
      simp [decodedNames, Posix.utf8, Percent.decode]
  · refine ⟨dir ++ '/' :: (last ++ '/' :: linkName name type), ?_, ?_⟩
    · rw [if_neg hopen]
      refine resolve_link ?_ ?_ (by simp) ?_ (hmerge _) ?_
      · intro c hc
        rcases List.mem_append.mp hc with hc | hc
        · exact hclean c (by rw [hpath]; simp [hc])
        · rcases List.mem_cons.mp hc with rfl | hc
          · decide
          · exact hlink c hc
      · exact cutScheme_link (fun h => hscheme (by rwa [hpath])) hlast hcolon
      · exact startsWith_segment hopen hlast _
      · rw [List.splitOn_append_cons_self, List.splitOn_append_cons_self]
        exact List.forall_mem_append.mpr ⟨hdots.1, List.forall_mem_append.mpr ⟨hdots.2, hsegments⟩⟩
    · rw [decodedNames_append_slash, decodedNames_append_slash, decodedNames_append_slash, decodedNames_linkName hname,
        List.append_assoc]

/-! ## Links that are lost -/

def colon : UInt8 := 0x3A

theorem count_decodedNames (s : Str) :
    (decodedNames s).flatten.count colon = (Percent.decode (Posix.utf8 s)).count colon :=
  Posix.Path.count_names (by decide) (by decide) _

theorem count_decodedNames_colon (scheme rest : Str) :
    (decodedNames rest).flatten.count colon < (decodedNames (scheme ++ ':' :: rest)).flatten.count colon := by
  have hbytes : Posix.utf8 (scheme ++ ':' :: rest) = Posix.utf8 scheme ++ colon :: Posix.utf8 rest := by
    rw [Utf8.utf8_append]
    rfl
  rw [count_decodedNames, count_decodedNames, hbytes, Percent.decode_append_cons (by decide), List.count_append,
    List.count_cons_self]
  omega

/-- What stands before the colon is taken for a scheme, and the names found lack its colon. -/
theorem resolve_entryUri_scheme (base : UriReference) (hclean : ∀ c ∈ base.path, c ≠ '?' ∧ c ≠ '#')
    (hname : Posix.IsEntryName name) (hscheme : ReadsAsScheme base.path) (type : FileType) :
    decodedNames (base.resolve (.parse (entryUri base.path name type))).path ≠ decodedNames base.path ++ [name] := by
  obtain ⟨dir, scheme, rest, hpath, hne, hnot, hslash, hrest⟩ := hscheme
  have hlast : '/' ∉ scheme ++ ':' :: rest := by simp [hslash, hrest]
  have hlink : entryUri base.path name type = scheme ++ ':' :: (rest ++ '/' :: linkName name type) := by
    rw [hpath, entryUri_of_dir hlast, if_neg (by simp), List.append_assoc, List.cons_append]
  have hcut := UriReference.cutScheme_append hnot (rest ++ '/' :: linkName name type)
  rw [if_neg (by simp [hne, hslash])] at hcut
  have hslashes : ¬ ['/', '/'] <+: rest ++ '/' :: linkName name type := by
    rintro ⟨tail, htail⟩
    by_cases hempty : rest = []
    · rw [hempty, List.nil_append] at htail
      have hhead := (linkName_head hname type).2
      rw [← (List.cons.inj htail).2] at hhead
      exact hhead rfl
    · refine startsWith_segment hempty hrest ('/' :: linkName name type) ?_
      rw [← htail]
      rfl
  have hchars : ∀ c ∈ scheme ++ ':' :: (rest ++ '/' :: linkName name type), c ≠ '?' ∧ c ≠ '#' := by
    have hpart : ∀ c, c ∈ scheme ∨ c ∈ rest → c ≠ '?' ∧ c ≠ '#' := fun c hc =>
      hclean c (by rw [hpath]; rcases hc with hc | hc <;> simp [hc])
    intro c hc
    simp only [List.mem_append, List.mem_cons] at hc
    rcases hc with hc | rfl | hc | rfl | hc
    · exact hpart c (.inl hc)
    · decide
    · exact hpart c (.inr hc)
    · decide
    · exact ⟨(linkName_clean name type c hc).1, (linkName_clean name type c hc).2.1⟩
  rw [hlink, UriReference.resolve_scheme hchars hcut hslashes,
    UriReference.removeDotSegments_append hrest (segments_linkName hname)]
  intro heq
  have hcount := congrArg (fun names : List Name => names.flatten.count colon) heq
  have hmore := count_decodedNames_colon scheme rest
  have hbase : decodedNames base.path = decodedNames dir ++ decodedNames (scheme ++ ':' :: rest) := by
    rw [hpath, decodedNames_append_slash]
  dsimp only at hcount
  rw [hbase, List.flatten_append, List.flatten_append, List.count_append, List.count_append] at hcount
  split at hcount
  · rw [decodedNames_linkName hname] at hcount
    omega
  · rw [decodedNames_append_slash, decodedNames_linkName hname, List.flatten_append, List.count_append] at hcount
    omega

/-- The link of an entry leads to the entry exactly when the last segment of the request path does not read as a
scheme. Then it also leads to the server of the request. The slash at its end tells a directory. -/
theorem link_leads_to_entry_iff {opts : HandleOpts} {pq : Http.PathAndQuery} (hform : OriginForm opts pq)
    (hdots : ∀ segment ∈ opts.uriPath.splitOn '/', ¬ IsDot segment) (hname : Posix.IsEntryName name)
    {t : FileTree} {rootPathAbs : Canon} {parent : Path} {entry : FileEntry}
    (h : readDirEntry t opts rootPathAbs parent name = .ok (some entry)) (scheme host : Str) :
    let target := (requestUri scheme host opts).resolve (.parse entry.uri)
    (sanitizePath opts.basePath target.path = (sanitizePath opts.basePath opts.uriPath).push [.normal name] ↔
      ¬ ReadsAsScheme opts.uriPath) ∧
    (¬ ReadsAsScheme opts.uriPath → target.scheme = some scheme ∧ target.authority = some host) ∧
    (Text.endsWith entry.uri '/' = true ↔ entry.type = .directory) := by
  have huri := readDirEntry_uri h
  have hstart : Text.startsWith opts.uriPath '/' = true := by
    rw [hform.path]
    exact hform.absolute
  have hclean : ∀ c ∈ opts.uriPath, c ≠ '?' ∧ c ≠ '#' := fun c hc =>
    hform.path_delimiters c (List.mem_append_left _ hc)
  have hnames : ∀ path, sanitizePath opts.basePath path = (sanitizePath opts.basePath opts.uriPath).push [.normal name] ↔
      decodedNames path = decodedNames opts.uriPath ++ [name] := by
    intro path
    have hmap : (decodedNames opts.uriPath).map Posix.Component.normal ++ [.normal name] =
        (decodedNames opts.uriPath ++ [name]).map .normal := by simp
    rw [Posix.Path.push_normal, sanitizePath_eq, sanitizePath_eq, List.append_assoc, List.append_cancel_left_eq, hmap]
    exact (List.map_injective_iff.mpr fun a b hab => by cases hab; rfl).eq_iff
  have hends : Text.endsWith entry.uri '/' = true ↔ entry.type = .directory := by
    rw [huri, entryUri_eq, endsWith_append (linkName_head hname _).1]
    exact linkName_endsWith name entry.type
  dsimp only
  rw [hnames, huri]
  refine ⟨⟨fun hsame hscheme => ?_, fun hscheme => ?_⟩, fun hscheme => ?_, huri ▸ hends⟩
  · exact resolve_entryUri_scheme (requestUri scheme host opts) hclean hname hscheme entry.type hsame
  all_goals
    obtain ⟨path, hresolve, hpath⟩ :=
      resolve_entryUri (requestUri scheme host opts) hstart hclean hdots hname hscheme entry.type
    have htarget : (requestUri scheme host opts).resolve (.parse (entryUri opts.uriPath name entry.type)) =
      { requestUri scheme host opts with path, query := none, fragment := none } := hresolve
    rw [htarget]
  · exact hpath
  · exact ⟨rfl, rfl⟩

/-- `/srv/a:b` holds a file. -/
def colonDir : FileTree :=
  { nodes :=
      [ ([], sampleDir [named "srv"]),
        ([named "srv"], sampleDir [named "a:b"]),
        ([named "srv", named "a:b"], sampleDir [named "c:d"]),
        ([named "srv", named "a:b", named "c:d"], sampleFile (named "hello")) ]
    cwd := [], symloopMax := 40, wf := by decide }

def colonEntry (uri : String) : FileEntry := ⟨named "c:d", 0, some 5, .file, uri.toList⟩

theorem link_leads_to_entry_encoded :
    let target := (requestUri "http".toList "h".toList (sampleOpts "/a%3Ab")).resolve (.parse "a%3Ab/c%3Ad".toList)
    sanitizePath (sampleOpts "/a%3Ab").basePath target.path =
      (sanitizePath (sampleOpts "/a%3Ab").basePath (sampleOpts "/a%3Ab").uriPath).push [.normal (named "c:d")] := by
  have hform : OriginForm (sampleOpts "/a%3Ab") ⟨"/a%3Ab".toList, none, by decide, by decide⟩ := ⟨rfl, rfl, rfl⟩
  have hentry : readDirEntry colonDir (sampleOpts "/a%3Ab") [named "srv"] (Posix.canonPath [named "srv", named "a:b"])
      (named "c:d") = .ok (some (colonEntry "a%3Ab/c%3Ad")) := by decide
  have hscheme : ¬ ReadsAsScheme (sampleOpts "/a%3Ab").uriPath := by
    rintro ⟨dir, scheme, rest, hpath, _⟩
    have hmem : ':' ∈ (sampleOpts "/a%3Ab").uriPath := by rw [hpath]; simp
    exact absurd hmem (by decide)
  exact (link_leads_to_entry_iff hform (by decide) (by decide) hentry "http".toList "h".toList).1.mpr hscheme

/-- Without the redirect, `/a:b` lists its file as `a:b/c%3Ad`, which leads to the path `b/c:d` of another scheme. -/
theorem link_lost_behind_colon :
    (readDirEntry colonDir (sampleOpts "/a:b") [named "srv"] (sanitizePath (sampleOpts "/a:b").basePath "/a:b".toList)
      (named "c:d")).map (·.map (·.uri)) = .ok (some "a:b/c%3Ad".toList) ∧
    (let target := (requestUri "http".toList "h".toList (sampleOpts "/a:b")).resolve (.parse "a:b/c%3Ad".toList)
     target.scheme = some "a".toList ∧
       sanitizePath (sampleOpts "/a:b").basePath target.path ≠
         (sanitizePath (sampleOpts "/a:b").basePath (sampleOpts "/a:b").uriPath).push [.normal (named "c:d")]) := by
  decide +kernel

end WeaveGate.Static

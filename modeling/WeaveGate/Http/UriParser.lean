import WeaveGate.Http.Types

/-!
# Parsing URIs

The parser of the `http` crate is a parameter of the model. `AbsoluteUris` states how it treats a text that
starts with the origin of a URI it has accepted, `AbsoluteTexts` how it divides the text of an absolute URI.
`parseHttpUri` is a small parser for URIs in origin form and for absolute `http` URIs, `parseHttpText` one that also
drops a fragment.
-/

namespace WeaveGate.Http

/-! ## Path and query -/

namespace PathAndQuery

theorem build?_eq_some {rawPath : Str} {query : Option Str} {pq : PathAndQuery} :
    build? rawPath query = some pq → pq.rawPath = rawPath ∧ pq.query = query := by
  intro h
  unfold build? at h
  split at h
  · cases h
    exact ⟨rfl, rfl⟩
  · cases h

theorem parse_eq_some {s : Str} {pq : PathAndQuery} (h : parse s = some pq) :
    s = pq.rawPath ++ queryText pq.query := by
  unfold parse at h
  split at h
  · obtain ⟨hp, hq⟩ := build?_eq_some h
    simp [hp, hq, queryText]
  · rename_i rawPath query hs
    obtain ⟨hp, hq⟩ := build?_eq_some h
    simpa [hp, hq, queryText] using Text.splitOnce_eq_some hs

theorem isPathChar_ne_question {c : Char} (h : isPathChar c = true) : c ≠ '?' := by
  rintro rfl
  exact absurd h (by decide)

theorem isPathChar_ne_hash {c : Char} (h : isPathChar c = true) : c ≠ '#' := by
  rintro rfl
  exact absurd h (by decide)

theorem isQueryChar_ne_hash {c : Char} (h : isQueryChar c = true) : c ≠ '#' := by
  rintro rfl
  exact absurd h (by decide)

theorem isPathChar_printable {c : Char} (h : isPathChar c = true) : HeaderValue.isPrintable c = true := by
  simp only [isPathChar, Bool.or_eq_true, Bool.and_eq_true, decide_eq_true_eq] at h
  simp only [HeaderValue.isPrintable, Bool.or_eq_true, Bool.and_eq_true, decide_eq_true_eq]
  omega

theorem isQueryChar_printable {c : Char} (h : isQueryChar c = true) : HeaderValue.isPrintable c = true := by
  simp only [isQueryChar, Bool.or_eq_true, Bool.and_eq_true, decide_eq_true_eq] at h
  simp only [HeaderValue.isPrintable, Bool.or_eq_true, Bool.and_eq_true, decide_eq_true_eq]
  omega

theorem isPathChar_of_mem_path {pq : PathAndQuery} : ∀ c ∈ pq.path, isPathChar c = true := by
  rw [path]
  split
  · intro c hc
    rw [List.mem_singleton.mp hc]
    decide
  · exact List.all_eq_true.mp pq.path_legal

theorem isQueryChar_of_mem_query {pq : PathAndQuery} {q : Str} (hq : pq.query = some q) :
    ∀ c ∈ q, isQueryChar c = true := by
  have hlegal := pq.query_legal
  rw [hq] at hlegal
  exact List.all_eq_true.mp hlegal

theorem queryText_printable (pq : PathAndQuery) : (queryText pq.query).all HeaderValue.isPrintable = true := by
  cases hq : pq.query with
  | none => rfl
  | some q =>
      refine List.all_eq_true.mpr (List.forall_mem_cons.mpr ⟨by decide, fun c hc => ?_⟩)
      exact isQueryChar_printable (isQueryChar_of_mem_query hq c hc)

theorem parse_append {rawPath : Str} {query : Option Str} (hp : rawPath.all isPathChar = true)
    (hq : query.all (·.all isQueryChar) = true) :
    parse (rawPath ++ queryText query) = some ⟨rawPath, query, hp, hq⟩ := by
  have hne : ∀ c ∈ rawPath, c ≠ '?' := fun c hc => isPathChar_ne_question (List.all_eq_true.mp hp c hc)
  unfold parse
  cases query with
  | none =>
      rw [queryText, Option.elim_none, List.append_nil, Text.splitOnce_eq_none hne]
      simp [build?, hp]
  | some q =>
      rw [queryText, Option.elim_some, Text.splitOnce_append hne]
      simp only [Option.all_some] at hq
      simp [build?, hp, hq]

theorem after?_asStr (pq : PathAndQuery) : Text.after? '?' pq.asStr = pq.query := by
  have hne : ∀ c ∈ pq.rawPath, c ≠ '?' := fun c hc =>
    isPathChar_ne_question (List.all_eq_true.mp pq.path_legal c hc)
  unfold asStr
  dsimp only
  cases hq : pq.query with
  | none =>
      rw [queryText, Option.elim_none, List.append_nil]
      split
      · exact Text.after?_eq_none (by simp)
      · exact Text.after?_eq_none hne
  | some q =>
      rw [queryText, Option.elim_some, if_neg (by simp), Text.after?_append_cons hne]

theorem parse_query {s : Str} {pq : PathAndQuery} (h : parse s = some pq) : pq.query = Text.after? '?' s := by
  unfold parse at h
  unfold Text.after?
  split at h <;> rename_i hs
  · rw [hs, (build?_eq_some h).2]
    rfl
  · rw [hs, (build?_eq_some h).2]
    rfl

theorem question_mem_iff {s : Str} {pq : PathAndQuery} (h : parse s = some pq) : '?' ∈ s ↔ pq.query.isSome = true := by
  have hpath : '?' ∉ pq.rawPath := fun hmem => isPathChar_ne_question (List.all_eq_true.mp pq.path_legal _ hmem) rfl
  rw [parse_eq_some h]
  cases pq.query with
  | none => simp [queryText, hpath]
  | some q => simp [queryText]

/-- A text with a query is extended by `&`, another by `?`. -/
theorem parse_extend {s x : Str} {pq pq' : PathAndQuery} (h : parse s = some pq)
    (h' : parse (s ++ (if '?' ∈ s then '&' else '?') :: x) = some pq') :
    pq'.rawPath = pq.rawPath ∧ pq'.query = some (pq.query.elim x (· ++ '&' :: x)) := by
  have hpath : ∀ c ∈ pq.rawPath, c ≠ '?' := fun c hc =>
    isPathChar_ne_question (List.all_eq_true.mp pq.path_legal c hc)
  have hs := parse_eq_some h
  have hif := question_mem_iff h
  cases hq : pq.query with
  | none =>
      rw [hq] at hs hif
      rw [if_neg (by simp [hif]), hs, queryText, Option.elim_none, List.append_nil] at h'
      unfold parse at h'
      rw [Text.splitOnce_append hpath] at h'
      exact build?_eq_some h'
  | some q =>
      rw [hq] at hs hif
      rw [if_pos (by simp [hif]), hs, queryText, Option.elim_some, List.append_assoc, List.cons_append] at h'
      unfold parse at h'
      rw [Text.splitOnce_append hpath] at h'
      exact build?_eq_some h'

theorem hash_not_mem (pq : PathAndQuery) : '#' ∉ pq.rawPath ++ queryText pq.query := by
  intro h
  rcases List.mem_append.mp h with h | h
  · exact isPathChar_ne_hash (List.all_eq_true.mp pq.path_legal _ h) rfl
  · have hq := pq.query_legal
    cases hquery : pq.query with
    | none => simp [hquery, queryText] at h
    | some q =>
        rw [hquery] at h hq
        simp only [queryText, Option.elim_some, List.mem_cons] at h
        rcases h with h | h
        · cases h
        · exact isQueryChar_ne_hash (List.all_eq_true.mp hq _ h) rfl

end PathAndQuery

/-! ## Absolute URIs -/

/-- The longest text that is parsed, in bytes. -/
def maxLen : Nat := 65534

/-- The path of a URI with a scheme and an authority starts with a slash, and the text after an accepted origin is
read as a path and a query, unless the whole is too long. A text without a scheme may be an authority alone, whose
path is empty. -/
structure AbsoluteUris (parseUri : Str → Option Uri) : Prop where
  path_absolute : ∀ {s u}, parseUri s = some u → u.scheme.isSome = true → u.authority.isSome = true →
    Text.startsWith u.path '/' = true
  origin : ∀ {s u scheme authority x}, parseUri s = some u → u.scheme = some scheme →
    u.authority = some authority → Text.startsWith x '/' = true → '#' ∉ x →
    Text.len (scheme ++ "://".toList ++ authority ++ x) ≤ maxLen →
    parseUri (scheme ++ "://".toList ++ authority ++ x) =
      (PathAndQuery.parse x).map fun pq => ⟨some scheme, some authority, some pq⟩
  too_long : ∀ {s}, maxLen < Text.len s → parseUri s = none

def isAuthorityChar (c : Char) : Bool := c.isAlphanum || c ∈ ['.', '-', '_', ':', '@', '[', ']', '%']

def readHttpUri (s : Str) : Option Uri :=
  match Text.stripPrefix s "http://".toList with
  | some rest =>
      let authority := rest.takeWhile isAuthorityChar
      let tail := rest.dropWhile isAuthorityChar
      if authority ≠ [] ∧ (tail = [] ∨ Text.startsWith tail '/' = true ∨ Text.startsWith tail '?' = true) then
        (PathAndQuery.parse tail).map fun pq => ⟨some "http".toList, some authority, some pq⟩
      else none
  | none =>
      if Text.startsWith s '/' = true then (PathAndQuery.parse s).map fun pq => ⟨none, none, some pq⟩
      else none

theorem readHttpUri_absolute {s : Str} {u : Uri} {authority : Authority} (h : readHttpUri s = some u)
    (ha : u.authority = some authority) : ∃ tail, s = "http://".toList ++ authority ++ tail ∧ authority ≠ [] ∧
      (∀ c ∈ authority, isAuthorityChar c = true) ∧
      (tail = [] ∨ Text.startsWith tail '/' = true ∨ Text.startsWith tail '?' = true) ∧
      (PathAndQuery.parse tail).map (fun pq => ⟨some "http".toList, some authority, some pq⟩) = some u := by
  unfold readHttpUri at h
  split at h
  · rename_i rest hrest
    dsimp only at h
    split at h
    · rename_i hc
      obtain ⟨pq, hpq, hu⟩ := Option.map_eq_some_iff.mp h
      rw [← hu] at ha
      cases ha
      refine ⟨_, ?_, hc.1, fun c hc => List.mem_takeWhile_imp hc, hc.2, h⟩
      rw [List.append_assoc, List.takeWhile_append_dropWhile]
      exact Text.stripPrefix_eq_some.mp hrest
    · cases h
  · split at h
    · obtain ⟨pq, _, rfl⟩ := Option.map_eq_some_iff.mp h
      cases ha
    · cases h

theorem readHttpUri_tail {authority tail : Str} (hne : authority ≠ [])
    (hall : ∀ c ∈ authority, isAuthorityChar c = true)
    (htail : tail = [] ∨ Text.startsWith tail '/' = true ∨ Text.startsWith tail '?' = true) :
    readHttpUri ("http://".toList ++ authority ++ tail) =
      (PathAndQuery.parse tail).map fun pq => ⟨some "http".toList, some authority, some pq⟩ := by
  have hstop : ∀ c ∈ tail.head?, isAuthorityChar c = false := by
    intro c hc
    cases tail with
    | nil => cases hc
    | cons d tail =>
        simp only [Text.startsWith, List.head?_cons, decide_eq_true_eq, Option.some.injEq] at htail
        rw [List.head?_cons, Option.mem_some_iff] at hc
        rcases htail with h | h | h
        · cases h
        · rw [← hc, h]; decide
        · rw [← hc, h]; decide
  have hspan : (authority ++ tail).takeWhile isAuthorityChar = authority ∧
      (authority ++ tail).dropWhile isAuthorityChar = tail := by
    rw [List.takeWhile_append_of_pos hall, List.dropWhile_append_of_pos hall]
    cases tail with
    | nil => exact ⟨List.append_nil _, rfl⟩
    | cons d tail =>
        have hd : ¬ isAuthorityChar d = true := by rw [hstop d rfl]; decide
        rw [List.takeWhile_cons_of_neg hd, List.dropWhile_cons_of_neg hd]
        exact ⟨List.append_nil _, rfl⟩
  rw [List.append_assoc, readHttpUri, Text.stripPrefix_append]
  simp only [hspan.1, hspan.2]
  rw [if_pos ⟨hne, htail⟩]

theorem readHttpUri_path {s : Str} {u : Uri} {authority : Authority} (h : readHttpUri s = some u)
    (ha : u.authority = some authority) : Text.startsWith u.path '/' = true := by
  obtain ⟨tail, _, _, _, htail, hu⟩ := readHttpUri_absolute h ha
  obtain ⟨pq, hpq, rfl⟩ := Option.map_eq_some_iff.mp hu
  by_cases hraw : pq.rawPath = []
  · simp [Uri.path, PathAndQuery.path, hraw, Text.startsWith]
  · have hs := PathAndQuery.parse_eq_some hpq
    simp only [Uri.path, PathAndQuery.path, hraw, if_false, Option.elim_some]
    rcases htail with ht | ht | ht
    · rw [ht] at hs
      exact absurd (List.append_eq_nil_iff.mp hs.symm).1 hraw
    · rw [hs] at ht
      simpa [Text.startsWith, List.head?_append_of_ne_nil _ hraw] using ht
    · rw [hs] at ht
      have hq : pq.rawPath.head? = some '?' := by
        simpa [Text.startsWith, List.head?_append_of_ne_nil _ hraw] using ht
      have := List.all_eq_true.mp pq.path_legal _ (List.mem_of_mem_head? hq)
      exact absurd this (by decide)

def parseHttpUri (s : Str) : Option Uri := if Text.len s ≤ maxLen then readHttpUri s else none

theorem parseHttpUri_eq_some {s : Str} {u : Uri} (h : parseHttpUri s = some u) : readHttpUri s = some u := by
  unfold parseHttpUri at h
  split at h
  · exact h
  · cases h

theorem absoluteUris_parseHttpUri : AbsoluteUris parseHttpUri where
  path_absolute := by
    intro s u h _ ha
    obtain ⟨authority, ha⟩ := Option.isSome_iff_exists.mp ha
    exact readHttpUri_path (parseHttpUri_eq_some h) ha
  origin := by
    intro s u scheme authority x h hs ha hx _ hlen
    obtain ⟨tail, _, hne, hall, _, hu⟩ := readHttpUri_absolute (parseHttpUri_eq_some h) ha
    obtain ⟨pq, _, rfl⟩ := Option.map_eq_some_iff.mp hu
    cases hs
    rw [parseHttpUri, if_pos hlen]
    exact readHttpUri_tail hne hall (.inr (.inl hx))
  too_long := by
    intro s hlen
    rw [parseHttpUri, if_neg (Nat.not_le_of_lt hlen)]

/-! ## Texts of absolute URIs -/

/-- What may follow an origin. -/
def IsTail (s : Str) : Prop :=
  s = [] ∨ Text.startsWith s '/' = true ∨ Text.startsWith s '?' = true ∨ Text.startsWith s '#' = true

def beforeHash (s : Str) : Str := s.takeWhile (· ≠ '#')

/-- The text of an absolute URI is an origin and a tail, of which a fragment is dropped. The same origin is read
alike in front of another tail. -/
structure AbsoluteTexts (parseUri : Str → Option Uri) : Prop where
  divide : ∀ {s u}, parseUri s = some u → u.scheme.isSome = true → u.authority.isSome = true →
    ∃ start tail, s = start ++ tail ∧ '?' ∉ start ∧ '#' ∉ start ∧ IsTail tail ∧
      ∀ tail' u', IsTail tail' → parseUri (start ++ tail') = some u' →
        ∃ pq, PathAndQuery.parse (beforeHash tail') = some pq ∧ u' = ⟨u.scheme, u.authority, some pq⟩

def parseHttpText (s : Str) : Option Uri := parseHttpUri (beforeHash s)

theorem beforeHash_of_not_mem {s : Str} (h : '#' ∉ s) : beforeHash s = s :=
  List.takeWhile_eq_self_iff.mpr fun c hc => by simpa using ne_of_mem_of_not_mem hc h

theorem beforeHash_append {s : Str} (h : '#' ∉ s) (t : Str) : beforeHash (s ++ t) = s ++ beforeHash t := by
  unfold beforeHash
  rw [List.takeWhile_append_of_pos fun c hc => by simpa using ne_of_mem_of_not_mem hc h]

theorem beforeHash_append_of_mem {s : Str} (h : '#' ∈ s) (t : Str) : beforeHash (s ++ t) = beforeHash s := by
  obtain ⟨before, after, rfl, hnot⟩ := List.eq_append_cons_of_mem h
  rw [List.append_assoc, beforeHash_append hnot, beforeHash_append hnot]
  rfl

theorem isTail_beforeHash {s : Str} (h : IsTail s) :
    beforeHash s = [] ∨ Text.startsWith (beforeHash s) '/' = true ∨ Text.startsWith (beforeHash s) '?' = true := by
  cases s with
  | nil => exact .inl rfl
  | cons c s =>
      simp only [IsTail, Text.startsWith, List.head?_cons, decide_eq_true_eq, Option.some.injEq] at h
      rcases h with h | rfl | rfl | rfl
      · cases h
      · exact .inr (.inl rfl)
      · exact .inr (.inr rfl)
      · exact .inl rfl

theorem absoluteTexts_parseHttpText : AbsoluteTexts parseHttpText where
  divide := by
    intro s u h _ ha
    obtain ⟨authority, ha⟩ := Option.isSome_iff_exists.mp ha
    obtain ⟨tail, htext, hne, hall, htail, hu⟩ := readHttpUri_absolute (parseHttpUri_eq_some h) ha
    obtain ⟨pq, _, rfl⟩ := Option.map_eq_some_iff.mp hu
    have hstart : ∀ c, isAuthorityChar c = false → c ∉ "http://".toList → c ∉ "http://".toList ++ authority := by
      intro c hc hhttp hmem
      rcases List.mem_append.mp hmem with hmem | hmem
      · exact hhttp hmem
      · rw [hall c hmem] at hc
        cases hc
    refine ⟨"http://".toList ++ authority, tail ++ s.dropWhile (· ≠ '#'), ?_, hstart _ (by decide) (by decide),
      hstart _ (by decide) (by decide), ?_, fun tail' u' htail' hu' => ?_⟩
    · rw [← List.append_assoc, ← htext, beforeHash, List.takeWhile_append_dropWhile]
    · cases tail with
      | cons c tail =>
          rcases htail with h | h
          · cases h
          · exact .inr (h.imp id .inl)
      | nil =>
          cases hrest : s.dropWhile (· ≠ '#') with
          | nil => exact .inl rfl
          | cons c rest =>
              have hhead := List.head?_dropWhile_not (fun c => decide (c ≠ '#')) s
              rw [hrest] at hhead
              have hc : c = '#' := by simpa using hhead
              exact .inr (.inr (.inr (by rw [hc]; rfl)))
    · have hread := parseHttpUri_eq_some hu'
      rw [beforeHash_append (hstart _ (by decide) (by decide)),
        readHttpUri_tail hne hall (isTail_beforeHash htail')] at hread
      obtain ⟨pq', hpq', rfl⟩ := Option.map_eq_some_iff.mp hread
      exact ⟨pq', hpq', rfl⟩

end WeaveGate.Http

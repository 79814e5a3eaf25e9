import WeaveGate.Lib.Text

/-!
# URI references

How a URI reference is read and resolved against a base URI, after sections 5.2 and appendix B of RFC 3986.
-/

structure UriReference where
  scheme : Option Str
  authority : Option Str
  path : Str
  query : Option Str
  fragment : Option Str
deriving DecidableEq

namespace UriReference

/-! ## Reading -/

/-- What comes before the first `c`, and what comes after it. -/
def cutAt (c : Char) (s : Str) : Str × Option Str :=
  match Text.splitOnce c s with
  | none => (s, none)
  | some (before, after) => (before, some after)

def cutScheme (s : Str) : Option Str × Str :=
  match Text.splitOnce ':' s with
  | none => (none, s)
  | some (scheme, rest) => if scheme = [] ∨ '/' ∈ scheme then (none, s) else (some scheme, rest)

def cutAuthority : Str → Option Str × Str
  | '/' :: '/' :: rest => (some (rest.takeWhile (· ≠ '/')), rest.dropWhile (· ≠ '/'))
  | s => (none, s)

def parse (s : Str) : UriReference :=
  let withoutFragment := cutAt '#' s
  let withoutQuery := cutAt '?' withoutFragment.1
  let withoutScheme := cutScheme withoutQuery.1
  let withoutAuthority := cutAuthority withoutScheme.2
  { scheme := withoutScheme.1, authority := withoutAuthority.1, path := withoutAuthority.2
    query := withoutQuery.2, fragment := withoutFragment.2 }

/-! ## Dot segments -/

def IsDot (segment : Str) : Prop := segment = ['.'] ∨ segment = ['.', '.']

instance (segment : Str) : Decidable (IsDot segment) := inferInstanceAs (Decidable (_ ∨ _))

/-- The output after one more segment. Each element of it is a segment with the slash before it, except that the
first segment may have none. -/
def place (out : List Str) (segment : Str) : List Str :=
  if segment = ['.'] then out else if segment = ['.', '.'] then out.dropLast else out ++ ['/' :: segment]

/-- All segments have a slash before them. The slash before a dot segment at the end stays. -/
def placeAll (out : List Str) : List Str → List Str
  | [] => out
  | [segment] => if IsDot segment then place out segment ++ [['/']] else place out segment
  | segment :: rest => placeAll (place out segment) rest

/-- The first segment has no slash before it. -/
def removeDots : List Str → Str
  | [] => []
  | segment :: rest => if IsDot segment then removeDots rest else (placeAll [segment] rest).flatten

def removeDotSegments (path : Str) : Str := removeDots (path.splitOn '/')

/-! ## Resolution -/

/-- A relative path takes the place of what follows the last slash of the base. -/
def merge (base : UriReference) (path : Str) : Str :=
  if base.authority.isSome ∧ base.path = [] then '/' :: path
  else match Text.rsplitOnce '/' base.path with
    | none => path
    | some (dir, _) => dir ++ '/' :: path

def resolve (base r : UriReference) : UriReference :=
  if r.scheme.isSome then { r with path := removeDotSegments r.path }
  else if r.authority.isSome then { r with scheme := base.scheme, path := removeDotSegments r.path }
  else if r.path = [] then { base with query := r.query.or base.query, fragment := r.fragment }
  else
    { r with
      scheme := base.scheme
      authority := base.authority
      path := removeDotSegments (if Text.startsWith r.path '/' then r.path else merge base r.path) }

/-! ## Paths without dot segments -/

/-- The length of the segments and the slashes before them. -/
def lengthOf (segments : List Str) : Nat := (segments.map fun segment => segment.length + 1).sum

theorem length_place_le (out : List Str) (segment : Str) :
    (place out segment).flatten.length ≤ out.flatten.length + if IsDot segment then 0 else segment.length + 1 := by
  unfold place IsDot
  by_cases hdot : segment = ['.']
  · simp [hdot]
  · by_cases hdots : segment = ['.', '.']
    · rcases List.eq_nil_or_concat out with rfl | ⟨front, last, rfl⟩
      · simp [hdots]
      · simp [hdots, -List.length_flatten]
    · simp [hdot, hdots]

theorem length_placeAll_le (out rest : List Str) :
    (placeAll out rest).flatten.length + (if ∃ s ∈ rest, IsDot s then 1 else 0) ≤
      out.flatten.length + lengthOf rest := by
  induction out, rest using placeAll.induct with
  | case1 out => simp [placeAll, lengthOf]
  | case2 out segment hdot =>
      have hplace := length_place_le out segment
      have hpos : 0 < segment.length := by rcases hdot with rfl | rfl <;> decide
      simp only [hdot, if_true] at hplace
      simp [placeAll, lengthOf, hdot, -List.length_flatten]
      omega
  | case3 out segment hdot =>
      have hplace := length_place_le out segment
      simp only [placeAll, hdot, if_false, lengthOf] at hplace ⊢
      simpa [hdot] using hplace
  | case4 out segment rest hrest ih =>
      have hplace := length_place_le out segment
      have hstep : placeAll out (segment :: rest) = placeAll (place out segment) rest := by
        cases rest with
        | nil => exact absurd rfl hrest
        | cons next rest => rfl
      rw [hstep]
      simp only [lengthOf, List.map_cons, List.sum_cons, List.exists_mem_cons_iff] at ih ⊢
      by_cases hdot : IsDot segment
      · simp only [hdot, if_true, true_or] at hplace ⊢
        split at ih <;> omega
      · simp only [hdot, if_false, false_or] at hplace ⊢
        omega

theorem placeAll_eq_self {rest : List Str} (h : ∀ s ∈ rest, ¬ IsDot s) (out : List Str) :
    placeAll out rest = out ++ rest.map ('/' :: ·) := by
  induction rest generalizing out with
  | nil => simp [placeAll]
  | cons segment rest ih =>
      obtain ⟨hsegment, hrest⟩ := List.forall_mem_cons.mp h
      have hplace : place out segment = out ++ ['/' :: segment] := by
        rw [IsDot, not_or] at hsegment
        rw [place, if_neg hsegment.1, if_neg hsegment.2]
      cases rest with
      | nil => simp [placeAll, hsegment, hplace]
      | cons next rest =>
          change placeAll (place out segment) (next :: rest) = _
          rw [ih hrest, hplace]
          simp

theorem length_removeDots_lt {segments : List Str} (hne : segments ≠ []) :
    (removeDots segments).length + (if ∃ s ∈ segments, IsDot s then 1 else 0) < lengthOf segments := by
  induction segments with
  | nil => exact absurd rfl hne
  | cons segment rest ih =>
      simp only [lengthOf, List.map_cons, List.sum_cons, List.exists_mem_cons_iff] at ih ⊢
      by_cases hdot : IsDot segment
      · have hpos : 0 < segment.length := by rcases hdot with rfl | rfl <;> decide
        simp only [removeDots, hdot, if_true, true_or]
        cases rest with
        | nil => simp [removeDots]; omega
        | cons next rest =>
            have hrest := ih (List.cons_ne_nil _ _)
            omega
      · have hplaced := length_placeAll_le [segment] rest
        simp only [List.flatten_cons, List.flatten_nil, List.append_nil, lengthOf] at hplaced
        simp only [removeDots, hdot, if_false, false_or]
        omega

theorem lengthOf_splitOn (path : Str) : lengthOf (path.splitOn '/') = path.length + 1 := by
  have hjoin : ∀ segments : List Str, segments ≠ [] →
      lengthOf segments = (List.intercalate ['/'] segments).length + 1 := by
    intro segments hne
    induction segments with
    | nil => exact absurd rfl hne
    | cons segment rest ih =>
        cases rest with
        | nil => simp [lengthOf, List.intercalate]
        | cons next rest =>
            have hrest := ih (List.cons_ne_nil _ _)
            simp only [lengthOf, List.map_cons, List.sum_cons] at hrest ⊢
            rw [List.intercalate_cons_cons, List.length_append, List.length_append, hrest]
            simp
            omega
  rw [hjoin _ (List.splitOn_ne_nil _ _), List.intercalate_splitOn]

theorem length_removeDotSegments_le (path : Str) : (removeDotSegments path).length ≤ path.length := by
  have hlt := length_removeDots_lt (List.splitOn_ne_nil '/' path)
  rw [lengthOf_splitOn] at hlt
  unfold removeDotSegments
  omega

theorem removeDots_eq_self {segments : List Str} (h : ∀ s ∈ segments, ¬ IsDot s) :
    removeDots segments = List.intercalate ['/'] segments := by
  cases segments with
  | nil => rfl
  | cons segment rest =>
      obtain ⟨hsegment, hrest⟩ := List.forall_mem_cons.mp h
      rw [removeDots, if_neg hsegment, placeAll_eq_self hrest]
      clear h hsegment hrest
      induction rest generalizing segment with
      | nil => simp [List.intercalate]
      | cons next rest ih => simp [List.intercalate_cons_cons, ← ih next]

/-- A path is left as it is when none of its segments is a dot segment. -/
theorem removeDotSegments_eq_self_iff (path : Str) :
    removeDotSegments path = path ↔ ∀ segment ∈ path.splitOn '/', ¬ IsDot segment := by
  constructor
  · intro heq segment hmem hdot
    have hlt := length_removeDots_lt (List.splitOn_ne_nil '/' path)
    rw [if_pos ⟨segment, hmem, hdot⟩, lengthOf_splitOn] at hlt
    have hlen := congrArg List.length heq
    unfold removeDotSegments at hlen
    omega
  · intro h
    rw [removeDotSegments, removeDots_eq_self h, List.intercalate_splitOn]

/-! ## References that start with a slash -/

theorem cutAt_append {c : Char} {before : Str} (h : ∀ d ∈ before, d ≠ c) (after : Option Str) :
    cutAt c (before ++ after.elim [] (c :: ·)) = (before, after) := by
  unfold cutAt
  cases after with
  | none => rw [Option.elim_none, List.append_nil, Text.splitOnce_eq_none h]
  | some after => rw [Option.elim_some, Text.splitOnce_append h]

theorem cutScheme_slash (s : Str) : cutScheme ('/' :: s) = (none, '/' :: s) := by
  unfold cutScheme
  cases hsplit : Text.splitOnce ':' ('/' :: s) with
  | none => rfl
  | some parts =>
      obtain ⟨scheme, rest⟩ := parts
      have htext := Text.splitOnce_eq_some hsplit
      cases scheme with
      | nil => simp at htext
      | cons c scheme =>
          obtain ⟨rfl, _⟩ := List.cons.inj htext
          simp

theorem cutAuthority_of_not_slashes {s : Str} (h : ¬ ['/', '/'] <+: s) : cutAuthority s = (none, s) := by
  unfold cutAuthority
  split
  · exact absurd ⟨_, rfl⟩ h
  · rfl

/-- What stands before the query is cut into a scheme, an authority and a path. -/
theorem parse_query {before : Str} {query : Option Str} (hbefore : ∀ c ∈ before, c ≠ '?' ∧ c ≠ '#')
    (hquery : ∀ q, query = some q → ∀ c ∈ q, c ≠ '#') : parse (before ++ query.elim [] ('?' :: ·)) =
      { scheme := (cutScheme before).1, authority := (cutAuthority (cutScheme before).2).1
        path := (cutAuthority (cutScheme before).2).2, query, fragment := none } := by
  have hfragment : ∀ c ∈ before ++ query.elim [] ('?' :: ·), c ≠ '#' := by
    intro c hc
    rcases List.mem_append.mp hc with hc | hc
    · exact (hbefore c hc).2
    · cases query with
      | none => cases hc
      | some q =>
          rcases List.mem_cons.mp hc with rfl | hc
          · decide
          · exact hquery q rfl c hc
  have hcut := cutAt_append hfragment none
  rw [Option.elim_none, List.append_nil] at hcut
  unfold parse
  dsimp only
  rw [hcut]
  dsimp only
  rw [cutAt_append (fun c hc => (hbefore c hc).1) query]

theorem parse_slash {path : Str} {query : Option Str} (hpath : ∀ c ∈ path, c ≠ '?' ∧ c ≠ '#')
    (hquery : ∀ q, query = some q → ∀ c ∈ q, c ≠ '#') :
    parse ('/' :: path ++ query.elim [] ('?' :: ·)) =
      { scheme := none, authority := (cutAuthority ('/' :: path)).1, path := (cutAuthority ('/' :: path)).2
        query, fragment := none } := by
  rw [parse_query (List.forall_mem_cons.mpr ⟨by decide, hpath⟩) hquery, cutScheme_slash]

/-- A reference that starts with one slash replaces the path and the query of the base. -/
theorem resolve_path {base : UriReference} {path : Str} {query : Option Str}
    (hpath : ∀ c ∈ path, c ≠ '?' ∧ c ≠ '#') (hquery : ∀ q, query = some q → ∀ c ∈ q, c ≠ '#')
    (hone : ¬ Text.startsWith path '/') :
    resolve base (parse ('/' :: path ++ query.elim [] ('?' :: ·))) =
      { base with path := removeDotSegments ('/' :: path), query, fragment := none } := by
  have hcut : cutAuthority ('/' :: path) = (none, '/' :: path) := cutAuthority_of_not_slashes fun hslashes => by
    obtain ⟨rest, hrest⟩ := hslashes
    obtain ⟨_, rfl⟩ := List.cons.inj hrest
    exact hone rfl
  rw [parse_slash hpath hquery, hcut]
  simp [resolve, Text.startsWith]

/-- A reference that starts with two slashes names an authority of its own. -/
theorem resolve_authority {base : UriReference} {rest : Str} {query : Option Str}
    (hpath : ∀ c ∈ rest, c ≠ '?' ∧ c ≠ '#') (hquery : ∀ q, query = some q → ∀ c ∈ q, c ≠ '#') :
    resolve base (parse ('/' :: '/' :: rest ++ query.elim [] ('?' :: ·))) =
      { base with
        authority := some (rest.takeWhile (· ≠ '/'))
        path := removeDotSegments (rest.dropWhile (· ≠ '/'))
        query, fragment := none } := by
  have hslash : ∀ c ∈ '/' :: rest, c ≠ '?' ∧ c ≠ '#' := List.forall_mem_cons.mpr ⟨by decide, hpath⟩
  rw [parse_slash hslash hquery]
  simp [resolve, cutAuthority]

/-- A reference that starts with a slash resolves to its own path exactly when it starts with no second slash and
has no dot segment. -/
theorem resolve_slash_eq_iff {base : UriReference} {path : Str} {query : Option Str}
    (hpath : ∀ c ∈ path, c ≠ '?' ∧ c ≠ '#') (hquery : ∀ q, query = some q → ∀ c ∈ q, c ≠ '#') :
    resolve base (parse ('/' :: path ++ query.elim [] ('?' :: ·))) =
        { base with path := '/' :: path, query, fragment := none } ↔
      ¬ Text.startsWith path '/' ∧ ∀ segment ∈ ('/' :: path).splitOn '/', ¬ IsDot segment := by
  by_cases htwo : Text.startsWith path '/' = true
  · obtain ⟨rest, rfl⟩ : ∃ rest, path = '/' :: rest := by
      cases path with
      | nil => cases htwo
      | cons c rest => exact ⟨rest, by rw [show c = '/' by simpa [Text.startsWith] using htwo]⟩
    rw [resolve_authority (fun c hc => hpath c (List.mem_cons_of_mem _ hc)) hquery]
    refine iff_of_false (fun heq => ?_) fun h => h.1 htwo
    have hlen := congrArg (fun u : UriReference => u.path.length) heq
    have hle := length_removeDotSegments_le (rest.dropWhile (· ≠ '/'))
    have hdrop := (List.dropWhile_sublist (· ≠ '/') (l := rest)).length_le
    simp only [List.length_cons] at hlen
    omega
  · rw [resolve_path hpath hquery htwo, UriReference.mk.injEq]
    simp [htwo, removeDotSegments_eq_self_iff]

/-! ## Relative references -/

/-- A dot segment in front is taken away. -/
theorem removeDotSegments_append {segment rest : Str} (hsegment : '/' ∉ segment)
    (hrest : ∀ s ∈ rest.splitOn '/', ¬ IsDot s) :
    removeDotSegments (segment ++ '/' :: rest) = if IsDot segment then rest else segment ++ '/' :: rest := by
  have hsplit : (segment ++ '/' :: rest).splitOn '/' = segment :: rest.splitOn '/' := by
    exact List.splitOn_append_cons_self_of_not_mem hsegment _
  split
  · rename_i hdot
    rw [removeDotSegments, hsplit, removeDots, if_pos hdot, removeDots_eq_self hrest, List.intercalate_splitOn]
  · rename_i hdot
    rw [removeDotSegments_eq_self_iff, hsplit]
    exact List.forall_mem_cons.mpr ⟨hdot, hrest⟩

theorem cutScheme_of_not_mem {s : Str} (h : ':' ∉ s) : cutScheme s = (none, s) := by
  rw [cutScheme, Text.splitOnce_eq_none fun c hc => ne_of_mem_of_not_mem hc h]

/-- Before the first colon stands a scheme when it is not empty and has no slash. -/
theorem cutScheme_append {scheme : Str} (h : ':' ∉ scheme) (rest : Str) : cutScheme (scheme ++ ':' :: rest) =
    if scheme = [] ∨ '/' ∈ scheme then (none, scheme ++ ':' :: rest) else (some scheme, rest) := by
  rw [cutScheme, Text.splitOnce_append fun c hc => ne_of_mem_of_not_mem hc h]

theorem parse_path {s : Str} (h : ∀ c ∈ s, c ≠ '?' ∧ c ≠ '#') : parse s =
    { scheme := (cutScheme s).1, authority := (cutAuthority (cutScheme s).2).1
      path := (cutAuthority (cutScheme s).2).2, query := none, fragment := none } := by
  have hparse := @parse_query s none h nofun
  rwa [Option.elim_none, List.append_nil] at hparse

/-- A path that starts with neither a scheme nor a slash takes the place of the last segment of the base. -/
theorem resolve_relative {base : UriReference} {s : Str} (h : ∀ c ∈ s, c ≠ '?' ∧ c ≠ '#')
    (hscheme : cutScheme s = (none, s)) (hne : s ≠ []) (hslash : ¬ Text.startsWith s '/' = true) :
    resolve base (parse s) =
      { base with path := removeDotSegments (merge base s), query := none, fragment := none } := by
  have hauthority : cutAuthority s = (none, s) := cutAuthority_of_not_slashes fun hpre => by
    obtain ⟨rest, rfl⟩ := hpre
    exact hslash rfl
  rw [parse_path h, hscheme, hauthority]
  unfold resolve
  simp [hne, hslash]

theorem merge_of_dir {base : UriReference} {dir last : Str} (hbase : base.path = dir ++ '/' :: last)
    (hlast : '/' ∉ last) (s : Str) : merge base s = dir ++ '/' :: s := by
  unfold merge
  rw [if_neg (by rintro ⟨_, h⟩; rw [hbase] at h; simp at h), hbase, Text.rsplitOnce_append hlast]

/-- What follows a scheme is resolved without the base. -/
theorem resolve_scheme {base : UriReference} {s scheme rest : Str} (h : ∀ c ∈ s, c ≠ '?' ∧ c ≠ '#')
    (hscheme : cutScheme s = (some scheme, rest)) (hrest : ¬ ['/', '/'] <+: rest) :
    resolve base (parse s) =
      { scheme := some scheme, authority := none, path := removeDotSegments rest, query := none, fragment := none } := by
  rw [parse_path h, hscheme, cutAuthority_of_not_slashes hrest]
  rfl

/-! ## References with a scheme and an authority -/

/-- What can stand before the colon of a scheme. -/
def IsSchemeText (scheme : Str) : Prop := scheme ≠ [] ∧ ∀ c ∈ scheme, c ≠ ':' ∧ c ≠ '/' ∧ c ≠ '?' ∧ c ≠ '#'

/-- The characters before the first slash, question mark or number sign. -/
def isAuthorityChar (c : Char) : Bool := c ≠ '/' && c ≠ '?' && c ≠ '#'

theorem cutAt_fst (c : Char) (s : Str) : (cutAt c s).1 = s.takeWhile (· ≠ c) := by
  by_cases hmem : c ∈ s
  · obtain ⟨before, after, rfl, hnot⟩ := List.eq_append_cons_of_mem hmem
    have hne : ∀ d ∈ before, d ≠ c := fun d hd => ne_of_mem_of_not_mem hd hnot
    rw [cutAt, Text.splitOnce_append hne, List.takeWhile_append_of_pos fun d hd => by simpa using hne d hd]
    simp
  · have hne : ∀ d ∈ s, d ≠ c := fun d hd => ne_of_mem_of_not_mem hd hmem
    rw [cutAt, Text.splitOnce_eq_none hne, List.takeWhile_eq_self_iff.mpr fun d hd => by simpa using hne d hd]

theorem cutScheme_isSchemeText {scheme : Str} (h : IsSchemeText scheme) (rest : Str) :
    cutScheme (scheme ++ ':' :: rest) = (some scheme, rest) := by
  have hcolon : ':' ∉ scheme := fun hmem => (h.2 _ hmem).1 rfl
  have hslash : ¬ (scheme = [] ∨ '/' ∈ scheme) := not_or.mpr ⟨h.1, fun hmem => (h.2 _ hmem).2.1 rfl⟩
  rw [cutScheme_append hcolon, if_neg hslash]

theorem parse_origin {scheme : Str} (h : IsSchemeText scheme) (rest : Str) :
    (parse (scheme ++ ':' :: '/' :: '/' :: rest)).scheme = some scheme ∧
      (parse (scheme ++ ':' :: '/' :: '/' :: rest)).authority = some (rest.takeWhile isAuthorityChar) := by
  have hkeep : ∀ c : Char, c = '?' ∨ c = '#' → ∀ t : Str, (scheme ++ ':' :: '/' :: '/' :: t).takeWhile (· ≠ c) =
      scheme ++ ':' :: '/' :: '/' :: t.takeWhile (· ≠ c) := by
    intro c hc t
    have hne : ∀ d ∈ scheme, d ≠ c := by
      intro d hd
      rcases hc with rfl | rfl
      · exact (h.2 d hd).2.2.1
      · exact (h.2 d hd).2.2.2
    rw [List.takeWhile_append_of_pos fun d hd => by simpa using hne d hd]
    rcases hc with rfl | rfl <;> rfl
  unfold parse
  dsimp only
  rw [cutAt_fst, cutAt_fst, hkeep '#' (.inr rfl), hkeep '?' (.inl rfl), cutScheme_isSchemeText h]
  refine ⟨rfl, ?_⟩
  show some (((rest.takeWhile (· ≠ '#')).takeWhile (· ≠ '?')).takeWhile (· ≠ '/')) = _
  rw [List.takeWhile_takeWhile, List.takeWhile_takeWhile]
  congr 2
  funext c
  simp [isAuthorityChar, Bool.and_assoc]

theorem cutAuthority_append {authority path : Str} (h : '/' ∉ authority) (hrooted : path = [] ∨ path.head? = some '/') :
    cutAuthority ('/' :: '/' :: (authority ++ path)) = (some authority, path) := by
  have hall : ∀ c ∈ authority, decide (c ≠ '/') = true := fun c hc => decide_eq_true (ne_of_mem_of_not_mem hc h)
  show (some ((authority ++ path).takeWhile (· ≠ '/')), (authority ++ path).dropWhile (· ≠ '/')) = _
  rw [List.takeWhile_append_of_pos hall, List.dropWhile_append_of_pos hall]
  cases path with
  | nil => rw [List.takeWhile_nil, List.append_nil, List.dropWhile_nil]
  | cons c path =>
      have hc : c = '/' := by simpa using hrooted
      simp [hc]

/-- An absolute reference with a path that is empty or starts with a slash. -/
theorem parse_absolute {scheme authority path : Str} {query : Option Str} (h : IsSchemeText scheme)
    (hauthority : ∀ c ∈ authority, isAuthorityChar c = true) (hpath : ∀ c ∈ path, c ≠ '?' ∧ c ≠ '#')
    (hquery : ∀ q, query = some q → ∀ c ∈ q, c ≠ '#') (hrooted : path = [] ∨ path.head? = some '/') :
    parse (scheme ++ ':' :: '/' :: '/' :: (authority ++ (path ++ query.elim [] ('?' :: ·)))) =
      { scheme := some scheme, authority := some authority, path, query, fragment := none } := by
  have hchar : ∀ c ∈ authority, c ≠ '/' ∧ c ≠ '?' ∧ c ≠ '#' := fun c hc => by
    simpa [isAuthorityChar, and_assoc] using hauthority c hc
  have hbefore : ∀ c ∈ scheme ++ ':' :: '/' :: '/' :: (authority ++ path), c ≠ '?' ∧ c ≠ '#' := by
    intro c hc
    simp only [List.mem_append, List.mem_cons] at hc
    rcases hc with hc | rfl | rfl | rfl | hc | hc
    · exact (h.2 c hc).2.2
    · decide
    · decide
    · decide
    · exact (hchar c hc).2
    · exact hpath c hc
  have htext : scheme ++ ':' :: '/' :: '/' :: (authority ++ (path ++ query.elim [] ('?' :: ·))) =
      scheme ++ ':' :: '/' :: '/' :: (authority ++ path) ++ query.elim [] ('?' :: ·) := by simp
  have hslash : '/' ∉ authority := fun hmem => (hchar _ hmem).1 rfl
  rw [htext, parse_query hbefore hquery, cutScheme_isSchemeText h, cutAuthority_append hslash hrooted]

end UriReference

import Mathlib.Data.List.DropRight
import WeaveGate.Lib.Text

/-!
# Media types

`type/subtype; name=value; name="value"`, read character by character. Blanks may stand before a name and after a
quoted value, and the text may end behind a semicolon. The last value may be empty when it is not quoted, and the
subtype when nothing follows it.
-/

/-- The characters of names and plain values. -/
structure MediaType.Tokens where
  isToken : Char → Bool
  separator : ∀ c ∈ [' ', ';', '=', '"', '/'], isToken c = false
  blank : ∀ c, Text.isWhitespace c = true → isToken c = false
  word : ∀ c ∈ "charset".toList ++ "utf-8".toList, isToken c = true

/-- Types and names are in lower case. -/
structure MediaType where
  type : Str
  subtype : Str
  params : List (Str × Str)
deriving DecidableEq

namespace MediaType

def essence (m : MediaType) : Str := m.type ++ '/' :: m.subtype

def charset? (m : MediaType) : Option Str := m.params.lookup "charset".toList

/-- Names of character sets are put in lower case as well. -/
def add (m : MediaType) (name value : Str) : MediaType :=
  let name := Text.toAsciiLowercase name
  { m with params := m.params ++ [(name, if name = "charset".toList then Text.toAsciiLowercase value else value)] }

def ofNames (type subtype : Str) : MediaType := ⟨Text.toAsciiLowercase type, Text.toAsciiLowercase subtype, []⟩

/-! ## Reading -/

inductive Place where
  | type (type : Str)
  | subtype (type subtype : Str)
  /-- Behind a semicolon. -/
  | gap (m : MediaType)
  | name (m : MediaType) (name : Str)
  | value (m : MediaType) (name value : Str)
  | quoted (m : MediaType) (name value : Str)
  /-- Behind a quoted value. -/
  | closed (m : MediaType)

variable (k : Tokens)

def step : Place → Char → Option Place
  | .type t, c =>
      if k.isToken c then some (.type (t ++ [c])) else if c = '/' ∧ t ≠ [] then some (.subtype t []) else none
  | .subtype t s, c =>
      if k.isToken c then some (.subtype t (s ++ [c]))
      else if c = ';' ∧ s ≠ [] then some (.gap (ofNames t s)) else none
  | .gap m, c => if c = ' ' then some (.gap m) else if k.isToken c then some (.name m [c]) else none
  | .name m n, c =>
      if k.isToken c then some (.name m (n ++ [c])) else if c = '=' then some (.value m n []) else none
  | .value m n v, c =>
      if c = '"' ∧ v = [] then some (.quoted m n [])
      else if k.isToken c then some (.value m n (v ++ [c]))
      else if c = ';' ∧ v ≠ [] then some (.gap (m.add n v)) else none
  | .quoted m n v, c =>
      if c = '"' ∧ v ≠ [] then some (.closed (m.add n v))
      else if 32 ≤ c.toNat ∧ c.toNat ≠ 127 then some (.quoted m n (v ++ [c])) else none
  | .closed m, c => if c = ';' then some (.gap m) else if c = ' ' then some (.closed m) else none

def finish : Place → Option MediaType
  | .subtype t s => some (ofNames t s)
  | .gap m => some m
  | .value m n v => some (m.add n v)
  | .closed m => some m
  | _ => none

def run (text : Str) : Option Place := text.foldlM (step k) (.type [])

def read (text : Str) : Option MediaType :=
  if text = "*/*".toList then some ⟨['*'], ['*'], []⟩ else (run k text).bind finish

variable {k}

/-- What one character can do. -/
inductive Reads (k : Tokens) : Place → Char → Place → Prop
  | type {t : Str} {c : Char} (hc : k.isToken c = true) : Reads k (.type t) c (.type (t ++ [c]))
  | slash {t : Str} (ht : t ≠ []) : Reads k (.type t) '/' (.subtype t [])
  | subtype {t s : Str} {c : Char} (hc : k.isToken c = true) : Reads k (.subtype t s) c (.subtype t (s ++ [c]))
  | noParam {t s : Str} (hs : s ≠ []) : Reads k (.subtype t s) ';' (.gap (ofNames t s))
  | blank {m : MediaType} : Reads k (.gap m) ' ' (.gap m)
  | first {m : MediaType} {c : Char} (hc : k.isToken c = true) : Reads k (.gap m) c (.name m [c])
  | name {m : MediaType} {n : Str} {c : Char} (hc : k.isToken c = true) :
      Reads k (.name m n) c (.name m (n ++ [c]))
  | equals {m : MediaType} {n : Str} : Reads k (.name m n) '=' (.value m n [])
  | quote {m : MediaType} {n : Str} : Reads k (.value m n []) '"' (.quoted m n [])
  | value {m : MediaType} {n v : Str} {c : Char} (hc : k.isToken c = true) :
      Reads k (.value m n v) c (.value m n (v ++ [c]))
  | param {m : MediaType} {n v : Str} (hv : v ≠ []) : Reads k (.value m n v) ';' (.gap (m.add n v))
  | quoted {m : MediaType} {n v : Str} {c : Char} : Reads k (.quoted m n v) c (.quoted m n (v ++ [c]))
  | unquote {m : MediaType} {n v : Str} (hv : v ≠ []) : Reads k (.quoted m n v) '"' (.closed (m.add n v))
  | next {m : MediaType} : Reads k (.closed m) ';' (.gap m)
  | pad {m : MediaType} : Reads k (.closed m) ' ' (.closed m)

theorem reads_of_step {p q : Place} {c : Char} (h : step k p c = some q) : Reads k p c q := by
  cases p with
  | type t =>
      dsimp only [step] at h
      split_ifs at h with hc hslash
      · cases h; exact .type hc
      · obtain ⟨rfl, ht⟩ := hslash; cases h; exact .slash ht
  | subtype t s =>
      dsimp only [step] at h
      split_ifs at h with hc hsemi
      · cases h; exact .subtype hc
      · obtain ⟨rfl, hs⟩ := hsemi; cases h; exact .noParam hs
  | gap m =>
      dsimp only [step] at h
      split_ifs at h with hblank hc
      · cases hblank; cases h; exact .blank
      · cases h; exact .first hc
  | name m n =>
      dsimp only [step] at h
      split_ifs at h with hc hequals
      · cases h; exact .name hc
      · cases hequals; cases h; exact .equals
  | value m n v =>
      dsimp only [step] at h
      split_ifs at h with hquote hc hsemi
      · obtain ⟨rfl, rfl⟩ := hquote; cases h; exact .quote
      · cases h; exact .value hc
      · obtain ⟨rfl, hv⟩ := hsemi; cases h; exact .param hv
  | quoted m n v =>
      dsimp only [step] at h
      split_ifs at h with hquote hplain
      · obtain ⟨rfl, hv⟩ := hquote; cases h; exact .unquote hv
      · cases h; exact .quoted
  | closed m =>
      dsimp only [step] at h
      split_ifs at h with hsemi hblank
      · cases hsemi; cases h; exact .next
      · cases hblank; cases h; exact .pad

theorem run_append (a b : Str) : run k (a ++ b) = (run k a).bind fun p => b.foldlM (step k) p := List.foldlM_append

theorem run_concat (a : Str) (c : Char) : run k (a ++ [c]) = (run k a).bind fun p => step k p c := by
  rw [run_append]
  simp

/-- Every character is read from a place before it. -/
theorem exists_reads {a : Str} {c : Char} {p : Place} (h : run k (a ++ [c]) = some p) :
    ∃ q, run k a = some q ∧ step k q c = some p ∧ Reads k q c p := by
  rw [run_concat] at h
  obtain ⟨q, hq, hstep⟩ := Option.bind_eq_some_iff.mp h
  exact ⟨q, hq, hstep, reads_of_step hstep⟩

/-! ## The end of a text -/

/-- Behind a semicolon there are only blanks. -/
theorem run_gap {text : Str} {m : MediaType} (h : run k text = some (.gap m)) : ∃ before n p,
    text = before ++ ';' :: List.replicate n ' ' ∧ run k before = some p ∧ step k p ';' = some (.gap m) := by
  induction text using List.reverseRecOn with
  | nil => cases h
  | append_singleton text c ih =>
      obtain ⟨q, hq, hstep, hreads⟩ := exists_reads h
      have hsemi : c = ';' → ∃ before n p, text ++ [c] = before ++ ';' :: List.replicate n ' ' ∧
          run k before = some p ∧ step k p ';' = some (.gap m) := by
        rintro rfl
        exact ⟨text, 0, q, rfl, hq, hstep⟩
      cases hreads with
      | blank =>
          obtain ⟨before, n, p, htext, hp, hgap⟩ := ih hq
          refine ⟨before, n + 1, p, ?_, hp, hgap⟩
          rw [htext, List.replicate_succ', List.append_assoc, List.cons_append]
      | noParam _ => exact hsemi rfl
      | param _ => exact hsemi rfl
      | next => exact hsemi rfl

/-- Behind a quoted value too. -/
theorem run_closed {text : Str} {m : MediaType} (h : run k text = some (.closed m)) : ∃ before n,
    text = before ++ '"' :: List.replicate n ' ' ∧ run k (before ++ ['"']) = some (.closed m) := by
  induction text using List.reverseRecOn with
  | nil => cases h
  | append_singleton text c ih =>
      obtain ⟨q, hq, hstep, hreads⟩ := exists_reads h
      cases hreads with
      | pad =>
          obtain ⟨before, n, htext, hclosed⟩ := ih hq
          refine ⟨before, n + 1, ?_, hclosed⟩
          rw [htext, List.replicate_succ', List.append_assoc, List.cons_append]
      | unquote _ => exact ⟨text, 0, rfl, h⟩

/-- A text that a semicolon may follow does not end in one. -/
theorem getLast?_of_step_semicolon {text : Str} {p : Place} {m : MediaType} (hrun : run k text = some p)
    (h : step k p ';' = some (.gap m)) : text.getLast? ≠ some ';' := by
  rcases List.eq_nil_or_concat text with rfl | ⟨text, c, rfl⟩
  · simp
  · rw [List.concat_eq_append] at hrun ⊢
    rw [List.getLast?_append]
    rintro hc
    have hc : c = ';' := by simpa using hc
    subst hc
    obtain ⟨q, _, _, hreads⟩ := exists_reads hrun
    have hsemi := k.separator ';' (by decide)
    have hnext := reads_of_step h
    have htoken : k.isToken ';' ≠ true := by
      rw [hsemi]
      decide
    cases hreads with
    | type hc => exact htoken hc
    | subtype hc => exact htoken hc
    | first hc => exact htoken hc
    | name hc => exact htoken hc
    | value hc => exact htoken hc
    | noParam _ => cases hnext
    | param _ => cases hnext
    | next => cases hnext
    | quoted => cases hnext

/-! ## Without blanks and a semicolon at the end -/

def trimmed (text : Str) : Str := Text.trimEndMatches ';' (Text.trimEnd text)

theorem trimEnd_append_blanks (text : Str) {c : Char} (hc : Text.isWhitespace c = false) (n : Nat) :
    Text.trimEnd (text ++ c :: List.replicate n ' ') = text ++ [c] := by
  unfold Text.trimEnd
  induction n with
  | zero => exact List.rdropWhile_concat_neg _ _ _ (by simp [hc])
  | succ n ih =>
      rw [List.replicate_succ', ← List.cons_append, ← List.append_assoc]
      exact (List.rdropWhile_concat_pos _ _ _ (by decide)).trans ih

theorem trimEndMatches_of_getLast? {text : Str} (h : text.getLast? ≠ some ';') :
    Text.trimEndMatches ';' text = text := by
  unfold Text.trimEndMatches
  rw [List.rdropWhile_eq_self_iff]
  intro hne hlast
  rw [List.getLast?_eq_some_getLast hne] at h
  exact h (congrArg some (of_decide_eq_true hlast))

theorem trimmed_of_last {text : Str} {c : Char} (hc : Text.isWhitespace c = false) (hsemi : c ≠ ';') :
    trimmed (text ++ [c]) = text ++ [c] := by
  have htrim := trimEnd_append_blanks text hc 0
  rw [List.replicate_zero] at htrim
  rw [trimmed, htrim]
  exact trimEndMatches_of_getLast? (by simpa using hsemi)

theorem token_spec {c : Char} (hc : k.isToken c = true) : Text.isWhitespace c = false ∧ c ≠ ';' ∧ c ≠ '=' := by
  refine ⟨?_, ?_, ?_⟩
  · rw [← Bool.not_eq_true]
    intro hblank
    rw [k.blank c hblank] at hc
    cases hc
  · rintro rfl
    rw [k.separator ';' (by decide)] at hc
    cases hc
  · rintro rfl
    rw [k.separator '=' (by decide)] at hc
    cases hc

theorem getLast?_append_blanks (text : Str) {c : Char} (hc : c ≠ '=') (n : Nat) :
    (text ++ c :: List.replicate n ' ').getLast? ≠ some '=' := by
  cases n with
  | zero => simpa using hc
  | succ n =>
      rw [List.replicate_succ', ← List.cons_append, ← List.append_assoc, List.getLast?_concat]
      decide

/-- What is left has been read to a place that a semicolon may follow, unless the last value is empty. -/
theorem run_trimmed {text : Str} {p : Place} {m : MediaType} (hrun : run k text = some p) (hm : finish p = some m)
    (hsubtype : m.subtype ≠ []) :
    (∃ q, run k (trimmed text) = some q ∧ step k q ';' = some (.gap m)) ∧ text.getLast? ≠ some '=' ∨
      (∃ m' n, p = .value m' n []) ∧ trimmed text = text ∧ text.getLast? = some '=' := by
  have hsemi := k.separator ';' (by decide)
  -- behind a character of a name or a plain value nothing is taken off
  have htoken : ∀ init c, text = init ++ [c] → k.isToken c = true → step k p ';' = some (.gap m) →
      (∃ q, run k (trimmed text) = some q ∧ step k q ';' = some (.gap m)) ∧ text.getLast? ≠ some '=' := by
    rintro init c rfl hc hgap
    obtain ⟨hblank, hne, hequals⟩ := token_spec hc
    rw [trimmed_of_last hblank hne, List.getLast?_concat]
    exact ⟨⟨p, hrun, hgap⟩, by simpa using hequals⟩
  cases p with
  | type t => cases hm
  | name m' n => cases hm
  | quoted m' n v => cases hm
  | subtype t s =>
      left
      cases hm
      have hs : s ≠ [] := by
        rintro rfl
        exact hsubtype rfl
      have hgap : step k (.subtype t s) ';' = some (.gap (ofNames t s)) := by simp [step, hsemi, hs]
      rcases List.eq_nil_or_concat text with rfl | ⟨init, c, rfl⟩
      · cases hrun
      · rw [List.concat_eq_append] at hrun htoken ⊢
        obtain ⟨q, _, _, hreads⟩ := exists_reads hrun
        cases hreads with
        | slash _ => exact absurd rfl hs
        | subtype hc => exact htoken init c rfl hc hgap
  | value m' n v =>
      cases hm
      rcases List.eq_nil_or_concat text with rfl | ⟨init, c, rfl⟩
      · cases hrun
      · rw [List.concat_eq_append] at hrun htoken ⊢
        obtain ⟨q, _, _, hreads⟩ := exists_reads hrun
        cases hreads with
        | equals => exact .inr ⟨⟨m', n, rfl⟩, trimmed_of_last (by decide) (by decide), List.getLast?_concat⟩
        | value hc => exact .inl (htoken init c rfl hc (by simp [step, hsemi]))
  | gap m' =>
      cases hm
      obtain ⟨before, n, q, rfl, hq, hgap⟩ := run_gap hrun
      refine .inl ⟨⟨q, ?_, hgap⟩, getLast?_append_blanks before (by decide) n⟩
      rw [trimmed, trimEnd_append_blanks before (by decide) n]
      have hdrop : Text.trimEndMatches ';' (before ++ [';']) = Text.trimEndMatches ';' before :=
        List.rdropWhile_concat_pos _ _ _ (by decide)
      rw [hdrop, trimEndMatches_of_getLast? (getLast?_of_step_semicolon hq hgap), hq]
  | closed m' =>
      cases hm
      obtain ⟨before, n, rfl, hclosed⟩ := run_closed hrun
      refine .inl ⟨⟨.closed m, ?_, rfl⟩, getLast?_append_blanks before (by decide) n⟩
      rw [trimmed, trimEnd_append_blanks before (by decide) n]
      rw [trimEndMatches_of_getLast? (by simp), hclosed]

/-! ## One more parameter -/

theorem foldlM_name (m : MediaType) (n : Str) {w : Str} (hw : ∀ c ∈ w, k.isToken c = true) :
    w.foldlM (step k) (.name m n) = some (.name m (n ++ w)) := by
  induction w generalizing n with
  | nil => simp
  | cons c w ih =>
      have hstep : step k (.name m n) c = some (.name m (n ++ [c])) := if_pos (hw c List.mem_cons_self)
      rw [List.foldlM_cons, hstep]
      show w.foldlM (step k) (.name m (n ++ [c])) = _
      rw [ih _ fun d hd => hw d (List.mem_cons_of_mem _ hd), List.append_assoc, List.singleton_append]

theorem foldlM_value (m : MediaType) (n v : Str) {w : Str} (hw : ∀ c ∈ w, k.isToken c = true) :
    w.foldlM (step k) (.value m n v) = some (.value m n (v ++ w)) := by
  induction w generalizing v with
  | nil => simp
  | cons c w ih =>
      have hc := hw c List.mem_cons_self
      have hquote : ¬ (c = '"' ∧ v = []) := by
        rintro ⟨rfl, _⟩
        rw [k.separator '"' (by decide)] at hc
        cases hc
      have hstep : step k (.value m n v) c = some (.value m n (v ++ [c])) := (if_neg hquote).trans (if_pos hc)
      rw [List.foldlM_cons, hstep]
      show w.foldlM (step k) (.value m n (v ++ [c])) = _
      rw [ih _ fun d hd => hw d (List.mem_cons_of_mem _ hd), List.append_assoc, List.singleton_append]

def utf8Param : Str := "; charset=utf-8".toList

theorem foldlM_utf8Param {p : Place} {m : MediaType} (h : step k p ';' = some (.gap m)) :
    utf8Param.foldlM (step k) p = some (.value m "charset".toList "utf-8".toList) := by
  have hparts : utf8Param = [';', ' ', 'c'] ++ ("harset".toList ++ ('=' :: "utf-8".toList)) := by decide
  have hfirst : k.isToken 'c' = true := k.word 'c' (by decide)
  have hname : ∀ c ∈ "harset".toList, k.isToken c = true := fun c hc =>
    k.word c (List.mem_append_left _ (List.mem_cons_of_mem 'c' hc))
  have hvalue : ∀ c ∈ "utf-8".toList, k.isToken c = true := fun c hc => k.word c (List.mem_append_right _ hc)
  have hequals : step k (.name m "charset".toList) '=' = some (.value m "charset".toList []) := by
    simp [step, k.separator '=' (by decide)]
  have hgap : [';', ' ', 'c'].foldlM (step k) p = some (.name m ['c']) := by
    rw [List.foldlM_cons, h]
    simp [step, hfirst]
  rw [hparts, List.foldlM_append, hgap]
  show ("harset".toList ++ _).foldlM (step k) (.name m ['c']) = _
  rw [List.foldlM_append, foldlM_name m _ hname]
  show ('=' :: _).foldlM (step k) (.name m "charset".toList) = _
  rw [List.foldlM_cons, hequals]
  exact foldlM_value m _ [] hvalue

/-- A text goes on with a parameter for UTF-8, unless its last value is empty. -/
theorem read_utf8Param {text : Str} {m : MediaType} (hstar : text ≠ "*/*".toList) (h : read k text = some m)
    (hsubtype : m.subtype ≠ []) :
    read k (trimmed text ++ utf8Param) =
      if text.getLast? = some '=' then none else some (m.add "charset".toList "utf-8".toList) := by
  rw [read, if_neg hstar] at h
  obtain ⟨p, hrun, hm⟩ := Option.bind_eq_some_iff.mp h
  have hlong : trimmed text ++ utf8Param ≠ "*/*".toList := by
    intro hsame
    have hlength := congrArg List.length hsame
    rw [List.length_append, show utf8Param.length = 15 from rfl, show "*/*".toList.length = 3 from rfl] at hlength
    omega
  rw [read, if_neg hlong, run_append]
  rcases run_trimmed hrun hm hsubtype with ⟨⟨q, hq, hgap⟩, hlast⟩ | ⟨⟨m', n, rfl⟩, htrim, hlast⟩
  · rw [hq, Option.bind_some, foldlM_utf8Param hgap, if_neg hlast]
    rfl
  · have hnone : step k (.value m' n []) ';' = none := by simp [step, k.separator ';' (by decide)]
    rw [htrim, hrun, Option.bind_some, if_pos hlast, show utf8Param = ';' :: " charset=utf-8".toList by decide,
      List.foldlM_cons, hnone]
    rfl

/-! ## Tokens of HTTP -/

/-- The printable characters that delimit nothing. -/
def isTchar (c : Char) : Bool := (33 ≤ c.toNat && c.toNat < 127) && c ∉ "\"(),/:;<=>?@[\\]\x7b\x7d".toList

def tchars : Tokens where
  isToken := isTchar
  separator := by
    have hall : [' ', ';', '=', '"', '/'].all (fun c => !isTchar c) = true := by decide
    exact fun c hc => Bool.not_inj (List.all_eq_true.mp hall c hc)
  blank := by
    intro c hc
    rw [isTchar, Bool.and_eq_false_iff, Bool.and_eq_false_iff, decide_eq_false_iff_not, decide_eq_false_iff_not]
    simp only [Text.isWhitespace, Bool.or_eq_true, Bool.and_eq_true, decide_eq_true_eq] at hc
    omega
  word := by
    have hall : ("charset".toList ++ "utf-8".toList).all isTchar = true := by decide
    exact List.all_eq_true.mp hall

example : read tchars "Text/plain; A=\"b;\" ;".toList =
    some ⟨"text".toList, "plain".toList, [("a".toList, "b;".toList)]⟩ := by decide

end MediaType

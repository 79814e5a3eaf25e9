import WeaveGate.Lib.Text

/-!
# IP addresses as texts

The parser and the printer of Rust's `std::net`. In an IPv6 address the longest run of zero groups is left out.
-/

structure Ipv4Addr where
  a : UInt8
  b : UInt8
  c : UInt8
  d : UInt8
deriving DecidableEq

structure Ipv6Addr where
  segments : List UInt16
  length : segments.length = 8
deriving DecidableEq

inductive IpAddr where
  | v4 (addr : Ipv4Addr)
  | v6 (addr : Ipv6Addr)
deriving DecidableEq

namespace IpAddr

def fromBeBytes (high low : UInt8) : UInt16 := UInt16.ofNat (256 * high.toNat + low.toNat)

/-- The two groups that an IPv4 address stands for in an IPv6 address. -/
def ipv4Groups (addr : Ipv4Addr) : List UInt16 := [fromBeBytes addr.a addr.b, fromBeBytes addr.c addr.d]

/-! ## Reading -/

def digitValue (c : Char) : Option Nat :=
  let n := c.toNat
  if 48 ≤ n ∧ n ≤ 57 then some (n - 48)
  else if 97 ≤ n ∧ n ≤ 122 then some (n - 87)
  else if 65 ≤ n ∧ n ≤ 90 then some (n - 55)
  else none

def toDigit (radix : Nat) (c : Char) : Option Nat := (digitValue c).filter (· < radix)

def readNumber (radix maxDigits : Nat) (allowZeroPrefix : Bool) (s : Str) : Option (Nat × Str) :=
  let isDigit (c : Char) := (toDigit radix c).isSome
  let digits := s.takeWhile isDigit
  if digits = [] ∨ maxDigits < digits.length then none
  else if allowZeroPrefix = false ∧ digits.head? = some '0' ∧ 1 < digits.length then none
  else some (digits.foldl (fun n c => radix * n + (toDigit radix c).getD 0) 0, s.dropWhile isDigit)

def readGivenChar (c : Char) : Str → Option Str
  | [] => none
  | d :: s => if d = c then some s else none

/-- A separator, which stands before all but the first. -/
def readSeparator (sep : Char) (first : Bool) (s : Str) : Option Str := if first then some s else readGivenChar sep s

def readOctet (first : Bool) (s : Str) : Option (UInt8 × Str) := do
  let s ← readSeparator '.' first s
  let (n, s) ← readNumber 10 3 false s
  if n < 256 then some (UInt8.ofNat n, s) else none

def readIpv4Addr (s : Str) : Option (Ipv4Addr × Str) := do
  let (a, s) ← readOctet true s
  let (b, s) ← readOctet false s
  let (c, s) ← readOctet false s
  let (d, s) ← readOctet false s
  return (⟨a, b, c, d⟩, s)

/-- Groups up to a limit, whether the last of them are an IPv4 address, and what is left. -/
def readGroups : Nat → Bool → Str → List UInt16 × Bool × Str
  | 0, _, s => ([], false, s)
  | limit + 1, first, s =>
      match if limit = 0 then none else (readSeparator ':' first s).bind readIpv4Addr with
      | some (addr, rest) => (ipv4Groups addr, true, rest)
      | none =>
          match (readSeparator ':' first s).bind (readNumber 16 4 true) with
          | none => ([], false, s)
          | some (group, rest) =>
              let (groups, ipv4, rest) := readGroups limit false rest
              (UInt16.ofNat group :: groups, ipv4, rest)

theorem readGroups_length (limit : Nat) (first : Bool) (s : Str) : (readGroups limit first s).1.length ≤ limit := by
  induction limit generalizing first s with
  | zero => exact Nat.le_refl 0
  | succ limit ih =>
      unfold readGroups
      split
      · rename_i heq
        split at heq
        · cases heq
        · simp only [ipv4Groups, List.length_cons, List.length_nil]
          omega
      · split
        · exact Nat.zero_le _
        · exact Nat.succ_le_succ (ih _ _)

def readIpv6Addr (s : Str) : Option (Ipv6Addr × Str) :=
  let head := readGroups 8 true s
  if h : head.1.length = 8 then some (⟨head.1, h⟩, head.2.2)
  else if head.2.1 then none
  else do
    let s ← readGivenChar ':' head.2.2
    let s ← readGivenChar ':' s
    let tail := readGroups (8 - (head.1.length + 1)) true s
    have hlength : (head.1 ++ List.replicate (8 - head.1.length - tail.1.length) 0 ++ tail.1).length = 8 := by
      have hhead : head.1.length ≤ 8 := readGroups_length 8 true _
      have htail : tail.1.length ≤ 8 - (head.1.length + 1) := readGroups_length _ true s
      simp only [List.length_append, List.length_replicate]
      omega
    return (⟨_, hlength⟩, tail.2.2)

def parse (s : Str) : Option IpAddr :=
  match ((readIpv4Addr s).map fun r => (v4 r.1, r.2)).or ((readIpv6Addr s).map fun r => (v6 r.1, r.2)) with
  | some (addr, []) => some addr
  | _ => none

/-! ## Printing -/

structure Span where
  start : Nat
  len : Nat

/-- The first of the longest runs of zero groups from the `i`-th on, with the longest up to there and the run that it
belongs to. -/
def longestZeroes : List UInt16 → Nat → Span → Span → Span
  | [], _, longest, _ => longest
  | segment :: rest, i, longest, current =>
      if segment = 0 then
        let current : Span := ⟨if current.len = 0 then i else current.start, current.len + 1⟩
        longestZeroes rest (i + 1) (if longest.len < current.len then current else longest) current
      else longestZeroes rest (i + 1) longest ⟨0, 0⟩

def fmtIpv4 (addr : Ipv4Addr) : Str :=
  Nat.toDigits 10 addr.a.toNat ++ '.' :: Nat.toDigits 10 addr.b.toNat ++ '.' :: Nat.toDigits 10 addr.c.toNat ++
    '.' :: Nat.toDigits 10 addr.d.toNat

def fmtSubslice (groups : List UInt16) : Str := [':'].intercalate (groups.map fun g => Nat.toDigits 16 g.toNat)

def highByte (g : UInt16) : UInt8 := UInt8.ofNat (g.toNat / 256)
def lowByte (g : UInt16) : UInt8 := UInt8.ofNat (g.toNat % 256)

/-- The IPv4 address that an IPv6 address of the form `::ffff:a.b.c.d` stands for. -/
def toIpv4Mapped (addr : Ipv6Addr) : Option Ipv4Addr :=
  match addr.segments with
  | [0, 0, 0, 0, 0, 0xFFFF, ab, cd] => some ⟨highByte ab, lowByte ab, highByte cd, lowByte cd⟩
  | _ => none

def fmtIpv6 (addr : Ipv6Addr) : Str :=
  match toIpv4Mapped addr with
  | some mapped => "::ffff:".toList ++ fmtIpv4 mapped
  | none =>
      let zeroes := longestZeroes addr.segments 0 ⟨0, 0⟩ ⟨0, 0⟩
      if 1 < zeroes.len then
        fmtSubslice (addr.segments.take zeroes.start) ++ "::".toList ++
          fmtSubslice (addr.segments.drop (zeroes.start + zeroes.len))
      else fmtSubslice addr.segments

def display : IpAddr → Str
  | v4 addr => fmtIpv4 addr
  | v6 addr => fmtIpv6 addr

/-! ## Numbers that were printed -/

theorem toDigit_digitChar {radix d : Nat} (hradix : radix ≤ 16) (h : d < radix) :
    toDigit radix (Nat.digitChar d) = some d := by
  have hvalue : ∀ d < 16, digitValue (Nat.digitChar d) = some d := by decide
  rw [toDigit, hvalue d (by omega)]
  simp [h]

theorem toDigits_isDigit {radix : Nat} (hradix : 1 < radix ∧ radix ≤ 16) (n : Nat) :
    ∀ c ∈ Nat.toDigits radix n, (toDigit radix c).isSome = true := by
  induction n using Nat.strongRecOn with
  | _ n ih =>
      intro c hc
      rw [Nat.toDigits_eq_if hradix.1] at hc
      split at hc
      · rw [List.mem_singleton.mp hc, toDigit_digitChar hradix.2 (by assumption)]
        rfl
      · rcases List.mem_append.mp hc with hc | hc
        · exact ih _ (Nat.div_lt_self (by omega) hradix.1) c hc
        · rw [List.mem_singleton.mp hc, toDigit_digitChar hradix.2 (Nat.mod_lt _ (by omega))]
          rfl

theorem foldl_toDigits {radix : Nat} (hradix : 1 < radix ∧ radix ≤ 16) (n : Nat) :
    (Nat.toDigits radix n).foldl (fun n c => radix * n + (toDigit radix c).getD 0) 0 = n := by
  induction n using Nat.strongRecOn with
  | _ n ih =>
      rw [Nat.toDigits_eq_if hradix.1]
      split
      · simp [toDigit_digitChar hradix.2 (by assumption)]
      · rw [List.foldl_append, ih _ (Nat.div_lt_self (by omega) hradix.1)]
        simp [toDigit_digitChar hradix.2 (Nat.mod_lt n (by omega : radix > 0)), Nat.div_add_mod]

theorem toDigits_zero_head {radix : Nat} (hradix : 1 < radix ∧ radix ≤ 16) (n : Nat) :
    (Nat.toDigits radix n).head? = some '0' → (Nat.toDigits radix n).length = 1 := by
  have hzero : ∀ n, n ≠ 0 → (Nat.toDigits radix n).head? ≠ some '0' := by
    intro n
    induction n using Nat.strongRecOn with
    | _ n ih =>
        intro hn
        rw [Nat.toDigits_eq_if hradix.1]
        split
        · rename_i hlt
          intro h
          have hchar : Nat.digitChar n = '0' := Option.some.inj h
          have hdigit := toDigit_digitChar hradix.2 hlt
          rw [hchar] at hdigit
          have hvalue : toDigit radix '0' = some 0 := toDigit_digitChar hradix.2 (d := 0) (by omega)
          exact hn (Option.some.inj (hdigit.symm.trans hvalue))
        · rename_i hlt
          have hdiv : n / radix ≠ 0 := Nat.div_ne_zero_iff.mpr ⟨by omega, by omega⟩
          rw [List.head?_append_of_ne_nil _ Nat.toDigits_ne_nil]
          exact ih _ (Nat.div_lt_self (by omega) hradix.1) hdiv
  intro h
  by_cases hn : n = 0
  · rw [hn, Nat.toDigits_zero]
    rfl
  · exact absurd h (hzero n hn)

/-- A number is read up to what is no digit. -/
theorem readNumber_toDigits {radix maxDigits n : Nat} (hradix : 1 < radix ∧ radix ≤ 16) (hmax : 0 < maxDigits)
    (hn : n < radix ^ maxDigits) (allowZeroPrefix : Bool) {s : Str} (hs : ∀ c ∈ s.head?, toDigit radix c = none) :
    readNumber radix maxDigits allowZeroPrefix (Nat.toDigits radix n ++ s) = some (n, s) := by
  have htake : (Nat.toDigits radix n ++ s).takeWhile (fun c => (toDigit radix c).isSome) = Nat.toDigits radix n := by
    rw [List.takeWhile_append_of_pos (toDigits_isDigit hradix n)]
    cases s with
    | nil => simp
    | cons c s => simp [hs c rfl]
  have hdrop : (Nat.toDigits radix n ++ s).dropWhile (fun c => (toDigit radix c).isSome) = s := by
    rw [List.dropWhile_append_of_pos (toDigits_isDigit hradix n)]
    cases s with
    | nil => rfl
    | cons c s => simp [hs c rfl]
  have hlength := (Nat.length_toDigits_le_iff hradix.1 hmax).mpr hn
  unfold readNumber
  simp only [htake, hdrop]
  rw [if_neg (not_or.mpr ⟨Nat.toDigits_ne_nil, Nat.not_lt.mpr hlength⟩), if_neg, foldl_toDigits hradix]
  rintro ⟨_, hhead, hlong⟩
  have := toDigits_zero_head hradix n hhead
  omega

theorem readNumber_eq_none {radix maxDigits : Nat} (allowZeroPrefix : Bool) {s : Str}
    (hs : ∀ c ∈ s.head?, toDigit radix c = none) : readNumber radix maxDigits allowZeroPrefix s = none := by
  have htake : s.takeWhile (fun c => (toDigit radix c).isSome) = [] := by
    cases s with
    | nil => rfl
    | cons c s => simp [hs c rfl]
  unfold readNumber
  simp only [htake, true_or, if_true]

theorem readNumber_eq_some {radix maxDigits n : Nat} {allowZeroPrefix : Bool} {s rest : Str}
    (h : readNumber radix maxDigits allowZeroPrefix s = some (n, rest)) :
    rest = s.dropWhile fun c => (toDigit radix c).isSome := by
  unfold readNumber at h
  dsimp only at h
  split at h
  · cases h
  · split at h
    · cases h
    · cases h
      rfl

/-! ## IPv4 -/

theorem dot_no_digit {s : Str} : ∀ c ∈ ('.' :: s).head?, toDigit 10 c = none := by
  simp only [List.head?_cons, Option.mem_some_iff, forall_eq']
  decide

theorem readOctet_toDigits (first : Bool) (n : UInt8) {s : Str} (hs : ∀ c ∈ s.head?, toDigit 10 c = none) :
    readOctet first ((if first then [] else ['.']) ++ Nat.toDigits 10 n.toNat ++ s) = some (n, s) := by
  have hnumber : readNumber 10 3 false (Nat.toDigits 10 n.toNat ++ s) = some (n.toNat, s) :=
    readNumber_toDigits (by decide) (by decide) (Nat.lt_of_lt_of_le n.toNat_lt (by decide)) false hs
  have hseparator : readSeparator '.' first ((if first then [] else ['.']) ++ Nat.toDigits 10 n.toNat ++ s) =
      some (Nat.toDigits 10 n.toNat ++ s) := by
    cases first <;> rfl
  unfold readOctet
  simp only [hseparator, hnumber, Option.bind_eq_bind, Option.bind_some, if_pos (show n.toNat < 256 from n.toNat_lt),
    UInt8.ofNat_toNat]

theorem readOctet_rest {s : Str} {r : UInt8 × Str} (h : readOctet true s = some r) :
    r.2 = s.dropWhile fun c => (toDigit 10 c).isSome := by
  unfold readOctet readSeparator at h
  simp only [if_true, Option.bind_eq_bind, Option.bind_some] at h
  obtain ⟨number, hnumber, h⟩ := Option.bind_eq_some_iff.mp h
  split at h
  · cases h
    exact readNumber_eq_some hnumber
  · cases h

theorem readIpv4Addr_fmtIpv4 (addr : Ipv4Addr) {s : Str} (hs : ∀ c ∈ s.head?, toDigit 10 c = none) :
    readIpv4Addr (fmtIpv4 addr ++ s) = some (addr, s) := by
  have ha := readOctet_toDigits true addr.a (dot_no_digit (s := Nat.toDigits 10 addr.b.toNat ++
    '.' :: (Nat.toDigits 10 addr.c.toNat ++ '.' :: (Nat.toDigits 10 addr.d.toNat ++ s))))
  have hb := readOctet_toDigits false addr.b (dot_no_digit (s := Nat.toDigits 10 addr.c.toNat ++
    '.' :: (Nat.toDigits 10 addr.d.toNat ++ s)))
  have hc := readOctet_toDigits false addr.c (dot_no_digit (s := Nat.toDigits 10 addr.d.toNat ++ s))
  have hd := readOctet_toDigits false addr.d hs
  simp only [if_true, Bool.false_eq_true, if_false, List.nil_append, List.cons_append] at ha hb hc hd
  unfold readIpv4Addr fmtIpv4
  simp only [List.append_assoc, List.cons_append, ha, hb, hc, hd, Option.bind_eq_bind, Option.bind_some,
    Option.pure_def]

/-- Digits up to the end or a colon are no IPv4 address. -/
theorem readIpv4Addr_eq_none (digits : Str) {s : Str} (hdigits : '.' ∉ digits) (hs : ∀ c ∈ s.head?, c = ':') :
    readIpv4Addr (digits ++ s) = none := by
  have hdot : ∀ p : Char → Bool, p ':' = false → readGivenChar '.' ((digits ++ s).dropWhile p) = none := by
    intro p hp
    induction digits with
    | nil =>
        cases s with
        | nil => rfl
        | cons c s =>
            cases hs c rfl
            simp [hp, readGivenChar]
    | cons c digits ih =>
        rw [List.cons_append, List.dropWhile_cons]
        split
        · exact ih (fun h => hdigits (List.mem_cons_of_mem c h))
        · simp [readGivenChar, (List.ne_of_not_mem_cons hdigits).symm]
  unfold readIpv4Addr
  cases ha : readOctet true (digits ++ s) with
  | none => rfl
  | some r =>
      have hb : readOctet false r.2 = none := by
        unfold readOctet readSeparator
        rw [if_neg (by decide), readOctet_rest ha, hdot _ (by decide)]
        rfl
      simp only [Option.bind_eq_bind, Option.bind_some, hb, Option.bind_none]

/-! ## Groups of IPv6 -/

def fmtRest (groups : List UInt16) : Str := groups.flatMap fun g => ':' :: Nat.toDigits 16 g.toNat

theorem fmtSubslice_cons (g : UInt16) (groups : List UInt16) :
    fmtSubslice (g :: groups) = Nat.toDigits 16 g.toNat ++ fmtRest groups := by
  induction groups generalizing g with
  | nil => simp [fmtSubslice, fmtRest]
  | cons g' groups ih =>
      have hsplit : fmtSubslice (g :: g' :: groups) = Nat.toDigits 16 g.toNat ++ ':' :: fmtSubslice (g' :: groups) := by
        simp [fmtSubslice, List.intercalate_cons_cons]
      rw [hsplit, ih]
      simp [fmtRest]

/-- What ends a list of groups: the end, or the mark for the groups that are left out. -/
def Stops (s : Str) : Prop := s = [] ∨ ∃ rest, s = ':' :: ':' :: rest

theorem Stops.head {s : Str} (h : Stops s) : ∀ c ∈ s.head?, c = ':' := by
  rcases h with rfl | ⟨rest, rfl⟩ <;> simp

theorem fmtRest_head (groups : List UInt16) {s : Str} (h : Stops s) : ∀ c ∈ (fmtRest groups ++ s).head?, c = ':' := by
  cases groups with
  | nil => exact h.head
  | cons g groups => simp [fmtRest]

theorem colon_no_digit {s : Str} (h : ∀ c ∈ s.head?, c = ':') : ∀ c ∈ s.head?, toDigit 16 c = none := fun c hc => by
  rw [h c hc]
  decide

theorem dot_not_mem_toDigits (n : Nat) : '.' ∉ Nat.toDigits 16 n := fun h => by
  have hdot : toDigit 16 '.' = none := by decide
  have := toDigits_isDigit (show 1 < 16 ∧ 16 ≤ 16 by decide) n '.' h
  rw [hdot] at this
  cases this

theorem readGroups_stops {s : Str} (h : Stops s) (limit : Nat) (first : Bool) :
    readGroups limit first s = ([], false, s) := by
  cases limit with
  | zero => rfl
  | succ limit =>
      have hnone : ∀ rest, readSeparator ':' first s = some rest →
          readIpv4Addr rest = none ∧ readNumber 16 4 true rest = none := by
        intro rest hrest
        have hhead : ∀ c ∈ rest.head?, c = ':' := by
          rcases h with rfl | ⟨t, rfl⟩
          · cases first with
            | true =>
                cases hrest
                simp
            | false => cases hrest
          · cases first <;> cases hrest <;> simp
        exact ⟨readIpv4Addr_eq_none [] (by simp) hhead, readNumber_eq_none true (colon_no_digit hhead)⟩
      unfold readGroups
      cases hsep : readSeparator ':' first s with
      | none => simp
      | some rest => simp [hnone rest hsep]

theorem readGroups_group (limit : Nat) (first : Bool) (g : UInt16) {s : Str} (h : ∀ c ∈ s.head?, c = ':') :
    readGroups (limit + 1) first ((if first then [] else [':']) ++ Nat.toDigits 16 g.toNat ++ s) =
      (g :: (readGroups limit false s).1, (readGroups limit false s).2) := by
  have hseparator : readSeparator ':' first ((if first then [] else [':']) ++ Nat.toDigits 16 g.toNat ++ s) =
      some (Nat.toDigits 16 g.toNat ++ s) := by
    cases first <;> rfl
  have hnumber : readNumber 16 4 true (Nat.toDigits 16 g.toNat ++ s) = some (g.toNat, s) :=
    readNumber_toDigits (by decide) (by decide) (Nat.lt_of_lt_of_le g.toNat_lt (by decide)) true (colon_no_digit h)
  have hipv4 : readIpv4Addr (Nat.toDigits 16 g.toNat ++ s) = none :=
    readIpv4Addr_eq_none _ (dot_not_mem_toDigits _) h
  rw [readGroups, hseparator, Option.bind_some, Option.bind_some, hipv4, hnumber, ite_self]
  simp only [UInt16.ofNat_toNat]

theorem readGroups_fmtRest {groups : List UInt16} {s : Str} (hs : Stops s) {limit : Nat} (h : groups.length ≤ limit) :
    readGroups limit false (fmtRest groups ++ s) = (groups, false, s) := by
  induction groups generalizing limit with
  | nil => exact readGroups_stops hs limit false
  | cons g groups ih =>
      obtain ⟨limit, rfl⟩ : ∃ n, limit = n + 1 := ⟨limit - 1, by simp only [List.length_cons] at h; omega⟩
      have hgroup := readGroups_group limit false g (fmtRest_head groups hs)
      rw [ih (Nat.le_of_succ_le_succ h)] at hgroup
      simpa [fmtRest] using hgroup

/-- Groups that were printed are read up to what ends them. -/
theorem readGroups_fmtSubslice {groups : List UInt16} {s : Str} (hs : Stops s) {limit : Nat}
    (h : groups.length ≤ limit) : readGroups limit true (fmtSubslice groups ++ s) = (groups, false, s) := by
  cases groups with
  | nil => exact readGroups_stops hs limit true
  | cons g groups =>
      obtain ⟨limit, rfl⟩ : ∃ n, limit = n + 1 := ⟨limit - 1, by simp only [List.length_cons] at h; omega⟩
      have hgroup := readGroups_group limit true g (fmtRest_head groups hs)
      rw [readGroups_fmtRest hs (Nat.le_of_succ_le_succ h)] at hgroup
      rw [fmtSubslice_cons, List.append_assoc]
      simpa using hgroup

/-! ## The run of zero groups that is left out -/

def Span.IsZeroes (span : Span) (segments : List UInt16) : Prop :=
  ∀ j, span.start ≤ j → j < span.start + span.len → segments[j]? = some 0

theorem longestZeroes_isZeroes {segments : List UInt16} (rest : List UInt16) (i : Nat) {longest current : Span}
    (hrest : ∀ j, rest[j]? = segments[i + j]?) (hlongest : longest.IsZeroes segments)
    (hcurrent : current.IsZeroes segments) (hend : current.len = 0 ∨ current.start + current.len = i) :
    (longestZeroes rest i longest current).IsZeroes segments := by
  induction rest generalizing i longest current with
  | nil => exact hlongest
  | cons segment rest ih =>
      have htail : ∀ j, rest[j]? = segments[i + 1 + j]? := fun j => by
        rw [Nat.add_assoc, Nat.add_comm 1 j, ← hrest (j + 1)]
        rfl
      unfold longestZeroes
      split
      · rename_i hzero
        have hnext : Span.IsZeroes ⟨if current.len = 0 then i else current.start, current.len + 1⟩ segments := by
          intro j hstart hstop
          by_cases hj : j = i
          · rw [hj, ← Nat.add_zero i, ← hrest 0, hzero]
            rfl
          · refine hcurrent j ?_ ?_ <;> dsimp only at hstart hstop <;> split at hstart <;> split at hstop <;> omega
        have hbest : (if longest.len < current.len + 1 then
            (⟨if current.len = 0 then i else current.start, current.len + 1⟩ : Span) else longest).IsZeroes segments := by
          by_cases hlonger : longest.len < current.len + 1
          · rw [if_pos hlonger]
            exact hnext
          · rw [if_neg hlonger]
            exact hlongest
        refine ih (i + 1) htail hbest hnext (.inr ?_)
        dsimp only
        split <;> omega
      · exact ih (i + 1) htail hlongest (fun j _ hj => absurd hj (by dsimp only at hj ⊢; omega)) (.inl rfl)

theorem Span.IsZeroes.append {span : Span} {segments : List UInt16} (h : span.IsZeroes segments)
    (hlen : 0 < span.len) : span.start + span.len ≤ segments.length ∧
      segments.take span.start ++ List.replicate span.len 0 ++ segments.drop (span.start + span.len) = segments := by
  have hend : span.start + span.len ≤ segments.length := by
    have hlast := h (span.start + span.len - 1) (by omega) (by omega)
    have := (List.getElem?_eq_some_iff.mp hlast).1
    omega
  refine ⟨hend, ?_⟩
  have hzeroes : List.replicate span.len 0 = (segments.drop span.start).take span.len := by
    refine List.ext_getElem? fun j => ?_
    rw [List.getElem?_replicate, List.getElem?_take, List.getElem?_drop]
    split
    · rw [h (span.start + j) (by omega) (by omega)]
    · rfl
  rw [hzeroes, List.append_assoc, ← List.drop_drop, List.take_append_drop, List.take_append_drop]

/-! ## What is printed is read back -/

theorem fromBeBytes_bytes (g : UInt16) : fromBeBytes (highByte g) (lowByte g) = g := by
  have hhigh : g.toNat / 256 < UInt8.size := Nat.div_lt_of_lt_mul g.toNat_lt
  have hlow : g.toNat % 256 < UInt8.size := Nat.mod_lt _ (by decide)
  rw [fromBeBytes, highByte, lowByte, UInt8.toNat_ofNat_of_lt' hhigh, UInt8.toNat_ofNat_of_lt' hlow,
    Nat.div_add_mod, UInt16.ofNat_toNat]

theorem toIpv4Mapped_eq_some {addr : Ipv6Addr} {mapped : Ipv4Addr} (h : toIpv4Mapped addr = some mapped) :
    addr.segments = [0, 0, 0, 0, 0, 0xFFFF] ++ ipv4Groups mapped := by
  unfold toIpv4Mapped at h
  split at h
  · rename_i ab cd heq
    cases h
    simp only [ipv4Groups, fromBeBytes_bytes]
    exact heq
  · cases h

theorem readIpv6Addr_of_groups {addr : Ipv6Addr} {s : Str} (h : readGroups 8 true s = (addr.segments, false, [])) :
    readIpv6Addr s = some (addr, []) := by
  unfold readIpv6Addr
  simp only [h, addr.length, dif_pos]

/-- Groups, the mark for those that are left out, and groups. -/
theorem readIpv6Addr_of_marked {addr : Ipv6Addr} {front back : List UInt16} {s rest : Str} {ipv4 : Bool}
    (hfront : readGroups 8 true s = (front, false, ':' :: ':' :: rest))
    (hback : readGroups (8 - (front.length + 1)) true rest = (back, ipv4, []))
    (h : front ++ List.replicate (8 - front.length - back.length) 0 ++ back = addr.segments) (hshort : front.length < 8) :
    readIpv6Addr s = some (addr, []) := by
  unfold readIpv6Addr
  simp only [hfront, Nat.ne_of_lt hshort, dif_neg, not_false_eq_true, Bool.false_eq_true, if_false, readGivenChar,
    if_true, Option.bind_eq_bind, Option.bind_some, hback, h, Option.pure_def]

theorem readIpv6Addr_fmtIpv6 (addr : Ipv6Addr) : readIpv6Addr (fmtIpv6 addr) = some (addr, []) := by
  unfold fmtIpv6
  cases hmapped : toIpv4Mapped addr with
  | some mapped =>
      have hback : readGroups 7 true ("ffff:".toList ++ fmtIpv4 mapped) = (0xFFFF :: ipv4Groups mapped, true, []) := by
        have hgroup := readGroups_group 6 true 0xFFFF (s := ':' :: fmtIpv4 mapped) (by simp)
        have hipv4 : readIpv4Addr (fmtIpv4 mapped) = some (mapped, []) := by
          simpa using readIpv4Addr_fmtIpv4 mapped (s := []) (by simp)
        have hlast : readGroups 6 false (':' :: fmtIpv4 mapped) = (ipv4Groups mapped, true, []) := by
          simp [readGroups, readSeparator, readGivenChar, hipv4]
        rw [hlast] at hgroup
        exact hgroup
      refine readIpv6Addr_of_marked (readGroups_stops (.inr ⟨"ffff:".toList ++ fmtIpv4 mapped, rfl⟩) 8 true) hback ?_
        (by decide)
      rw [toIpv4Mapped_eq_some hmapped]
      rfl
  | none =>
      dsimp only
      split
      · rename_i hlen
        have hzeroes : (longestZeroes addr.segments 0 ⟨0, 0⟩ ⟨0, 0⟩).IsZeroes addr.segments :=
          longestZeroes_isZeroes addr.segments 0 (fun j => by rw [Nat.zero_add]) (fun j _ hj => absurd hj (Nat.not_lt_zero j))
            (fun j _ hj => absurd hj (Nat.not_lt_zero j)) (.inl rfl)
        generalize longestZeroes addr.segments 0 ⟨0, 0⟩ ⟨0, 0⟩ = zeroes at hlen hzeroes ⊢
        obtain ⟨hend, hsegments⟩ := hzeroes.append (by omega)
        have hlength := addr.length
        have hfront : (addr.segments.take zeroes.start).length = zeroes.start := by
          rw [List.length_take]
          omega
        have hback : (addr.segments.drop (zeroes.start + zeroes.len)).length = 8 - (zeroes.start + zeroes.len) := by
          rw [List.length_drop, hlength]
        have hrest : readGroups (8 - ((addr.segments.take zeroes.start).length + 1)) true
            (fmtSubslice (addr.segments.drop (zeroes.start + zeroes.len))) =
            (addr.segments.drop (zeroes.start + zeroes.len), false, []) := by
          rw [← List.append_nil (fmtSubslice _)]
          exact readGroups_fmtSubslice (.inl rfl) (by omega)
        rw [List.append_assoc]
        refine readIpv6Addr_of_marked (readGroups_fmtSubslice (.inr ⟨_, rfl⟩) (by omega)) hrest ?_ (by omega)
        · have hcount : 8 - (addr.segments.take zeroes.start).length -
              (addr.segments.drop (zeroes.start + zeroes.len)).length = zeroes.len := by omega
          rw [hcount]
          exact hsegments
      · refine readIpv6Addr_of_groups ?_
        rw [← List.append_nil (fmtSubslice _)]
        exact readGroups_fmtSubslice (.inl rfl) (Nat.le_of_eq addr.length)

theorem readIpv4Addr_fmtIpv6 (addr : Ipv6Addr) : readIpv4Addr (fmtIpv6 addr) = none := by
  have hgroups : ∀ groups {s : Str}, Stops s → readIpv4Addr (fmtSubslice groups ++ s) = none := by
    intro groups s hs
    cases groups with
    | nil => exact readIpv4Addr_eq_none [] (by simp) hs.head
    | cons g groups =>
        rw [fmtSubslice_cons, List.append_assoc]
        exact readIpv4Addr_eq_none _ (dot_not_mem_toDigits _) (fmtRest_head groups hs)
  unfold fmtIpv6
  split
  · exact readIpv4Addr_eq_none [] (by simp) (Stops.head (.inr ⟨_, rfl⟩))
  · dsimp only
    split
    · rw [List.append_assoc]
      exact hgroups _ (.inr ⟨_, rfl⟩)
    · rw [← List.append_nil (fmtSubslice _)]
      exact hgroups _ (.inl rfl)

theorem parse_display (addr : IpAddr) : parse (display addr) = some addr := by
  unfold parse
  cases addr with
  | v4 addr =>
      have h := readIpv4Addr_fmtIpv4 addr (s := []) (by simp)
      rw [List.append_nil] at h
      simp only [display, h, Option.map_some, Option.some_or]
  | v6 addr =>
      simp only [display, readIpv4Addr_fmtIpv6, readIpv6Addr_fmtIpv6, Option.map_none, Option.none_or, Option.map_some]

/-! ## Characters that are printed -/

def isAddrChar (c : Char) : Bool := (toDigit 16 c).isSome || c = ':' || c = '.'

theorem toDigits_addrChars {radix : Nat} (hradix : 1 < radix ∧ radix ≤ 16) (n : Nat) :
    (Nat.toDigits radix n).all isAddrChar = true := by
  refine List.all_eq_true.mpr fun c hc => ?_
  have hdigit := toDigits_isDigit hradix n c hc
  have h16 : (toDigit 16 c).isSome = true := by
    unfold toDigit at hdigit ⊢
    cases hvalue : digitValue c with
    | none => simp [hvalue] at hdigit
    | some d =>
        have hd : d < radix := by simpa [hvalue, Option.isSome_filter] using hdigit
        simp [Option.isSome_filter]
        omega
  simp [isAddrChar, h16]

theorem fmtIpv4_addrChars (addr : Ipv4Addr) : (fmtIpv4 addr).all isAddrChar = true := by
  have hdot : isAddrChar '.' = true := by decide
  simp [fmtIpv4, List.all_append, toDigits_addrChars, hdot]

theorem fmtSubslice_addrChars (groups : List UInt16) : (fmtSubslice groups).all isAddrChar = true := by
  have hcolon : isAddrChar ':' = true := by decide
  cases groups with
  | nil => rfl
  | cons g groups =>
      rw [fmtSubslice_cons, List.all_append, toDigits_addrChars (by decide)]
      simp [fmtRest, hcolon, toDigits_addrChars]

theorem fmtIpv6_addrChars (addr : Ipv6Addr) : (fmtIpv6 addr).all isAddrChar = true := by
  have hmark : "::".toList.all isAddrChar = true := by decide
  have hmapped : "::ffff:".toList.all isAddrChar = true := by decide
  unfold fmtIpv6
  split
  · rw [List.all_append, hmapped, fmtIpv4_addrChars]
    rfl
  · dsimp only
    split
    · rw [List.all_append, List.all_append, fmtSubslice_addrChars, hmark, fmtSubslice_addrChars]
      rfl
    · exact fmtSubslice_addrChars _

theorem display_addrChars (addr : IpAddr) : (display addr).all isAddrChar = true := by
  cases addr with
  | v4 addr => exact fmtIpv4_addrChars addr
  | v6 addr => exact fmtIpv6_addrChars addr

end IpAddr

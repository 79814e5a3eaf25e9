import WeaveGate.Lib.Posix.Path

/-!
# The names in the text of a path

What is left of a text when the slashes, the empty segments and the dot segments are taken out.
-/

namespace Posix

/-- A name that an entry of a directory can have. -/
def IsEntryName (name : Name) : Prop := name ≠ [] ∧ name ≠ [dot] ∧ name ≠ [dot, dot] ∧ slash ∉ name

instance (name : Name) : Decidable (IsEntryName name) := inferInstanceAs (Decidable (_ ∧ _ ∧ _ ∧ _))

namespace Path

def name? : Component → Option Name
  | .normal name => some name
  | _ => none

def names (text : Octets) : List Name := (text.splitOn slash).filterMap fun seg => (component? seg).bind name?

theorem names_parse (text : Octets) : (parse text).filterMap name? = names text := by
  have hcomps : ((text.splitOn slash).filterMap component?).filterMap name? = names text := by
    rw [List.filterMap_filterMap]
    rfl
  unfold parse
  dsimp only
  split
  · exact hcomps
  · split <;> exact hcomps

theorem names_append_slash (x y : Octets) : names (x ++ slash :: y) = names x ++ names y := by
  rw [names, List.splitOn_append_cons_self, List.filterMap_append]
  rfl

@[simp] theorem names_nil : names [] = [] := rfl

theorem component?_entry {name : Name} (h : IsEntryName name) : component? name = some (.normal name) := by
  obtain ⟨hne, hdot, hdots, _⟩ := h
  simp [component?, hne, hdot, hdots]

theorem names_entry {name : Name} (h : IsEntryName name) : names name = [name] := by
  rw [names, List.splitOn_eq_singleton h.2.2.2]
  simp [component?_entry h, name?]

/-! ## The last name -/

/-- The name at the end of a text, none behind a slash or a dot segment. -/
def lastName? (text : Octets) : Option Name := ((text.splitOn slash).getLast?.bind component?).bind name?

theorem exists_last_segment (text : Octets) : ∃ before last, (text.splitOn slash).getLast? = some last ∧
    ∀ y, slash ∉ y → names (text ++ y) = before ++ names (last ++ y) ∧ slash ∉ last := by
  by_cases hmem : slash ∈ text
  · obtain ⟨x, y, hxy⟩ := List.append_of_mem hmem
    have hlt : y.length < text.length := by rw [hxy, List.length_append, List.length_cons]; omega
    obtain ⟨before, last, hlast, hnames⟩ := exists_last_segment y
    refine ⟨names x ++ before, last, ?_, fun z hz => ⟨?_, (hnames z hz).2⟩⟩
    · rw [hxy, List.splitOn_append_cons_self, List.getLast?_append, hlast]
      rfl
    · rw [hxy, List.append_assoc, List.cons_append, names_append_slash, (hnames z hz).1, List.append_assoc]
  · exact ⟨[], text, by rw [List.splitOn_eq_singleton hmem]; rfl, fun y _ => ⟨rfl, hmem⟩⟩
termination_by text.length

theorem component?_bind_name? (seg : Octets) : (component? seg).bind name? =
    if seg ∈ [[], [dot], [dot, dot]] then none else some seg := by
  unfold component?
  by_cases hdot : seg = [] ∨ seg = [dot]
  · rw [if_pos hdot, if_pos (by rcases hdot with rfl | rfl <;> simp)]
    rfl
  · by_cases hdots : seg = [dot, dot]
    · rw [if_neg hdot, if_pos hdots, if_pos (by simp [hdots])]
      rfl
    · rw [if_neg hdot, if_neg hdots, if_neg (by simpa [hdots] using hdot)]
      rfl

/-- A suffix goes to the last name, or becomes a name with what stands in its place. -/
theorem names_append_suffix {suffix : Octets} (hslash : slash ∉ suffix) (hlen : 3 ≤ suffix.length) (text : Octets) :
    match lastName? text with
    | some name => ∃ before, names text = before ++ [name] ∧ names (text ++ suffix) = before ++ [name ++ suffix]
    | none => ∃ dots : Octets, dots ∈ [[], [dot], [dot, dot]] ∧
        names (text ++ suffix) = names text ++ [dots ++ suffix] := by
  obtain ⟨before, last, hlast, hnames⟩ := exists_last_segment text
  have htext := (hnames [] (by simp)).1
  rw [List.append_nil, List.append_nil] at htext
  have hsuffixed : names (last ++ suffix) = [last ++ suffix] := by
    refine names_entry ⟨?_, ?_, ?_, ?_⟩
    · exact fun h => by simp [(List.append_eq_nil_iff.mp h).2] at hlen
    · intro h
      have := congrArg List.length h
      simp at this
      omega
    · intro h
      have := congrArg List.length h
      simp at this
      omega
    · rw [List.mem_append]
      exact fun h => h.elim (hnames [] (by simp)).2 hslash
  have hsingle : names last = ((component? last).bind name?).toList := by
    rw [names, List.splitOn_eq_singleton (hnames [] (by simp)).2]
    cases h : (component? last).bind name? <;> simp [h]
  rw [component?_bind_name?] at hsingle
  rw [lastName?, hlast, Option.bind_some, component?_bind_name?, (hnames suffix hslash).1, hsuffixed, htext, hsingle]
  by_cases hdots : last ∈ [[], [dot], [dot, dot]]
  · rw [if_pos hdots]
    exact ⟨last, hdots, by simp⟩
  · rw [if_neg hdots]
    exact ⟨before, rfl, rfl⟩

/-! ## Counting -/

theorem count_splitOn {b : UInt8} (h : b ≠ slash) (text : Octets) :
    (text.splitOn slash).flatten.count b = text.count b := by
  have hjoin : ∀ segs : List Octets, (List.intercalate [slash] segs).count b = segs.flatten.count b := by
    intro segs
    induction segs with
    | nil => rfl
    | cons seg rest ih =>
        cases rest with
        | nil => simp [List.intercalate]
        | cons next rest =>
            rw [List.intercalate_cons_cons, List.count_append, List.count_append, ih, List.flatten_cons,
              List.count_append]
            simp [Ne.symm h]
  rw [← hjoin, List.intercalate_splitOn]

/-- No byte is lost but slashes and the dots of dot segments. -/
theorem count_names {b : UInt8} (hslash : b ≠ slash) (hdot : b ≠ dot) (text : Octets) :
    (names text).flatten.count b = text.count b := by
  rw [← count_splitOn hslash text, names]
  induction text.splitOn slash with
  | nil => rfl
  | cons seg rest ih =>
      rw [List.flatten_cons, List.count_append, ← ih]
      by_cases hseg : seg = [] ∨ seg = [dot]
      · have hcount : seg.count b = 0 := by rcases hseg with rfl | rfl <;> simp [Ne.symm hdot]
        simp [component?, hseg, hcount]
      · by_cases hdots : seg = [dot, dot]
        · simp [component?, hdots, name?, Ne.symm hdot]
        · simp [component?, hseg, hdots, name?]

end Path

end Posix

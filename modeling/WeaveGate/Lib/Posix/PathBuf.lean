import WeaveGate.Lib.Posix.Names

/-!
# Paths as texts

A path buffer keeps the text of a path. What a push does to the components of the text.
-/

namespace Posix

namespace Path

/-! ## Components of a joined text -/

theorem parse_append_slash (x y : Octets) :
    parse (x ++ slash :: y) = parse (x ++ [slash]) ++ (y.splitOn slash).filterMap component? := by
  have hempty : ([] : Octets).splitOn slash = [[]] := rfl
  have hcomps : ((x ++ slash :: y).splitOn slash).filterMap component? =
      ((x ++ [slash]).splitOn slash).filterMap component? ++ (y.splitOn slash).filterMap component? := by
    rw [List.splitOn_append_cons_self, List.splitOn_append_cons_self, hempty, List.filterMap_append,
      List.filterMap_append]
    simp [component?]
  have hsegs : ((x ++ slash :: y).splitOn slash).head? = ((x ++ [slash]).splitOn slash).head? := by
    rw [List.splitOn_append_cons_self, List.splitOn_append_cons_self,
      List.head?_append_of_ne_nil _ (List.splitOn_ne_nil _ _), List.head?_append_of_ne_nil _ (List.splitOn_ne_nil _ _)]
  have hhead : (x ++ slash :: y).head? = (x ++ [slash]).head? := by cases x <;> rfl
  unfold parse
  dsimp only
  rw [hcomps, hsegs, hhead]
  split
  · rfl
  · split <;> rfl

theorem parse_append_last {x : Octets} (hx : x ≠ []) : parse (x ++ [slash]) = parse x := by
  have hcomps : ((x ++ [slash]).splitOn slash).filterMap component? = (x.splitOn slash).filterMap component? := by
    rw [List.splitOn_append_cons_self, List.filterMap_append]
    exact List.append_nil _
  have hsegs : ((x ++ [slash]).splitOn slash).head? = (x.splitOn slash).head? := by
    rw [List.splitOn_append_cons_self, List.head?_append_of_ne_nil _ (List.splitOn_ne_nil _ _)]
  have hhead : (x ++ [slash]).head? = x.head? := List.head?_append_of_ne_nil _ hx
  unfold parse
  dsimp only
  rw [hcomps, hsegs, hhead]

/-- The text of a name is a path of its own, with this name only. -/
theorem parse_entry {name : Name} (h : IsEntryName name) : parse name = [.normal name] := by
  have hhead : name.head? ≠ some slash := fun hhead => h.2.2.2 (List.mem_of_mem_head? hhead)
  have hsegs := List.splitOn_eq_singleton h.2.2.2
  have hdot : name ≠ [dot] := h.2.1
  unfold parse
  dsimp only
  rw [hsegs, if_neg hhead, if_neg (by simpa using hdot)]
  simp [component?_entry h]

/-- Segments that are not empty and no dot segments. -/
def normalSegments (text : Octets) : List Name :=
  (text.splitOn slash).filter fun seg => seg ∉ [[], [dot], [dot, dot]]

theorem names_eq_normalSegments (text : Octets) : names text = normalSegments text := by
  unfold names normalSegments
  induction text.splitOn slash with
  | nil => rfl
  | cons seg rest ih =>
      by_cases hdots : seg ∈ [[], [dot], [dot, dot]]
      · rw [List.filterMap_cons_none (by rw [component?_bind_name?, if_pos hdots]), ih,
          List.filter_cons_of_neg (by rw [decide_eq_true_eq]; exact not_not_intro hdots)]
      · rw [List.filterMap_cons_some (by rw [component?_bind_name?, if_neg hdots]), ih,
          List.filter_cons_of_pos (by rw [decide_eq_true_eq]; exact hdots)]

theorem slash_not_mem_of_mem_splitOn {text seg : Octets} (h : seg ∈ text.splitOn slash) : slash ∉ seg := by
  by_cases hmem : slash ∈ text
  · obtain ⟨x, y, hxy, hnot⟩ := List.eq_append_cons_of_mem hmem
    have hlt : y.length < text.length := by rw [hxy, List.length_append, List.length_cons]; omega
    rw [hxy, List.splitOn_append_cons_self_of_not_mem hnot] at h
    rcases List.mem_cons.mp h with rfl | h
    · exact hnot
    · exact slash_not_mem_of_mem_splitOn h
  · rw [List.splitOn_eq_singleton hmem] at h
    rwa [List.mem_singleton.mp h]
termination_by text.length

theorem mem_normalSegments {text : Octets} {name : Name} (h : name ∈ normalSegments text) : IsEntryName name := by
  obtain ⟨hmem, hdots⟩ := List.mem_filter.mp h
  simp only [decide_eq_true_eq, List.mem_cons, List.not_mem_nil, or_false, not_or] at hdots
  exact ⟨hdots.1, hdots.2.1, hdots.2.2, slash_not_mem_of_mem_splitOn hmem⟩

end Path

/-! ## Buffers -/

namespace PathBuf

/-- A separator is put in between when the last byte is none. An absolute path takes the place of the buffer. -/
def push (buf path : Octets) : Octets :=
  if path.head? = some slash then path
  else if buf.getLast?.any (· ≠ slash) then buf ++ slash :: path
  else buf ++ path

theorem parse_push {name : Name} (h : IsEntryName name) (buf : Octets) :
    Path.parse (push buf name) = Path.parse buf ++ [.normal name] := by
  have hhead : name.head? ≠ some slash := fun hhead => h.2.2.2 (List.mem_of_mem_head? hhead)
  have hname : (name.splitOn slash).filterMap Path.component? = [.normal name] := by
    rw [List.splitOn_eq_singleton h.2.2.2]
    simp [Path.component?_entry h]
  rw [push, if_neg hhead]
  rcases List.eq_nil_or_concat buf with rfl | ⟨init, b, rfl⟩
  · exact Path.parse_entry h
  · rw [List.concat_eq_append, List.getLast?_concat]
    by_cases hb : b = slash
    · rw [if_neg (by simp [hb]), hb, List.append_assoc, List.singleton_append, Path.parse_append_slash, hname]
    · rw [if_pos (by simpa using hb), Path.parse_append_slash, hname, Path.parse_append_last (by simp)]

theorem isPrefix_push {path : Octets} (h : path.head? ≠ some slash) (buf : Octets) : buf <+: push buf path := by
  rw [push, if_neg h]
  split <;> exact List.prefix_append _ _

end PathBuf

end Posix

import Mathlib.Data.List.Infix

/-!
# Replacing several patterns at once

Matches are reported as an automaton for all patterns sees them: behind the last match, the match that ends first
counts, whichever pattern it belongs to.
-/

namespace MultiPattern

variable {α : Type} [DecidableEq α]

/-- The first pattern that the text ends with, and what it is replaced by. -/
def endingWith (pats : List (List α × List α)) (s : List α) : Option (List α × List α) := pats.find? fun p => p.1 <:+ s

/-- `pending` has been read since the last match. -/
def replaceFrom (pats : List (List α × List α)) : List α → List α → List α
  | pending, [] => pending
  | pending, c :: s =>
      match endingWith pats (pending ++ [c]) with
      | some (pat, new) => (pending ++ [c]).take (pending.length + 1 - pat.length) ++ new ++ replaceFrom pats [] s
      | none => replaceFrom pats (pending ++ [c]) s

def replaceAll (pats : List (List α × List α)) (s : List α) : List α := replaceFrom pats [] s

theorem replaceFrom_miss {pats : List (List α × List α)} {pending : List α} {c : α}
    (h : endingWith pats (pending ++ [c]) = none) (s : List α) :
    replaceFrom pats pending (c :: s) = replaceFrom pats (pending ++ [c]) s := by
  rw [replaceFrom, h]

theorem replaceFrom_hit {pats : List (List α × List α)} {before pat new : List α} {pending : List α} {c : α}
    (h : endingWith pats (pending ++ [c]) = some (pat, new)) (hsplit : pending ++ [c] = before ++ pat) (s : List α) :
    replaceFrom pats pending (c :: s) = before ++ new ++ replaceFrom pats [] s := by
  have hlen : pending.length + 1 - pat.length = before.length := by
    have hlen := congrArg List.length hsplit
    simp only [List.length_append, List.length_singleton] at hlen
    omega
  rw [replaceFrom, h]
  simp only [hlen]
  rw [hsplit, List.take_left]

end MultiPattern

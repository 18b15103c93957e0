import Mathlib.Data.List.Basic

/-! # Tables in order of first sight

    A table that hands out the next index to every entry it does not have yet
    holds what it was shown in order of first sight, each once.  Whatever it is
    shown later, an index given out keeps its entry. -/

namespace FirstSeen

variable {α : Type} [BEq α] [LawfulBEq α]

/-- A table learns an entry. -/
def learn (table : List α) (x : α) : List α := if x ∈ table then table else table ++ [x]

/-- What is in the table is not added. -/
theorem learn_known {table : List α} {x : α} (h : x ∈ table) : learn table x = table := if_pos h

/-- What is not is added behind all others. -/
theorem learn_new {table : List α} {x : α} (h : x ∉ table) : learn table x = table ++ [x] :=
  if_neg h

/-- One more element is one more to learn. -/
theorem eraseDups_concat (xs : List α) (x : α) :
    (xs ++ [x]).eraseDups = learn xs.eraseDups x := by
  rw [List.eraseDups_append]
  show xs.eraseDups ++ ([x].filter fun y => !xs.elem y).eraseDups = _
  by_cases h : x ∈ xs
  · rw [learn_known (List.mem_eraseDups.mpr h), List.filter_cons_of_neg, List.filter_nil]
    · exact List.append_nil _
    · rw [List.elem_iff.mpr h]
      decide
  · rw [learn_new (mt List.mem_eraseDups.mp h), List.filter_cons_of_pos, List.filter_nil]
    · rfl
    · rw [Bool.not_eq_true', Bool.eq_false_iff]
      exact mt List.elem_iff.mp h

/-- **IN ORDER OF FIRST SIGHT**, from a table that holds what was shown before. -/
theorem foldl_learn (shown more : List α) :
    more.foldl learn shown.eraseDups = (shown ++ more).eraseDups := by
  induction more generalizing shown with
  | nil => rw [List.append_nil]; rfl
  | cons x more ih =>
      rw [List.foldl_cons, ← eraseDups_concat, ih, List.append_assoc]
      rfl

end FirstSeen

import Mathlib.Data.List.DropRight

/-!
# Sliding windows

The last `n` elements of a history, kept in a queue that drops its head when it grows
beyond `n`.
-/

namespace Threadctl.Support.Window

variable {α β : Type*}

/-- Append to the queue; the oldest element makes room. -/
def slide (n : Nat) (window : List α) (x : α) : List α :=
  if n < (window ++ [x]).length then (window ++ [x]).drop 1 else window ++ [x]

theorem slide_ne_nil {n : Nat} (hn : 0 < n) (window : List α) (x : α) : slide n window x ≠ [] := by
  unfold slide
  split
  · rename_i hlong
    rw [Ne, List.drop_eq_nil_iff]
    omega
  · exact List.concat_ne_nil x window

@[simp] theorem length_rtake (n : Nat) (l : List α) : (l.rtake n).length = min n l.length := by
  rw [List.rtake, List.length_drop]
  omega

theorem rtake_of_length_le {n : Nat} {l : List α} (h : l.length ≤ n) : l.rtake n = l := by
  rw [List.rtake, Nat.sub_eq_zero_of_le h, List.drop_zero]

theorem map_rtake (f : α → β) (n : Nat) (l : List α) : (l.rtake n).map f = (l.map f).rtake n := by
  rw [List.rtake, List.rtake, List.map_drop, List.length_map]

theorem rtake_subset {m n : Nat} (h : m ≤ n) {l : List α} : l.rtake m ⊆ l.rtake n := by
  have hdrop : l.rtake m = (l.rtake n).drop ((l.length - m) - (l.length - n)) := by
    rw [List.rtake, List.rtake, List.drop_drop]
    congr 1
    omega
  rw [hdrop]
  exact List.drop_subset _ _

/-- The queue holds the last `n` elements. -/
theorem slide_rtake {n : Nat} (hn : 0 < n) (history : List α) (x : α) :
    slide n (history.rtake n) x = (history ++ [x]).rtake n := by
  unfold slide
  rw [List.length_append, length_rtake, List.length_singleton]
  by_cases hfull : n ≤ history.length
  · rw [if_pos (by omega), List.rtake, List.rtake, List.length_append, List.length_singleton,
      List.drop_append_of_le_length (by rw [List.length_drop]; omega), List.drop_drop,
      List.drop_append_of_le_length (by omega)]
    congr 2
    omega
  · rw [if_neg (by omega), rtake_of_length_le (by omega), rtake_of_length_le]
    rw [List.length_append, List.length_singleton]
    omega

theorem rtake_rtake_concat {n : Nat} (hn : 0 < n) (history : List α) (x : α) :
    (history.rtake n ++ [x]).rtake n = (history ++ [x]).rtake n := by
  refine Eq.trans ?_ (slide_rtake hn history x)
  rw [slide]
  split
  · rename_i hlong
    rw [List.length_append, length_rtake, List.length_singleton] at hlong
    rw [List.rtake, List.length_append, length_rtake, List.length_singleton]
    congr 1
    omega
  · rename_i hshort
    exact rtake_of_length_le (Nat.le_of_not_lt hshort)

theorem getLast?_rtake {n : Nat} (hn : 0 < n) (l : List α) : (l.rtake n).getLast? = l.getLast? := by
  rw [List.rtake, List.getLast?_drop]
  split
  · rename_i hshort
    have hnil : l.length = 0 := by omega
    rw [List.length_eq_zero_iff.mp hnil, List.getLast?_nil]
  · rfl

end Threadctl.Support.Window

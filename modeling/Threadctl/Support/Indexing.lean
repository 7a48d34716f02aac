import Mathlib.Data.List.Induction
import Mathlib.Data.List.Nodup

/-!
# Positions and first occurrences in a list

The two shapes an index built in one pass over a list has: the positions of the
entries with a property, and the distinct values in order of first appearance.
Last, the windows a scan at every position reads.
-/

namespace Threadctl.Support.Indexing

variable {α : Type}

/-- Positions of the entries that satisfy `p`, in order. -/
def indicesOf (p : α → Bool) (l : List α) : List Nat :=
  (l.zipIdx.filter (fun x => p x.1)).map Prod.snd

@[simp] theorem indicesOf_nil (p : α → Bool) : indicesOf p [] = [] := rfl

theorem indicesOf_concat (p : α → Bool) (l : List α) (a : α) :
    indicesOf p (l ++ [a]) = indicesOf p l ++ if p a then [l.length] else [] := by
  unfold indicesOf
  rw [List.zipIdx_append]
  by_cases h : p a <;> simp [h]

theorem lt_length_of_mem_indicesOf {p : α → Bool} {l : List α} {i : Nat}
    (h : i ∈ indicesOf p l) : i < l.length := by
  simp only [indicesOf, List.mem_map, List.mem_filter] at h
  obtain ⟨x, ⟨hx, -⟩, rfl⟩ := h
  have := List.snd_lt_of_mem_zipIdx hx
  omega

theorem mem_indicesOf_iff {p : α → Bool} {l : List α} {i : Nat} :
    i ∈ indicesOf p l ↔ ∃ a, l[i]? = some a ∧ p a = true := by
  simp only [indicesOf, List.mem_map, List.mem_filter]
  constructor
  · rintro ⟨⟨a, k⟩, ⟨hmem, ha⟩, rfl⟩
    exact ⟨a, List.mem_zipIdx_iff_getElem?.mp hmem, ha⟩
  · intro ⟨a, hi, ha⟩
    exact ⟨(a, i), ⟨List.mem_zipIdx_iff_getElem?.mpr hi, ha⟩, rfl⟩

theorem nodup_indicesOf (p : α → Bool) (l : List α) : (indicesOf p l).Nodup := by
  have hall : (l.zipIdx.map Prod.snd).Nodup := by
    rw [List.zipIdx_map_snd]
    exact List.nodup_range'
  exact hall.sublist (List.filter_sublist.map Prod.snd)

theorem count_indicesOf {p : α → Bool} {l : List α} {i : Nat} (h : i ∈ indicesOf p l) :
    (indicesOf p l).count i = 1 :=
  List.count_eq_one_of_mem (nodup_indicesOf p l) h

theorem map_get_indicesOf [Inhabited α] (p : α → Bool) (l : List α) :
    (indicesOf p l).map (fun i => l[i]!) = l.filter p := by
  induction l using List.reverseRecOn with
  | nil => rfl
  | append_singleton l a ih =>
      have hleft : (indicesOf p l).map (fun i => (l ++ [a])[i]!) =
          (indicesOf p l).map (fun i => l[i]!) := by
        apply List.map_congr_left
        intro i hi
        have hlt := lt_length_of_mem_indicesOf hi
        rw [getElem!_pos (l ++ [a]) i (by simp; omega), getElem!_pos l i hlt]
        exact List.getElem_append_left hlt
      rw [indicesOf_concat, List.map_append, hleft, ih, List.filter_append]
      by_cases h : p a <;> simp [h]

theorem indicesOf_eq_nil_iff [Inhabited α] {p : α → Bool} {l : List α} :
    indicesOf p l = [] ↔ ∀ a ∈ l, p a = false := by
  rw [← List.map_eq_nil_iff, map_get_indicesOf, List.filter_eq_nil_iff]
  simp only [Bool.not_eq_true]

section Distinct

variable [DecidableEq α]

/-- One step of `if !seen.contains(&x) { seen.push(x) }`. -/
def pushNew (seen : List α) (a : α) : List α :=
  if a ∈ seen then seen else seen ++ [a]

/-- The distinct entries in order of first appearance. -/
def distinct (l : List α) : List α :=
  l.foldl pushNew []

theorem distinct_concat (l : List α) (a : α) :
    distinct (l ++ [a]) = pushNew (distinct l) a := by
  simp [distinct]

@[simp] theorem mem_distinct {l : List α} {a : α} : a ∈ distinct l ↔ a ∈ l := by
  induction l using List.reverseRecOn with
  | nil => simp [distinct]
  | append_singleton l b ih =>
      rw [distinct_concat, pushNew]
      split
      · rename_i hb
        rw [ih, List.mem_append, List.mem_singleton]
        constructor
        · exact Or.inl
        · rintro (h | rfl)
          · exact h
          · exact ih.mp hb
      · rw [List.mem_append, List.mem_append, ih]

theorem nodup_distinct (l : List α) : (distinct l).Nodup := by
  induction l using List.reverseRecOn with
  | nil => simp [distinct]
  | append_singleton l b ih =>
      rw [distinct_concat, pushNew]
      split
      · exact ih
      · rename_i hb
        rw [List.nodup_append]
        refine ⟨ih, by simp, ?_⟩
        intro x hx y hy hxy
        have hy' : y = b := by simpa using hy
        exact hb (hy' ▸ hxy ▸ hx)

theorem distinct_filter (p : α → Bool) (l : List α) :
    distinct (l.filter p) = (distinct l).filter p := by
  induction l using List.reverseRecOn with
  | nil => rfl
  | append_singleton l a ih =>
      rw [List.filter_append, distinct_concat, pushNew]
      by_cases hp : p a = true
      · rw [List.filter_cons_of_pos hp, List.filter_nil, distinct_concat, pushNew, ih]
        by_cases hseen : a ∈ distinct l
        · rw [if_pos hseen, if_pos (List.mem_filter.mpr ⟨hseen, hp⟩)]
        · rw [if_neg hseen, if_neg (fun h => hseen (List.mem_filter.mp h).1), List.filter_append,
            List.filter_cons_of_pos hp, List.filter_nil]
      · rw [List.filter_cons_of_neg hp, List.filter_nil, List.append_nil, ih]
        split
        · rfl
        · rw [List.filter_append, List.filter_cons_of_neg hp, List.filter_nil, List.append_nil]

theorem distinct_prefix (l l' : List α) : distinct l <+: distinct (l ++ l') := by
  induction l' using List.reverseRecOn with
  | nil => simp
  | append_singleton l' a ih =>
      rw [← List.append_assoc, distinct_concat, pushNew]
      split
      · exact ih
      · exact ih.trans (List.prefix_append _ _)

end Distinct

/-- What occurs in a list is one of its windows. -/
theorem infix_iff_window {key l : List α} :
    key <:+: l ↔ ∃ pos, pos + key.length ≤ l.length ∧ (l.drop pos).take key.length = key := by
  constructor
  · rintro ⟨before, after, rfl⟩
    exact ⟨before.length, by simp, by simp⟩
  · rintro ⟨pos, -, hwindow⟩
    rw [← hwindow]
    exact (List.take_prefix _ _).isInfix.trans (List.drop_suffix _ _).isInfix

theorem mem_take_iff_of_nodup {α : Type*} {l : List α} (h : l.Nodup) (n : Nat) :
    (∀ a, a ∈ l.take n ↔ a ∈ l) ↔ l.length ≤ n := by
  constructor
  · intro hsame
    have hperm := (List.perm_ext_iff_of_nodup (h.sublist (List.take_sublist n l)) h).mpr hsame
    have hlength := hperm.length_eq
    rw [List.length_take] at hlength
    omega
  · intro hle a
    rw [List.take_of_length_le hle]

end Threadctl.Support.Indexing

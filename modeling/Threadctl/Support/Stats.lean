import Threadctl.Support.RefCount
import Mathlib.Algebra.Order.Field.Basic
import Mathlib.Algebra.Order.Ring.Rat
import Mathlib.Data.List.Induction
import Mathlib.Data.List.Infix
import Mathlib.Tactic.Linarith
import Mathlib.Tactic.Ring
import Mathlib.Tactic.FieldSimp

/-!
# Statistics of a growing history

What an observer keeps of a history without keeping the history: the pairs of neighbours
that differ, the largest element, the mean with an integer division at every step, and a
table of counts.
-/

namespace Threadctl.Support.Stats

open Threadctl.Support

variable {α δ : Type}

/-- How many neighbours in the list are related. -/
def neighbours (r : α → α → Bool) (l : List α) : Nat :=
  (l.zip l.tail).countP fun p => r p.1 p.2

/-- The step to a new element counts when it is related to the last one. -/
def stepsFrom (r : α → α → Bool) (last : Option α) (x : α) : Nat :=
  if last.any (r · x) then 1 else 0

theorem neighbours_concat (r : α → α → Bool) (l : List α) (x : α) :
    neighbours r (l ++ [x]) = neighbours r l + stepsFrom r l.getLast? x := by
  induction l with
  | nil => rfl
  | cons y l ih =>
      cases l with
      | nil =>
          rw [List.singleton_append, neighbours, List.tail_cons, List.zip_cons_cons,
            List.countP_cons]
          rfl
      | cons z l =>
          have hzip : ∀ l : List α, neighbours r (y :: z :: l) =
              neighbours r (z :: l) + if r y z then 1 else 0 := fun l => by
            rw [neighbours, List.tail_cons, List.zip_cons_cons, List.countP_cons]
            rfl
          rw [List.cons_append, List.cons_append, hzip, hzip, ← List.cons_append, ih,
            List.getLast?_cons_cons]
          omega

/-! ## The first of the smallest, the last of the largest -/

theorem foldl_min_le (key : α → Int) (l : List α) (b : α) :
    key (l.foldl (fun best x => if key x < key best then x else best) b) ≤ key b ∧
      ∀ x ∈ l, key (l.foldl (fun best x => if key x < key best then x else best) b) ≤ key x := by
  induction l generalizing b with
  | nil => simp
  | cons y l ih =>
      obtain ⟨hfirst, hrest⟩ := ih (if key y < key b then y else b)
      have hstep : key (if key y < key b then y else b) ≤ key b ∧
          key (if key y < key b then y else b) ≤ key y := by
        split
        · omega
        · omega
      rw [List.foldl_cons]
      constructor
      · exact Int.le_trans hfirst hstep.1
      · intro x hx
        rcases List.mem_cons.mp hx with rfl | hx
        · exact Int.le_trans hfirst hstep.2
        · exact hrest x hx

/-- `max_by_key`: the last of the elements with the largest key. -/
def maxByKey (key : α → Nat) (l : List α) : Option α :=
  l.foldl
    (fun best x => match best with
      | none => some x
      | some b => if key b ≤ key x then some x else some b)
    none

theorem maxByKey_concat (key : α → Nat) (l : List α) (x : α) :
    maxByKey key (l ++ [x]) = match maxByKey key l with
      | none => some x
      | some b => if key b ≤ key x then some x else some b := by
  rw [maxByKey, List.foldl_append]
  rfl

theorem maxByKey_eq_none_iff {key : α → Nat} {l : List α} : maxByKey key l = none ↔ l = [] := by
  induction l using List.reverseRecOn with
  | nil => simp [maxByKey]
  | append_singleton l x ih =>
      rw [maxByKey_concat]
      cases maxByKey key l with
      | none => simp
      | some b => by_cases h : key b ≤ key x <;> simp [h]

theorem maxByKey_spec {key : α → Nat} {l : List α} {m : α} (h : maxByKey key l = some m) :
    m ∈ l ∧ ∀ x ∈ l, key x ≤ key m := by
  induction l using List.reverseRecOn generalizing m with
  | nil => exact absurd h nofun
  | append_singleton l x ih =>
      rw [maxByKey_concat] at h
      cases hm : maxByKey key l with
      | none =>
          rw [hm] at h
          obtain rfl : x = m := Option.some.inj h
          rw [maxByKey_eq_none_iff.mp hm]
          simp
      | some b =>
          obtain ⟨hmem, hmax⟩ := ih hm
          rw [hm] at h
          dsimp only at h
          split at h
          · rename_i hle
            obtain rfl : x = m := Option.some.inj h
            refine ⟨List.mem_append_right _ (List.mem_singleton_self x), ?_⟩
            intro y hy
            rcases List.mem_append.mp hy with hy | hy
            · exact (hmax y hy).trans hle
            · rw [List.mem_singleton.mp hy]
          · rename_i hlt
            obtain rfl : b = m := Option.some.inj h
            refine ⟨List.mem_append_left _ hmem, ?_⟩
            intro y hy
            rcases List.mem_append.mp hy with hy | hy
            · exact hmax y hy
            · rw [List.mem_singleton.mp hy]
              exact (Nat.lt_of_not_le hlt).le

/-! ## The mean -/

/-- A mean of `n` numbers taken together with one more number; the rest of the division
is dropped. -/
def meanStep (mean n x : Nat) : Nat := (mean * n + x) / (n + 1)

/-- The mean kept with a division at every step. -/
def runningMean (l : List Nat) : Nat :=
  (l.foldl (fun acc x => (meanStep acc.1 acc.2 x, acc.2 + 1)) (0, 0)).1

/-- What the divisions drop: after `k` numbers the rest, modulo `k`, of their sum less what
was dropped before. -/
def lost (l : List Nat) : Nat :=
  l.inits.tail.foldl (fun dropped part => dropped + (part.sum - dropped) % part.length) 0

theorem foldl_meanStep_length (l : List Nat) (acc : Nat × Nat) :
    (l.foldl (fun acc x => (meanStep acc.1 acc.2 x, acc.2 + 1)) acc).2 = acc.2 + l.length := by
  induction l generalizing acc with
  | nil => rfl
  | cons x l ih =>
      rw [List.foldl_cons, ih, List.length_cons]
      dsimp only
      omega

theorem runningMean_concat (l : List Nat) (x : Nat) :
    runningMean (l ++ [x]) = meanStep (runningMean l) l.length x := by
  have hlen := foldl_meanStep_length l (0, 0)
  rw [Nat.zero_add] at hlen
  rw [runningMean, List.foldl_append, List.foldl_cons, List.foldl_nil, hlen]
  rfl

theorem lost_concat (l : List Nat) (x : Nat) :
    lost (l ++ [x]) = lost l + (l.sum + x - lost l) % (l.length + 1) := by
  have hinits : (l ++ [x]).inits.tail = l.inits.tail ++ [l ++ [x]] := by
    rw [List.inits_append]
    have hne : l.inits ≠ [] := by
      cases l <;> simp
    rw [List.tail_append_of_ne_nil hne]
    rfl
  rw [lost, hinits, List.foldl_append, List.foldl_cons, List.foldl_nil, List.sum_append,
    List.length_append]
  rfl

/-- The mean and what was dropped account for the whole sum. -/
theorem length_mul_runningMean (l : List Nat) : l.length * runningMean l + lost l = l.sum := by
  induction l using List.reverseRecOn with
  | nil => rfl
  | append_singleton l x ih =>
      have hsum : l.sum + x - lost l = runningMean l * l.length + x := by
        rw [← ih, Nat.mul_comm]
        omega
      rw [runningMean_concat, lost_concat, hsum, meanStep, List.length_append, List.sum_append,
        List.length_singleton, List.sum_singleton]
      generalize hwhole : runningMean l * l.length + x = whole
      calc (l.length + 1) * (whole / (l.length + 1)) + (lost l + whole % (l.length + 1))
          = lost l + ((l.length + 1) * (whole / (l.length + 1)) + whole % (l.length + 1)) := by
            omega
        _ = lost l + whole := by rw [Nat.div_add_mod]
        _ = l.length * runningMean l + lost l + x := by
            rw [← hwhole, Nat.mul_comm l.length]
            omega
        _ = l.sum + x := by rw [ih]

theorem abs_runningMean_sub_lt_one_iff {l : List Nat} (h : l ≠ []) :
    |(runningMean l : ℚ) - (l.sum : ℚ) / l.length| < 1 ↔ lost l < l.length := by
  have hpos : (0 : ℚ) < l.length := by
    exact_mod_cast List.length_pos_iff.mpr h
  have hsum : (l.length : ℚ) * runningMean l + lost l = l.sum := by
    exact_mod_cast length_mul_runningMean l
  have hnonneg : (0 : ℚ) ≤ (lost l : ℚ) / l.length := by positivity
  have hdiff : |(runningMean l : ℚ) - (l.sum : ℚ) / l.length| = (lost l : ℚ) / l.length :=
    calc |(runningMean l : ℚ) - (l.sum : ℚ) / l.length|
        = |-((lost l : ℚ) / l.length)| := by
          rw [← hsum]
          congr 1
          field_simp
          ring
      _ = (lost l : ℚ) / l.length := by rw [abs_neg, abs_of_nonneg hnonneg]
  rw [hdiff, div_lt_one hpos, Nat.cast_lt]

section Table

variable [DecidableEq δ]

def total (t : RefCount.Table δ) : Nat := (t.entries.map fun e => e.2).sum

theorem total_retain (t : RefCount.Table δ) (d : δ) :
    total (RefCount.retain t d) = total t + 1 := by
  rw [total, RefCount.retain, AList.entries_insert, List.map_cons, List.sum_cons]
  by_cases hd : d ∈ t
  · obtain ⟨n, front, back, hfront, hentries, herase⟩ :=
      List.exists_of_kerase (AList.mem_keys.mp hd)
    have hlookup : t.lookup d = some n := by
      rw [← Option.mem_def, AList.mem_lookup_iff, hentries]
      exact List.mem_append_right _ List.mem_cons_self
    rw [herase, hlookup, total, hentries]
    simp only [List.map_append, List.map_cons, List.sum_append, List.sum_cons, Option.getD_some]
    omega
  · rw [List.kerase_of_notMem_keys hd, AList.lookup_eq_none.mpr hd]
    simp only [Option.getD_none, total]
    omega

end Table

end Threadctl.Support.Stats

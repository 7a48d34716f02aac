import Mathlib.Algebra.BigOperators.Group.List.Basic
import Mathlib.Algebra.Order.Ring.Nat
import Threadctl.Support.Runs

/-!
# Potentials

A potential bounds how long a run can go on: what a move spends is taken from the potential
or from the credit that moves bring along.
-/

namespace Threadctl.Support.Potential

open Threadctl.Support.Runs

variable {σ μ : Type*} (step : σ → μ → σ)

def total (cost : μ → ℕ) (moves : List μ) : ℕ := (moves.map cost).sum

@[simp] theorem total_nil (cost : μ → ℕ) : total cost [] = 0 := rfl

theorem total_concat (cost : μ → ℕ) (moves : List μ) (m : μ) :
    total cost (moves ++ [m]) = total cost moves + cost m := by
  rw [total, List.map_append, List.sum_append, List.map_singleton, List.sum_singleton, total]

variable {potential : σ → ℕ} {spends credit : μ → ℕ} {done : σ → μ → Prop}

/-- Unless some move of the run is `done`, the moves spend no more than what there was and
what was brought along. -/
theorem run_spends
    (hstep : ∀ s m, ¬ done s m → potential (step s m) + spends m ≤ potential s + credit m)
    (s : σ) (moves : List μ) :
    AtSome step done s moves ∨
      potential (run step s moves) + total spends moves ≤ potential s + total credit moves := by
  induction moves using List.reverseRecOn with
  | nil => exact Or.inr le_rfl
  | append_singleton moves m ih =>
      rw [atSome_concat_iff, run_concat, total_concat, total_concat]
      rcases ih with hdone | hspent
      · exact Or.inl (Or.inl hdone)
      · by_cases hm : done (run step s moves) m
        · exact Or.inl (Or.inr hm)
        · have hlast := hstep (run step s moves) m hm
          refine Or.inr ?_
          omega

/-- With more to spend than there is, some move is `done`. -/
theorem atSome_done
    (hstep : ∀ s m, ¬ done s m → potential (step s m) + spends m ≤ potential s + credit m)
    {s : σ} {moves : List μ} (h : potential s + total credit moves < total spends moves) :
    AtSome step done s moves := by
  rcases run_spends step hstep s moves with hdone | hspent
  · exact hdone
  · omega

end Threadctl.Support.Potential

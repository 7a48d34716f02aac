import Mathlib.Algebra.Order.Group.Defs
import Mathlib.Algebra.Module.Defs
import Mathlib.Data.List.Basic
import Mathlib.Tactic.Abel

/-!
# Spaced instants

A list of instants is spaced when each one lies at least `gap` after every earlier one.  Then
a window of length `n • gap` has at most `n` of them.
-/

namespace Threadctl.Support.Pacing

variable {α : Type*} [AddCommGroup α] [LinearOrder α] {gap : α}

def Spaced (gap : α) (ts : List α) : Prop := ts.Pairwise fun s t => s + gap ≤ t

theorem spaced_nil : Spaced gap [] := List.Pairwise.nil

theorem spaced_concat_iff {ts : List α} {t : α} :
    Spaced gap (ts ++ [t]) ↔ Spaced gap ts ∧ ∀ s ∈ ts, s + gap ≤ t := by
  unfold Spaced
  rw [List.pairwise_append]
  constructor
  · rintro ⟨hts, -, hlast⟩
    exact ⟨hts, fun s hs => hlast s hs t List.mem_cons_self⟩
  · rintro ⟨hts, hlast⟩
    refine ⟨hts, List.pairwise_singleton _ _, fun s hs u hu => ?_⟩
    rw [List.mem_singleton.mp hu]
    exact hlast s hs

variable [IsOrderedAddMonoid α]

theorem Spaced.length_le {ts : List α} (h : Spaced gap ts) {start : α} {n : ℕ}
    (hfrom : ∀ t ∈ ts, start ≤ t) (hto : ∀ t ∈ ts, t < start + n • gap) : ts.length ≤ n := by
  induction ts generalizing start n with
  | nil => exact Nat.zero_le n
  | cons t ts ih =>
      obtain ⟨hgap, hrest⟩ := List.pairwise_cons.mp h
      have hstart : start ≤ t := hfrom t List.mem_cons_self
      have hlt : t < start + n • gap := hto t List.mem_cons_self
      cases n with
      | zero =>
          rw [zero_nsmul, add_zero] at hlt
          exact absurd hlt (not_lt_of_ge hstart)
      | succ n =>
          -- the others start one gap later
          have htail : ts.length ≤ n := by
            apply @ih hrest (start + gap) n (fun s hs => ?_) fun s hs => ?_
            · calc start + gap ≤ t + gap := by gcongr
                _ ≤ s := hgap s hs
            · have hs := hto s (List.mem_cons_of_mem t hs)
              rwa [succ_nsmul', ← add_assoc] at hs
          exact Nat.succ_le_succ htail

/-- At most `n` instants fall into a window of `n` gaps. -/
theorem Spaced.window {ts : List α} (h : Spaced gap ts) (start : α) (n : ℕ) :
    (ts.filter fun t => start ≤ t ∧ t < start + n • gap).length ≤ n := by
  have hmem : ∀ t ∈ ts.filter fun t => start ≤ t ∧ t < start + n • gap,
      start ≤ t ∧ t < start + n • gap := fun t ht => by simpa using List.of_mem_filter ht
  have hspaced : Spaced gap (ts.filter fun t => start ≤ t ∧ t < start + n • gap) :=
    List.Pairwise.filter _ h
  exact hspaced.length_le (fun t ht => (hmem t ht).1) fun t ht => (hmem t ht).2

end Threadctl.Support.Pacing

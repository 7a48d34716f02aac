import Mathlib.Algebra.Order.Ring.Int
import Mathlib.Tactic.Positivity

/-!
# Signed machine words

A signed word of `w + 1` bits keeps an integer as long as it fits.

* `wrap_of_fits`: the word has the value of an integer that fits;
* `wrap_of_upper_half`: an unsigned word with its top bit set turns negative.
-/

namespace Threadctl.Support.SignedWord

/-- The integers that a signed word of `w + 1` bits holds. -/
structure Fits (w : Nat) (n : Int) : Prop where
  lower : -2 ^ w ≤ n
  upper : n < 2 ^ w

/-- What a signed word of `w + 1` bits keeps of an integer. -/
def wrap (w : Nat) (n : Int) : Int := n.bmod (2 ^ (w + 1))

theorem half_width (w : Nat) : ((2 ^ (w + 1) : Nat) : Int) / 2 = 2 ^ w := by
  rw [Nat.cast_pow, Nat.cast_ofNat, pow_succ]
  exact Int.mul_ediv_cancel _ (by decide)

theorem half_width_up (w : Nat) : (((2 ^ (w + 1) : Nat) : Int) + 1) / 2 = 2 ^ w := by
  have hwidth : ((2 ^ (w + 1) : Nat) : Int) = 2 * 2 ^ w := by
    rw [Nat.cast_pow, Nat.cast_ofNat, pow_succ, mul_comm]
  rw [hwidth]
  omega

theorem fits_wrap (w : Nat) (n : Int) : Fits w (wrap w n) where
  lower := by
    have h := Int.le_bmod (x := n) (m := 2 ^ (w + 1)) (by positivity)
    rwa [half_width] at h
  upper := by
    have h := Int.bmod_lt (x := n) (m := 2 ^ (w + 1)) (by positivity)
    rwa [half_width_up] at h

theorem wrap_of_fits {w : Nat} {n : Int} (h : Fits w n) : wrap w n = n := by
  apply Int.bmod_eq_of_le
  · rw [half_width]
    exact h.lower
  · rw [half_width_up]
    exact h.upper

theorem wrap_of_upper_half {w : Nat} {n : Int} (hlow : 2 ^ w ≤ n) (hhigh : n < 2 ^ (w + 1)) :
    wrap w n = n - 2 ^ (w + 1) := by
  have hwidth : (2 : Int) ^ (w + 1) = 2 * 2 ^ w := by
    rw [pow_succ, mul_comm]
  have hfits : Fits w (n - 2 ^ (w + 1)) := by
    constructor
    · omega
    · omega
  calc wrap w n = (n - ((2 ^ (w + 1) : Nat) : Int)).bmod (2 ^ (w + 1)) := by
        rw [Int.sub_bmod_right, wrap]
    _ = wrap w (n - 2 ^ (w + 1)) := by rw [Nat.cast_pow, Nat.cast_ofNat, wrap]
    _ = n - 2 ^ (w + 1) := wrap_of_fits hfits

theorem fits_natCast_iff {w n : Nat} : Fits w (n : Int) ↔ n < 2 ^ w := by
  constructor
  · intro h
    exact_mod_cast h.upper
  · intro h
    have hpos : (0 : Int) ≤ 2 ^ w := by positivity
    constructor
    · omega
    · exact_mod_cast h

end Threadctl.Support.SignedWord

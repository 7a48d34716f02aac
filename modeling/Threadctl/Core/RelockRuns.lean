import Mathlib.Algebra.Order.Field.Rat
import Mathlib.Tactic.Linarith
import Threadctl.Core.Relock
import Threadctl.Support.Runs
import Threadctl.Support.Window

/-!
# Runs of the adaptive interval

The interval follows a window over the last samples and a counter of quiet time.  Both
are read off the samples here, so that every change of the interval can be justified by
the samples alone.
-/

namespace Threadctl.Core

open Threadctl.Support.Runs Threadctl.Support.Window

/-! ## Windows -/

def Majority (window : List Bool) : Prop :=
  windowSamples ≤ window.length ∧ window.length ≤ 2 * window.count true

def Minority (window : List Bool) : Prop :=
  windowSamples ≤ window.length ∧ 2 * window.count true < window.length

theorem Minority.not_majority {window : List Bool} (h : Minority window) : ¬ Majority window :=
  fun hmajority => Nat.not_le_of_lt h.2 hmajority.2

theorem half_le_div_iff {m n : Nat} (hn : 0 < n) : (1 / 2 : Rat) ≤ m / n ↔ n ≤ 2 * m := by
  have hpos : (0 : Rat) < n := by exact_mod_cast hn
  rw [le_div_iff₀ hpos]
  constructor
  · intro h
    have hle : (n : Rat) ≤ 2 * m := by linarith
    exact_mod_cast hle
  · intro h
    have hle : (n : Rat) ≤ 2 * m := by exact_mod_cast h
    linarith

theorem majority_iff_half {window : List Bool} (hfull : ¬ window.length < windowSamples) :
    Majority window ↔ (1 / 2 : Rat) ≤ window.count true / window.length := by
  have hlength : windowSamples ≤ window.length := Nat.le_of_not_lt hfull
  rw [half_le_div_iff (Nat.lt_of_lt_of_le (by decide) hlength)]
  exact and_iff_right hlength

theorem minority_of_not_half {window : List Bool} (hfull : ¬ window.length < windowSamples)
    (h : ¬ (1 / 2 : Rat) ≤ window.count true / window.length) : Minority window := by
  have hlength : windowSamples ≤ window.length := Nat.le_of_not_lt hfull
  refine ⟨hlength, Nat.lt_of_not_le fun hhalf => ?_⟩
  exact h ((majority_iff_half hfull).mp ⟨hlength, hhalf⟩)

/-! ## One sample -/

/-- A coverage sample, for `observe` or for `observe_ratio`. -/
inductive Sample where
  | covered (c : Bool)
  | ratio (r : Rat)

def isCovered (ratio : Rat) : Bool := decide (1 / 2 ≤ ratio)

def Sample.isCovered : Sample → Bool
  | .covered c => c
  | .ratio r => Core.isCovered r

def AdaptiveRelock.take (a : AdaptiveRelock) : Sample → AdaptiveRelock
  | .covered c => a.observe c
  | .ratio r => a.observeRatio r

def AdaptiveRelock.nextWindow (a : AdaptiveRelock) (covered : Bool) : List Bool :=
  slide windowSamples a.samples covered

/-- What one sample can do; `quiet` says when it counts as quiet time. -/
inductive Observed (a : AdaptiveRelock) (covered : Bool) (quiet : Prop) : AdaptiveRelock → Prop
  where
  | filling (hshort : (a.nextWindow covered).length < windowSamples) :
      Observed a covered quiet ⟨a.rank, a.nextWindow covered, a.stableSecs⟩
  | shortened (hmajority : Majority (a.nextWindow covered)) :
      Observed a covered quiet ⟨shortenRank a.rank, a.nextWindow covered, 0⟩
  | extended (hfew : Minority (a.nextWindow covered)) (hquiet : quiet)
      (hstable : stableSecsExtend ≤ a.stableSecs + sampleIntervalSecs) :
      Observed a covered quiet ⟨extendRank a.rank, a.nextWindow covered, 0⟩
  | counted (hfew : Minority (a.nextWindow covered)) (hquiet : quiet)
      (hstable : a.stableSecs + sampleIntervalSecs < stableSecsExtend) :
      Observed a covered quiet
        ⟨a.rank, a.nextWindow covered, a.stableSecs + sampleIntervalSecs⟩
  | unsettled (hfew : Minority (a.nextWindow covered)) :
      Observed a covered quiet ⟨a.rank, a.nextWindow covered, 0⟩

theorem observed_of_body (a : AdaptiveRelock) (covered : Bool) (quiet : Prop) [Decidable quiet] :
    Observed a covered quiet
      (if (a.nextWindow covered).length < windowSamples then
        ⟨a.rank, a.nextWindow covered, a.stableSecs⟩
      else if (1 / 2 : Rat) ≤
          (a.nextWindow covered).count true / (a.nextWindow covered).length then
        ⟨shortenRank a.rank, a.nextWindow covered, 0⟩
      else if quiet then
        if stableSecsExtend ≤ a.stableSecs + sampleIntervalSecs then
          ⟨extendRank a.rank, a.nextWindow covered, 0⟩
        else ⟨a.rank, a.nextWindow covered, a.stableSecs + sampleIntervalSecs⟩
      else ⟨a.rank, a.nextWindow covered, 0⟩) := by
  split
  · exact .filling ‹_›
  · rename_i hfull
    split
    · exact .shortened ((majority_iff_half hfull).mpr ‹_›)
    · rename_i hhalf
      have hfew := minority_of_not_half hfull hhalf
      split
      · split
        · exact .extended hfew ‹_› ‹_›
        · exact .counted hfew ‹_› (Nat.lt_of_not_le ‹_›)
      · exact .unsettled hfew

theorem observeRatio_observed (a : AdaptiveRelock) (ratio : Rat) :
    Observed a (isCovered ratio) (ratio = 0) (a.observeRatio ratio) :=
  observed_of_body a (isCovered ratio) (ratio = 0)

theorem observe_observed (a : AdaptiveRelock) (covered : Bool) :
    Observed a covered ((a.nextWindow covered).count true = 0) (a.observe covered) :=
  observed_of_body a covered ((a.nextWindow covered).count true = 0)

theorem take_observed (a : AdaptiveRelock) (sample : Sample) :
    ∃ quiet, Observed a sample.isCovered quiet (a.take sample) := by
  cases sample with
  | covered c => exact ⟨_, observe_observed a c⟩
  | ratio r => exact ⟨_, observeRatio_observed a r⟩

/-! ## The interval and its rank -/

theorem interval_lt_iff {i j : Fin intervalsSecs.length} :
    intervalsSecs.get i < intervalsSecs.get j ↔ i < j := by
  revert i j
  decide

theorem long_interval_iff (a : AdaptiveRelock) : 60 ≤ a.intervalSecs ↔ 2 ≤ a.rank.val := by
  have hlist : ∀ i : Fin intervalsSecs.length, 60 ≤ intervalsSecs.get i ↔ 2 ≤ i.val := by decide
  exact hlist a.rank

theorem shortenRank_lt_iff (rank : Fin intervalsSecs.length) :
    shortenRank rank < rank ↔ 0 < rank.val := by
  rw [Fin.lt_def, shortenRank]
  dsimp only
  omega

theorem le_extendRank (rank : Fin intervalsSecs.length) : rank ≤ extendRank rank := by
  revert rank
  decide

section Observed

variable {a a' : AdaptiveRelock} {covered : Bool} {quiet : Prop}

theorem Observed.samples_eq (h : Observed a covered quiet a') :
    a'.samples = a.nextWindow covered := by
  cases h <;> rfl

/-- The interval gets shorter when the window is mostly covered, down to the shortest one. -/
theorem Observed.shorter_iff (h : Observed a covered quiet a') :
    a'.intervalSecs < a.intervalSecs ↔ Majority (a.nextWindow covered) ∧ 0 < a.rank.val := by
  rw [AdaptiveRelock.intervalSecs, AdaptiveRelock.intervalSecs, interval_lt_iff]
  cases h with
  | filling hshort =>
      refine iff_of_false (lt_irrefl _) fun h => ?_
      exact absurd h.1.1 (Nat.not_le_of_lt hshort)
  | shortened hmajority =>
      rw [shortenRank_lt_iff]
      exact (and_iff_right hmajority).symm
  | extended hfew =>
      refine iff_of_false (not_lt_of_ge (le_extendRank a.rank)) fun h => ?_
      exact hfew.not_majority h.1
  | counted hfew | unsettled hfew =>
      exact iff_of_false (lt_irrefl _) fun h => hfew.not_majority h.1

/-- The interval gets longer only on a quiet sample that completes the quiet time. -/
theorem Observed.of_longer (h : Observed a covered quiet a')
    (hlonger : a.intervalSecs < a'.intervalSecs) :
    quiet ∧ stableSecsExtend ≤ a.stableSecs + sampleIntervalSecs := by
  rw [AdaptiveRelock.intervalSecs, AdaptiveRelock.intervalSecs, interval_lt_iff] at hlonger
  cases h with
  | shortened hmajority =>
      have hle : shortenRank a.rank ≤ a.rank := Nat.sub_le _ _
      exact absurd hlonger (not_lt_of_ge hle)
  | extended hfew hquiet hstable => exact ⟨hquiet, hstable⟩
  | filling | counted | unsettled => exact absurd hlonger (lt_irrefl _)

theorem Observed.rank_step (h : Observed a covered quiet a') :
    (a'.rank : Nat) ≤ a.rank + 1 ∧ (a.rank : Nat) ≤ a'.rank + 1 := by
  cases h with
  | shortened hmajority =>
      unfold shortenRank
      dsimp only
      omega
  | extended hfew hquiet hstable =>
      unfold extendRank
      split <;> simp only <;> omega
  | filling | counted | unsettled => exact ⟨Nat.le_succ _, Nat.le_succ _⟩

theorem Observed.stableSecs_le (h : Observed a covered quiet a') :
    a'.stableSecs ≤ a.stableSecs + sampleIntervalSecs := by
  cases h with
  | filling => exact Nat.le_add_right _ _
  | counted => exact Nat.le_refl _
  | shortened | extended | unsettled => exact Nat.zero_le _

theorem Observed.of_majority (h : Observed a covered quiet a')
    (hmajority : Majority (a.nextWindow covered)) :
    a'.rank = shortenRank a.rank ∧ a'.stableSecs = 0 := by
  cases h with
  | shortened => exact ⟨rfl, rfl⟩
  | filling hshort => exact absurd hmajority.1 (Nat.not_le_of_lt hshort)
  | extended hfew | counted hfew | unsettled hfew => exact absurd hmajority hfew.not_majority

end Observed

/-! ## The samples behind a state -/

def observedFrom (secs : Nat) (history : List Sample) : AdaptiveRelock :=
  run AdaptiveRelock.take (.fromInitial secs) history

theorem observedFrom_concat (secs : Nat) (history : List Sample) (sample : Sample) :
    observedFrom secs (history ++ [sample]) = (observedFrom secs history).take sample :=
  run_concat _ _ _ _

theorem samples_observedFrom (secs : Nat) (history : List Sample) :
    (observedFrom secs history).samples =
      (history.map Sample.isCovered).rtake windowSamples := by
  induction history using List.reverseRecOn with
  | nil => rfl
  | append_singleton history sample ih =>
      obtain ⟨quiet, hobserved⟩ := take_observed (observedFrom secs history) sample
      rw [observedFrom_concat, hobserved.samples_eq, AdaptiveRelock.nextWindow, ih,
        slide_rtake (by decide), List.map_append, List.map_singleton]

theorem nextWindow_observedFrom (secs : Nat) (history : List Sample) (sample : Sample) :
    (observedFrom secs history).nextWindow sample.isCovered =
      ((history ++ [sample]).map Sample.isCovered).rtake windowSamples := by
  rw [AdaptiveRelock.nextWindow, samples_observedFrom, slide_rtake (by decide), List.map_append,
    List.map_singleton]

/-- At least half of the last 15 samples were covered. -/
def CoveredHistory (history : List Sample) : Prop :=
  windowSamples ≤ history.length ∧
    windowSamples ≤ 2 * (history.rtake windowSamples).countP Sample.isCovered

theorem majority_iff (secs : Nat) (history : List Sample) (sample : Sample) :
    Majority ((observedFrom secs history).nextWindow sample.isCovered) ↔
      CoveredHistory (history ++ [sample]) := by
  have hcount : (((history ++ [sample]).rtake windowSamples).map Sample.isCovered).count true =
      ((history ++ [sample]).rtake windowSamples).countP Sample.isCovered := by
    rw [List.count, List.countP_map]
    congr 1
    funext r
    exact beq_true _
  rw [Majority, CoveredHistory, nextWindow_observedFrom, ← map_rtake, hcount, List.length_map,
    length_rtake]
  omega

/-- The counter counts zeros at the end of the ratios; it does not start before the
window is full. -/
structure CountsZeros (a : AdaptiveRelock) (ratios : List Rat) : Prop where
  filling : ratios.length < windowSamples → a.stableSecs = 0
  zeros : ∃ k, a.stableSecs = k * sampleIntervalSecs ∧ k ≤ ratios.length ∧
    ∀ r ∈ ratios.rtake k, r = 0

theorem countsZeros_of_zero {a : AdaptiveRelock} (h : a.stableSecs = 0) (ratios : List Rat) :
    CountsZeros a ratios where
  filling _ := h
  zeros := ⟨0, by rw [h, Nat.zero_mul], Nat.zero_le _, by simp⟩

theorem zeros_concat {ratios : List Rat} {k : Nat} (hzeros : ∀ r ∈ ratios.rtake k, r = 0) :
    ∀ r ∈ (ratios ++ [0]).rtake (k + 1), r = 0 := by
  intro r hr
  rw [List.rtake_concat_succ, List.mem_append, List.mem_singleton] at hr
  exact hr.elim (hzeros r) id

theorem CountsZeros.step {a a' : AdaptiveRelock} {ratios : List Rat} {ratio : Rat}
    (h : CountsZeros a ratios) (hobserved : Observed a (isCovered ratio) (ratio = 0) a')
    (hlength : (a.nextWindow (isCovered ratio)).length = min windowSamples (ratios.length + 1)) :
    CountsZeros a' (ratios ++ [ratio]) := by
  cases hobserved with
  | filling hshort =>
      apply countsZeros_of_zero
      exact h.filling (by omega)
  | counted hfew hquiet hstable =>
      obtain ⟨k, hk, hle, hzeros⟩ := h.zeros
      have hfull := hfew.1
      refine ⟨fun hshort => ?_, k + 1, ?_, ?_, ?_⟩
      · rw [List.length_append, List.length_singleton] at hshort
        omega
      · rw [hk, Nat.succ_mul]
      · rw [List.length_append, List.length_singleton]
        omega
      · rw [hquiet]
        exact zeros_concat hzeros
  | shortened | extended | unsettled => exact countsZeros_of_zero rfl _

theorem countsZeros_observedFrom (secs : Nat) (ratios : List Rat) :
    CountsZeros (observedFrom secs (ratios.map .ratio)) ratios := by
  induction ratios using List.reverseRecOn with
  | nil => exact countsZeros_of_zero rfl []
  | append_singleton ratios ratio ih =>
      rw [List.map_append, List.map_singleton, observedFrom_concat]
      apply ih.step (observeRatio_observed _ ratio)
      have hwindow := nextWindow_observedFrom secs (ratios.map .ratio) (.ratio ratio)
      rw [Sample.isCovered] at hwindow
      rw [hwindow, length_rtake]
      simp

/-! ## Contract: every change has its evidence -/

/-- A sample takes the interval from `before` to `after`: it stays on the list and moves by
one step at most.  It gets shorter only when half of the last 15 samples were covered, and
longer only after 30 zeros. -/
structure Justified (ratios : List Rat) (before after : AdaptiveRelock) : Prop where
  before_mem : before.intervalSecs ∈ intervalsSecs
  after_mem : after.intervalSecs ∈ intervalsSecs
  longer_by_one : (after.rank : Nat) ≤ before.rank + 1
  shorter_by_one : (before.rank : Nat) ≤ after.rank + 1
  of_shorter : after.intervalSecs < before.intervalSecs →
    windowSamples ≤ ratios.length ∧
      windowSamples ≤ 2 * (ratios.rtake windowSamples).countP isCovered
  of_longer : before.intervalSecs < after.intervalSecs →
    30 ≤ ratios.length ∧ ∀ r ∈ ratios.rtake 30, r = 0

theorem adaptive_interval_justified (secs : Nat) (ratios : List Rat) (ratio : Rat) :
    Justified (ratios ++ [ratio]) (observedFrom secs (ratios.map .ratio))
      ((observedFrom secs (ratios.map .ratio)).observeRatio ratio) := by
  have hobserved := observeRatio_observed (observedFrom secs (ratios.map .ratio)) ratio
  refine ⟨List.get_mem _ _, List.get_mem _ _, hobserved.rank_step.1, hobserved.rank_step.2,
    fun hshorter => ?_, fun hlonger => ?_⟩
  · have hmajority := (hobserved.shorter_iff.mp hshorter).1
    have hcovered := (majority_iff secs (ratios.map .ratio) (.ratio ratio)).mp hmajority
    have hhistory : ratios.map Sample.ratio ++ [.ratio ratio] = (ratios ++ [ratio]).map .ratio := by
      rw [List.map_append, List.map_singleton]
    rw [hhistory, CoveredHistory, List.length_map, ← map_rtake, List.countP_map] at hcovered
    exact hcovered
  · obtain ⟨hquiet, hstable⟩ := hobserved.of_longer hlonger
    obtain ⟨k, hk, hle, hzeros⟩ := (countsZeros_observedFrom secs ratios).zeros
    have henough : 29 ≤ k := by
      rw [hk, stableSecsExtend, sampleIntervalSecs] at hstable
      omega
    have hlast : ∀ r ∈ ratios.rtake 29, r = 0 := fun r hr => hzeros r (rtake_subset henough hr)
    rw [hquiet, List.length_append, List.length_singleton]
    exact ⟨by omega, zeros_concat hlast⟩

/-! ## Contract: one shortening per window -/

def AdaptiveRelock.Shrinks (a : AdaptiveRelock) (sample : Sample) : Prop :=
  (a.take sample).intervalSecs < a.intervalSecs

/-- Any two decreases of the interval are a whole window apart. -/
def ShrinksApart (secs : Nat) (samples : List Sample) : Prop :=
  ∀ before s between s' after, samples = before ++ s :: (between ++ s' :: after) →
    (observedFrom secs before).Shrinks s →
    (observedFrom secs (before ++ s :: between)).Shrinks s' →
      windowSamples ≤ between.length + 1

/-- Once the last 15 samples were covered while the interval was 60 s or more, they are
not covered again for a whole window. -/
def WindowsApart (secs : Nat) (samples : List Sample) : Prop :=
  ∀ before s between s' after, samples = before ++ s :: (between ++ s' :: after) →
    60 ≤ (observedFrom secs before).intervalSecs → CoveredHistory (before ++ [s]) →
    CoveredHistory (before ++ s :: between ++ [s']) → windowSamples ≤ between.length + 1

theorem observedFrom_append (secs : Nat) (before : List Sample) (s : Sample)
    (between : List Sample) :
    observedFrom secs (before ++ s :: between) =
      run AdaptiveRelock.take ((observedFrom secs before).take s) between :=
  run_append _ _ _ _

theorem shrinks_observedFrom_iff (secs : Nat) (history : List Sample) (sample : Sample) :
    (observedFrom secs history).Shrinks sample ↔
      CoveredHistory (history ++ [sample]) ∧ 0 < (observedFrom secs history).rank.val := by
  obtain ⟨quiet, hobserved⟩ := take_observed (observedFrom secs history) sample
  rw [AdaptiveRelock.Shrinks, hobserved.shorter_iff, majority_iff]

theorem take_of_covered (secs : Nat) {history : List Sample} {sample : Sample}
    (h : CoveredHistory (history ++ [sample])) :
    ((observedFrom secs history).take sample).rank = shortenRank (observedFrom secs history).rank ∧
      ((observedFrom secs history).take sample).stableSecs = 0 := by
  obtain ⟨quiet, hobserved⟩ := take_observed (observedFrom secs history) sample
  exact hobserved.of_majority ((majority_iff secs history sample).mpr h)

/-- Too few samples to complete the quiet time cannot make the interval longer. -/
theorem rank_le_of_few {a : AdaptiveRelock} {samples : List Sample}
    (hfew : a.stableSecs + samples.length * sampleIntervalSecs < stableSecsExtend) :
    (run AdaptiveRelock.take a samples).rank ≤ a.rank := by
  induction samples generalizing a with
  | nil => exact le_refl _
  | cons sample samples ih =>
      obtain ⟨quiet, hobserved⟩ := take_observed a sample
      have hstable := hobserved.stableSecs_le
      rw [List.length_cons, Nat.succ_mul] at hfew
      have hfirst : (a.take sample).rank ≤ a.rank := by
        by_contra hlonger
        have hlt : a.intervalSecs < (a.take sample).intervalSecs :=
          interval_lt_iff.mpr (lt_of_not_ge hlonger)
        have hextend := (hobserved.of_longer hlt).2
        omega
      exact (ih (by omega)).trans hfirst

theorem atSome_shrinks_of_low (secs : Nat) {before between : List Sample} {s : Sample}
    (hlong : 60 ≤ (observedFrom secs before).intervalSecs)
    (hcovered : CoveredHistory (before ++ [s]))
    (hlow : (observedFrom secs (before ++ s :: between)).rank.val = 0) :
    AtSome AdaptiveRelock.take AdaptiveRelock.Shrinks ((observedFrom secs before).take s)
      between := by
  have hrank := (long_interval_iff _).mp hlong
  have hdown : (observedFrom secs (before ++ s :: between)).intervalSecs <
      ((observedFrom secs before).take s).intervalSecs := by
    rw [AdaptiveRelock.intervalSecs, AdaptiveRelock.intervalSecs, interval_lt_iff,
      (take_of_covered secs hcovered).1, Fin.lt_def, shortenRank]
    dsimp only
    omega
  rw [observedFrom_append] at hdown
  exact atSome_of_run_lt _ AdaptiveRelock.intervalSecs hdown

/-- After a short interval a covered window leads to the lower end, and the interval has to
get longer before it can get shorter again. -/
theorem low_of_close (secs : Nat) {before between : List Sample} {s : Sample}
    (hshort : (observedFrom secs before).intervalSecs < 60)
    (hcovered : CoveredHistory (before ++ [s])) (hclose : between.length + 1 < windowSamples) :
    (observedFrom secs (before ++ s :: between)).rank.val = 0 := by
  have hwindow : windowSamples = 15 := rfl
  obtain ⟨hrank, hstable⟩ := take_of_covered secs hcovered
  have hlow : (shortenRank (observedFrom secs before).rank).val = 0 := by
    rw [← Nat.not_le, long_interval_iff] at hshort
    rw [shortenRank]
    dsimp only
    omega
  have hstays : (run AdaptiveRelock.take ((observedFrom secs before).take s) between).rank ≤
      ((observedFrom secs before).take s).rank := by
    apply rank_le_of_few
    rw [hstable, sampleIntervalSecs, stableSecsExtend]
    omega
  rw [← observedFrom_append, hrank, Fin.le_def, hlow] at hstays
  exact Nat.le_zero.mp hstays

/-- Decreases are a window apart exactly when covered windows are, as far as the interval
leaves room for two decreases. -/
theorem shrinksApart_iff (secs : Nat) (samples : List Sample) :
    ShrinksApart secs samples ↔ WindowsApart secs samples := by
  constructor
  · intro h before s between s' after hsplit hlong hcovered hcovered'
    have hrank := (long_interval_iff _).mp hlong
    have hshrinks : (observedFrom secs before).Shrinks s :=
      (shrinks_observedFrom_iff secs before s).mpr ⟨hcovered, by omega⟩
    rcases Nat.eq_zero_or_pos (observedFrom secs (before ++ s :: between)).rank.val with
      hlow | hpos
    · obtain ⟨pre, m, post, rfl, hm⟩ := atSome_shrinks_of_low secs hlong hcovered hlow
      have hearly := h before s pre m (post ++ s' :: after) (by rw [hsplit]; simp) hshrinks
        (by rw [observedFrom_append]; exact hm)
      rw [List.length_append, List.length_cons]
      omega
    · exact h before s between s' after hsplit hshrinks
        ((shrinks_observedFrom_iff secs _ s').mpr ⟨hcovered', hpos⟩)
  · intro h before s between s' after hsplit hshrinks hshrinks'
    obtain ⟨hcovered, -⟩ := (shrinks_observedFrom_iff secs before s).mp hshrinks
    obtain ⟨hcovered', hpos⟩ :=
      (shrinks_observedFrom_iff secs (before ++ s :: between) s').mp hshrinks'
    rcases lt_or_ge (observedFrom secs before).intervalSecs 60 with hshort | hlong
    · by_contra hclose
      have hlow := low_of_close secs hshort hcovered (Nat.not_le.mp hclose)
      omega
    · exact h before s between s' after hsplit hlong hcovered hcovered'

/-- A burst of full coverage takes the interval from 300 s to 3 s in three samples. -/
theorem burst_shortens_three_times : ¬∀ secs samples, ShrinksApart secs samples := by
  intro h
  have hapart := h 300 (List.replicate 17 (.ratio 1)) (List.replicate 14 (.ratio 1)) (.ratio 1) []
    (.ratio 1) [.ratio 1] rfl (by unfold AdaptiveRelock.Shrinks; decide +kernel)
    (by unfold AdaptiveRelock.Shrinks; decide +kernel)
  exact absurd hapart (by decide)

end Threadctl.Core

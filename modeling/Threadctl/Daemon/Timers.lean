import Threadctl.Core.KdlReading
import Threadctl.Daemon.Settings
import Threadctl.Support.SignedWord
import Threadctl.Support.Stats

/-!
# The intervals as machine words

The intervals of the configuration are unsigned words of 64 bits.  They are turned into
signed ones of 64 or 32 bits where timers are computed:

* the first relock interval, from the distances to the lock interval;
* the deadline of a poll and the timeout of the inotify watch, from the scan interval;
* the time of the next cleanup, from the cleanup interval.
-/

namespace Threadctl.Daemon

open Threadctl.Core Threadctl.Support Threadctl.Support.Runs Threadctl.Support.SignedWord

variable {κ : Type}

/-! ## The source's computations -/

/-- `Instant`: a clock of seconds, and of nanoseconds within the second. -/
structure Instant where
  secs : Nat
  nanos : Nat
  secs_lt : secs < 2 ^ 63
  nanos_lt : nanos < nanosPerSec

def Instant.toNanos (t : Instant) : Nat := t.secs * nanosPerSec + t.nanos

/-- `self + Duration::from_secs(secs)`, which panics when the seconds overflow. -/
def Instant.addSecs (t : Instant) (secs : Nat) : Option Instant :=
  if h : t.secs + secs < 2 ^ 63 then some ⟨t.secs + secs, t.nanos, h, t.nanos_lt⟩ else none

/-- `scan_interval.max(cfg.engine.scan_interval)` -/
def pollInterval (scanInterval : Nat) (e : EngineConfig) : Nat := max scanInterval e.scanInterval

/-- `as libc::c_int`, and the wrapping arithmetic of a release build. -/
def wrapI32 (n : Int) : Int := n.bmod (2 ^ 32)

/-- The timeout of `InotifyWatch::wait`; a negative one waits for ever. -/
def pollTimeoutMs (interval : Nat) : Int := wrapI32 (wrapI32 interval * 1000)

/-- `now - last_cleanup >= dead_interval.max(1) as i64` -/
def cleanupDue (e : EngineConfig) (now last : Int) : Prop :=
  wrapI64 (max e.deadCleanupInterval 1 : Nat) ≤ now - last

instance (e : EngineConfig) (now last : Int) : Decidable (cleanupDue e now last) :=
  inferInstanceAs (Decidable (_ ≤ _))

/-! ## The cleanup in the main loop -/

def CleansUp (d : DaemonState κ) (m : Move κ) : Prop :=
  (∃ a, m = .main a) ∧ d.point = .station .cleanup ∧
    cleanupDue d.cfg.engine d.now d.lastCleanup

section Loop

variable (b : Boot κ)

theorem cleanupStation_eq (d : DaemonState κ) :
    b.cleanupStation d =
      if cleanupDue d.cfg.engine d.now d.lastCleanup then
        { (d.exec (cleanupDead b.env)).2 with lastCleanup := d.now, point := .station .poll }
      else { d with point := .station .poll } := by
  by_cases hdue : cleanupDue d.cfg.engine d.now d.lastCleanup
  · rw [if_pos hdue]
    exact if_pos hdue
  · rw [if_neg hdue]
    exact if_neg hdue

theorem lastCleanup_of_cleansUp {d : DaemonState κ} {m : Move κ} (h : CleansUp d m) :
    (b.step d m).lastCleanup = d.now := by
  obtain ⟨⟨a, rfl⟩, hpoint, hdue⟩ := h
  have hstep : b.step d (.main a) = b.cleanupStation d := by
    rw [Boot.step, Boot.mainStep, hpoint]
    rfl
  rw [hstep, cleanupStation_eq, if_pos hdue]

theorem lastCleanup_coverageStation (d : DaemonState κ) :
    (b.coverageStation d).lastCleanup = d.lastCleanup := by
  unfold Boot.coverageStation
  dsimp only
  repeat' split
  all_goals rfl

theorem lastCleanup_station (a : Answers) {d : DaemonState κ} {stop : Station}
    (h : stop = .cleanup → ¬ cleanupDue d.cfg.engine d.now d.lastCleanup) :
    (b.station a d stop).lastCleanup = d.lastCleanup := by
  rcases eq_or_ne stop .coverage with rfl | hcoverage
  · exact lastCleanup_coverageStation b d
  rcases eq_or_ne stop .cleanup with rfl | hcleanup
  · have hstation : b.station a d .cleanup = { d with point := .station .poll } :=
      (cleanupStation_eq b d).trans (if_neg (h rfl))
    rw [hstation]
  · exact congrArg Prod.snd (held_station b a d hcoverage hcleanup)

theorem lastCleanup_step {d : DaemonState κ} {m : Move κ} (h : ¬ CleansUp d m) :
    (b.step d m).lastCleanup = d.lastCleanup := by
  rcases step_station_or b d m with ⟨a, stop, rfl, hpoint, hstep⟩ | ⟨-, hsame⟩
  · rw [hstep]
    apply lastCleanup_station
    intro hstop hdue
    exact h ⟨⟨a, rfl⟩, hstop ▸ hpoint, hdue⟩
  · exact hsame

/-- Between two cleanups the main loop waits for the interval that the cast gives. -/
theorem cleanups_apart {d : DaemonState κ} {m m' : Move κ} {moves : List (Move κ)}
    (hfirst : CleansUp d m) (hnone : ¬ AtSome b.step CleansUp (b.step d m) moves)
    (hnext : CleansUp (run b.step (b.step d m) moves) m') :
    cleanupDue (run b.step (b.step d m) moves).cfg.engine
      (run b.step (b.step d m) moves).now d.now := by
  have hkept : ∀ moves, ¬ AtSome b.step CleansUp (b.step d m) moves →
      (run b.step (b.step d m) moves).lastCleanup = d.now := by
    intro moves
    induction moves using List.reverseRecOn with
    | nil => exact fun _ => lastCleanup_of_cleansUp b hfirst
    | append_singleton moves m'' ih =>
        intro hnone
        rw [atSome_concat_iff] at hnone
        push Not at hnone
        rw [run_concat, lastCleanup_step b hnone.2]
        exact ih hnone.1
  have hdue := hnext.2.2
  rwa [hkept moves hnone] at hdue

end Loop

/-! ## The relock interval -/

theorem wrapI64_of_lt {n : Nat} (h : n < 2 ^ 63) : wrapI64 n = n :=
  wrap_of_fits (w := 63) (fits_natCast_iff.mpr h)

theorem wrapI64_of_upper_half {n : Nat} (hlow : 2 ^ 63 ≤ n) (hhigh : n < 2 ^ 64) :
    wrapI64 n = n - 2 ^ 64 :=
  wrap_of_upper_half (w := 63) (by omega) (by omega)

theorem le_of_mem_intervals {v : Nat} (h : v ∈ intervalsSecs) : 3 ≤ v ∧ v ≤ 300 := by
  revert v
  decide

theorem intervalDistance_of_fits {secs v : Nat} (hdiff : Fits 63 (wrapI64 v - wrapI64 secs))
    (habs : Fits 63 |wrapI64 v - wrapI64 secs|) :
    intervalDistance secs v = |wrapI64 v - wrapI64 secs| := by
  have hsub : wrapI64 (wrapI64 v - wrapI64 secs) = wrapI64 v - wrapI64 secs := wrap_of_fits hdiff
  unfold intervalDistance
  dsimp only
  rw [hsub]
  split
  · rename_i hneg
    rw [abs_of_neg hneg] at habs ⊢
    exact wrap_of_fits habs
  · rename_i hpos
    rw [abs_of_nonneg (by omega)]

theorem intervalDistance_closestRank_le (secs : Nat) (i : Fin intervalsSecs.length) :
    intervalDistance secs (intervalsSecs.get (closestRank secs)) ≤
      intervalDistance secs (intervalsSecs.get i) := by
  have hmin := (Stats.foldl_min_le (fun i => intervalDistance secs (intervalsSecs.get i))
    (List.finRange intervalsSecs.length) ⟨0, by decide⟩).2 i (List.mem_finRange i)
  unfold closestRank
  exact hmin

theorem intervalDistance_fromInitial_le (secs : Nat) {v : Nat} (hv : v ∈ intervalsSecs) :
    intervalDistance secs (AdaptiveRelock.fromInitial secs).intervalSecs ≤
      intervalDistance secs v := by
  obtain ⟨i, rfl⟩ := List.get_of_mem hv
  have hpicked : (AdaptiveRelock.fromInitial secs).intervalSecs =
      intervalsSecs.get (closestRank secs) := by
    rw [AdaptiveRelock.intervalSecs, AdaptiveRelock.fromInitial]
  rw [hpicked]
  exact intervalDistance_closestRank_le secs i

/-- No subtraction and no absolute value of `from_initial` overflows, and the interval it picks is
as close as any. -/
structure PicksClosest (secs : Nat) : Prop where
  exact : ∀ v ∈ intervalsSecs,
    Fits 63 (wrapI64 v - wrapI64 secs) ∧ Fits 63 |wrapI64 v - wrapI64 secs|
  closest : ∀ v ∈ intervalsSecs,
    |((AdaptiveRelock.fromInitial secs).intervalSecs : Int) - secs| ≤ |(v : Int) - secs|

theorem intervalSecs_mem (a : AdaptiveRelock) : a.intervalSecs ∈ intervalsSecs :=
  List.get_mem _ _

theorem picksClosest_of_lt {secs : Nat} (h : secs < 2 ^ 63) : PicksClosest secs := by
  have hfits : ∀ v ∈ intervalsSecs,
      Fits 63 (wrapI64 v - wrapI64 secs) ∧ Fits 63 |wrapI64 v - wrapI64 secs| := by
    intro v hv
    have hbound := le_of_mem_intervals hv
    rw [wrapI64_of_lt h, wrapI64_of_lt (by omega)]
    refine ⟨⟨by omega, by omega⟩, ⟨?_, ?_⟩⟩
    · exact le_trans (by decide) (abs_nonneg _)
    · rw [abs_lt]
      omega
  have hdistance : ∀ v ∈ intervalsSecs, intervalDistance secs v = |(v : Int) - secs| := by
    intro v hv
    have hbound := le_of_mem_intervals hv
    rw [intervalDistance_of_fits (hfits v hv).1 (hfits v hv).2, wrapI64_of_lt h,
      wrapI64_of_lt (by omega)]
  refine ⟨hfits, ?_⟩
  intro v hv
  rw [← hdistance v hv, ← hdistance _ (intervalSecs_mem _)]
  exact intervalDistance_fromInitial_le secs hv

/-- A lock interval with its top bit set turns negative.  Then the shortest of the intervals seems
to be the closest one, or the subtraction overflows. -/
theorem lt_of_picksClosest {secs : Nat} (hword : secs < 2 ^ 64) (h : PicksClosest secs) :
    secs < 2 ^ 63 := by
  by_contra hlarge
  have hcast := wrapI64_of_upper_half (not_lt.mp hlarge) hword
  have hdistance : ∀ v ∈ intervalsSecs, intervalDistance secs v = v + 2 ^ 64 - secs := by
    intro v hv
    have hbound := le_of_mem_intervals hv
    rw [intervalDistance_of_fits (h.exact v hv).1 (h.exact v hv).2, hcast,
      wrapI64_of_lt (by omega), abs_of_nonneg (by omega)]
    ring
  have hmem := intervalSecs_mem (AdaptiveRelock.fromInitial secs)
  have hshortest := intervalDistance_fromInitial_le secs (v := 3) (by decide)
  have hclosest := h.closest 300 (by decide)
  rw [hdistance _ hmem, hdistance 3 (by decide)] at hshortest
  rw [abs_of_neg (by omega), abs_of_neg (by omega)] at hclosest
  omega

/-- The daemon never asks for an interval of zero, which would be closest to the same one. -/
theorem engineInterval_eq (e : EngineConfig) :
    engineInterval e = AdaptiveRelock.fromInitial e.lockInterval := by
  rcases Nat.eq_zero_or_pos e.lockInterval with hzero | hpos
  · have hsame : closestRank (max 0 1) = closestRank 0 := by decide +kernel
    rw [engineInterval, hzero, AdaptiveRelock.fromInitial, hsame, AdaptiveRelock.fromInitial]
  · rw [engineInterval, Nat.max_eq_left hpos]

theorem addSecs_exact_iff (t : Instant) (secs : Nat) :
    (t.addSecs secs).map Instant.toNanos = some (t.toNanos + secs * nanosPerSec) ↔
      t.secs + secs < 2 ^ 63 := by
  unfold Instant.addSecs
  constructor
  · intro h
    by_contra hover
    rw [dif_neg hover] at h
    exact absurd h (by simp)
  · intro hfits
    rw [dif_pos hfits, Option.map_some, Instant.toNanos, Instant.toNanos, Nat.add_mul,
      Nat.add_right_comm]

theorem pollTimeout_exact_iff (interval : Nat) :
    (Fits 31 (wrapI32 interval * 1000) ∧ pollTimeoutMs interval = interval * 1000) ↔
      interval * 1000 < 2 ^ 31 := by
  constructor
  · intro ⟨_, hexact⟩
    have hfits : Fits 31 (pollTimeoutMs interval) := fits_wrap 31 _
    have hupper := hfits.upper
    rw [hexact] at hupper
    omega
  · intro h
    have hcast : wrapI32 interval = interval := wrap_of_fits (w := 31)
      (fits_natCast_iff.mpr (by omega))
    have hfits : Fits 31 ((interval : Int) * 1000) := ⟨by omega, by omega⟩
    rw [pollTimeoutMs, hcast]
    exact ⟨hfits, wrap_of_fits hfits⟩

theorem cleanup_waits_iff (e : EngineConfig) :
    (∀ now last, cleanupDue e now last → (max e.deadCleanupInterval 1 : Nat) ≤ now - last) ↔
      e.deadCleanupInterval < 2 ^ 63 := by
  constructor
  · intro h
    have hdue : cleanupDue e (wrapI64 (max e.deadCleanupInterval 1 : Nat)) 0 := by
      rw [cleanupDue, Int.sub_zero]
    have hfits : Fits 63 (wrapI64 (max e.deadCleanupInterval 1 : Nat)) := fits_wrap 63 _
    have hupper := hfits.upper
    have hwait := h _ _ hdue
    omega
  · intro hlt now last hdue
    rwa [cleanupDue, wrapI64_of_lt (by omega)] at hdue

/-! ## Contract: timers -/

/-- What the timers of a configuration should be, for a daemon started with `-s scanInterval`. -/
structure TimersExact (e : EngineConfig) (scanInterval : Nat) (now : Instant) : Prop where
  relock : PicksClosest e.lockInterval
  deadline : (now.addSecs (pollInterval scanInterval e)).map Instant.toNanos =
    some (now.toNanos + pollInterval scanInterval e * nanosPerSec)
  timeout : Fits 31 (wrapI32 (pollInterval scanInterval e) * 1000) ∧
    pollTimeoutMs (pollInterval scanInterval e) = pollInterval scanInterval e * 1000
  cleanup : ∀ now last, cleanupDue e now last →
    (max e.deadCleanupInterval 1 : Nat) ≤ now - last

theorem castU64_lt (v : Int) : castU64 v < 2 ^ 64 := by
  rw [castU64]
  omega

theorem interval_lt_of_parseKdl {doc : List KdlNode} {c : ParsedConfig} (h : parseKdl doc = .ok c)
    (i : Interval) : i.stored c.engine.toEngineConfig < 2 ^ 64 := by
  rw [intervals_of_parseKdl h i]
  cases LastWrite.lastWrite (KdlNode.writtenInterval i) doc with
  | none => cases i <;> decide
  | some v => exact castU64_lt v

/-- The timers are exact just where every cast keeps its value: the lock and the cleanup interval
below 2^63 seconds, the timeout below 2^31 milliseconds, the deadline below 2^63 seconds. -/
theorem timers_exact_iff (e : EngineConfig) (scanInterval : Nat) (now : Instant)
    (hword : e.lockInterval < 2 ^ 64) :
    TimersExact e scanInterval now ↔
      e.lockInterval < 2 ^ 63 ∧ e.deadCleanupInterval < 2 ^ 63 ∧
        pollInterval scanInterval e * 1000 < 2 ^ 31 ∧
        now.secs + pollInterval scanInterval e < 2 ^ 63 := by
  constructor
  · intro h
    exact ⟨lt_of_picksClosest hword h.relock, (cleanup_waits_iff e).mp h.cleanup,
      (pollTimeout_exact_iff _).mp h.timeout, (addSecs_exact_iff now _).mp h.deadline⟩
  · intro ⟨hlock, hdead, htimeout, hdeadline⟩
    exact ⟨picksClosest_of_lt hlock, (addSecs_exact_iff now _).mpr hdeadline,
      (pollTimeout_exact_iff _).mpr htimeout, (cleanup_waits_iff e).mpr hdead⟩

/-- The longest intervals whose timers are exact. -/
def boundIntervals : EngineConfig :=
  { EngineConfig.default with
    scanInterval := 2147483
    lockInterval := 2 ^ 63 - 1
    deadCleanupInterval := 2 ^ 63 - 1 }

/-- The last moment at which a poll with these intervals still has a deadline. -/
def boundInstant : Instant := ⟨2 ^ 63 - 1 - 2147483, 0, by decide, by decide⟩

theorem timers_exact_at_bounds :
    TimersExact boundIntervals 2 boundInstant ∧
      ¬ TimersExact { boundIntervals with lockInterval := 2 ^ 63 } 2 boundInstant := by
  have hbounds := timers_exact_iff boundIntervals 2 boundInstant (by decide)
  have hbeyond := timers_exact_iff { boundIntervals with lockInterval := 2 ^ 63 } 2 boundInstant
    (by decide)
  exact ⟨hbounds.mpr (by decide), fun h => absurd (hbeyond.mp h).1 (by decide)⟩

/-- `engine { scan-interval 2147484; lock-interval 18446744073709551615;
dead-cleanup-interval 9223372036854775808 }` -/
def longIntervals : KdlNode :=
  ⟨"engine", [], some [⟨"scan-interval", [⟨none, .integer 2147484⟩], none⟩,
    ⟨"lock-interval", [⟨none, .integer 18446744073709551615⟩], none⟩,
    ⟨"dead-cleanup-interval", [⟨none, .integer 9223372036854775808⟩], none⟩]⟩

/-- The longest lock interval becomes the shortest relock interval, the watch waits for ever, and
the dead processes are removed at every turn of the loop. -/
theorem timers_wrong_at_longIntervals :
    ∃ c, parseKdl [longIntervals] = .ok c ∧
      (AdaptiveRelock.fromInitial c.engine.lockInterval).intervalSecs = 3 ∧
      pollTimeoutMs (pollInterval 2 c.engine.toEngineConfig) = -2147483296 ∧
      cleanupDue c.engine.toEngineConfig 1000 1000 ∧
      ∀ now, ¬ TimersExact c.engine.toEngineConfig 2 now := by
  have hparse : (parseKdl [longIntervals]).toOption.map
      (fun c => (c.engine.scanInterval, c.engine.lockInterval, c.engine.deadCleanupInterval)) =
        some (2147484, 18446744073709551615, 9223372036854775808) := by
    decide +kernel
  cases hc : parseKdl [longIntervals] with
  | error e =>
      rw [hc] at hparse
      exact absurd hparse (by simp [Except.toOption])
  | ok c =>
      rw [hc] at hparse
      obtain ⟨hscan, hlock, hdead⟩ :
          c.engine.scanInterval = 2147484 ∧ c.engine.lockInterval = 18446744073709551615 ∧
            c.engine.deadCleanupInterval = 9223372036854775808 := by
        simpa [Except.toOption] using hparse
      have htimeout : pollTimeoutMs (pollInterval 2 c.engine.toEngineConfig) = -2147483296 := by
        rw [pollInterval, hscan]
        decide +kernel
      have hpicked : (AdaptiveRelock.fromInitial c.engine.lockInterval).intervalSecs = 3 := by
        rw [hlock]
        decide +kernel
      have hdue : cleanupDue c.engine.toEngineConfig 1000 1000 := by
        rw [cleanupDue, hdead]
        decide +kernel
      refine ⟨c, rfl, hpicked, htimeout, hdue, ?_⟩
      intro now h
      have hexact := h.timeout.2
      rw [htimeout] at hexact
      omega

end Threadctl.Daemon

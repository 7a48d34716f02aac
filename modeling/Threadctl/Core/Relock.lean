import Mathlib.Data.List.FinRange
import Threadctl.Core.Tracker
import Threadctl.Support.Text

/-!
# Relock timing

How often the main loop applies all rules again: a guard that spaces the passes, a
sample of the processes that were moved out of our cpusets, and an interval that
follows those samples.
-/

namespace Threadctl.Core

open Threadctl.Support.Text

variable {κ : Type}

/-- The cpuset of a process, relative to the mount point. -/
def readCpusetOwner (env : Env κ) (pid : Int) : Run κ (Option String) := do
  let read ← ask (env.readCpuset pid)
  pure ((read.map trim).filter (!·.isEmpty))

/-- A directory below `base`, with or without the mount point in front. -/
def ownerIsOurs (owner base : String) : Bool :=
  let rel := trimStartMatches base "/dev/cpuset"
  startsWith owner (base ++ "/") || startsWith owner (rel ++ "/")

def isInOurCpuset (env : Env κ) (pid : Int) (base : String) : Run κ Bool := do
  let owner ← readCpusetOwner env pid
  pure (owner.any (ownerIsOurs · base))

/-- The share of the tracked processes that are elsewhere.  A quotient of two counts is
only compared with 0 and 1/2, where rounding to a `f64` changes nothing. -/
def sampleCoverage (env : Env κ) (base : String) : Run κ Rat := do
  let all ← pids env
  if all.isEmpty then pure 0
  else do
    let covered ← all.foldlM
      (fun (covered : Nat) pid => do
        let ours ← isInOurCpuset env pid base
        pure (if ours then covered else covered + 1)) 0
    pure (covered / all.length)

/-- Times are in nanoseconds; before the first pass the last one lies an hour back. -/
structure RelockGuard where
  lastAt : Int
  cooldownMs : Nat
  deriving DecidableEq

def RelockGuard.new (now : Nat) : RelockGuard := ⟨now - 3600 * 1000 * nanosPerMs, 0⟩

def RelockGuard.setCooldown (g : RelockGuard) (ms : Nat) : RelockGuard :=
  { g with cooldownMs := ms }

/-- `try_lock`: refused within the cooldown, else the time is noted. -/
def RelockGuard.tryLock (g : RelockGuard) (now : Nat) : Bool × RelockGuard :=
  if g.cooldownMs ≤ (now - g.lastAt).toNat / nanosPerMs then (true, { g with lastAt := now })
  else (false, g)

/-! ## The adaptive interval -/

def intervalsSecs : List Nat := [3, 10, 60, 300]

def sampleIntervalSecs : Nat := 2

def windowSamples : Nat := 15

def stableSecsExtend : Nat := 60

structure AdaptiveRelock where
  rank : Fin intervalsSecs.length
  samples : List Bool
  stableSecs : Nat
  deriving DecidableEq

/-- `as i64`, and the wrapping arithmetic of a release build. -/
def wrapI64 (n : Int) : Int := n.bmod (2 ^ 64)

/-- `(v as i64 - secs as i64).abs()`. -/
def intervalDistance (secs v : Nat) : Int :=
  let diff := wrapI64 (wrapI64 v - wrapI64 secs)
  if diff < 0 then wrapI64 (-diff) else diff

/-- `min_by_key`: the first of the intervals closest to the configured one. -/
def closestRank (secs : Nat) : Fin intervalsSecs.length :=
  (List.finRange intervalsSecs.length).foldl
    (fun best i =>
      if intervalDistance secs (intervalsSecs.get i) <
        intervalDistance secs (intervalsSecs.get best)
      then i else best)
    ⟨0, by decide⟩

def AdaptiveRelock.fromInitial (secs : Nat) : AdaptiveRelock where
  rank := closestRank secs
  samples := []
  stableSecs := 0

def AdaptiveRelock.intervalSecs (a : AdaptiveRelock) : Nat := intervalsSecs.get a.rank

def shortenRank (rank : Fin intervalsSecs.length) : Fin intervalsSecs.length :=
  ⟨rank - 1, Nat.lt_of_le_of_lt (Nat.sub_le _ _) rank.isLt⟩

/-- One step towards the longest interval. -/
def extendRank (rank : Fin intervalsSecs.length) : Fin intervalsSecs.length :=
  if h : rank + 1 < intervalsSecs.length then ⟨rank + 1, h⟩ else rank

/-- One sample that is covered or not; quiet is a window without a covered sample. -/
def AdaptiveRelock.observe (a : AdaptiveRelock) (covered : Bool) : AdaptiveRelock :=
  let samples := a.samples ++ [covered]
  let samples := if windowSamples < samples.length then samples.drop 1 else samples
  if samples.length < windowSamples then { a with samples := samples }
  else if (1 / 2 : Rat) ≤ samples.count true / samples.length then ⟨shortenRank a.rank, samples, 0⟩
  else if samples.count true = 0 then
    let stable := a.stableSecs + sampleIntervalSecs
    if stableSecsExtend ≤ stable then ⟨extendRank a.rank, samples, 0⟩
    else ⟨a.rank, samples, stable⟩
  else ⟨a.rank, samples, 0⟩

/-- One sample as a ratio; quiet is a ratio of 0. -/
def AdaptiveRelock.observeRatio (a : AdaptiveRelock) (ratio : Rat) : AdaptiveRelock :=
  let samples := a.samples ++ [decide (1 / 2 ≤ ratio)]
  let samples := if windowSamples < samples.length then samples.drop 1 else samples
  if samples.length < windowSamples then { a with samples := samples }
  else if (1 / 2 : Rat) ≤ samples.count true / samples.length then ⟨shortenRank a.rank, samples, 0⟩
  else if ratio = 0 then
    let stable := a.stableSecs + sampleIntervalSecs
    if stableSecsExtend ≤ stable then ⟨extendRank a.rank, samples, 0⟩
    else ⟨a.rank, samples, stable⟩
  else ⟨a.rank, samples, 0⟩

end Threadctl.Core

import Threadctl.Core.Tracker
import Threadctl.Support.Stats
import Mathlib.Data.Finset.Sort

/-!
# Observation

A sampler reads the tracked threads and makes snapshots of them; a window keeps, for each
thread, the last samples and statistics that are updated sample by sample.
-/

namespace Threadctl.Core

open Threadctl.Support

/-! ## Snapshots and statistics -/

structure ThreadSnapshot where
  tid : Int
  name : String
  affinity : String
  runningCpu : Option Nat
  loadPct : Nat
  cpuTicks : Nat
  deriving DecidableEq

structure ThreadStats where
  tid : Int
  name : String
  migrations : Nat
  affinityChanges : Nat
  cpuDistribution : HashMap Nat Nat
  samples : Nat
  avgLoadPct : Nat
  maxLoadPct : Nat
  primaryCpu : Option Nat

def ThreadStats.new (tid : Int) (name : String) : ThreadStats :=
  ⟨tid, name, 0, 0, ∅, 0, 0, 0, none⟩

/-- An order in which a map of counts is walked. -/
structure HashOrder where
  order : List (Nat × Nat) → List (Nat × Nat)
  perm : ∀ l, (order l).Perm l

/-- The CPU with the most samples; the order of the map decides between equals. -/
def ThreadStats.computePrimary (st : ThreadStats) (o : HashOrder) : ThreadStats :=
  let counts := st.cpuDistribution.entries.map fun e => (e.1, e.2)
  { st with primaryCpu := (Stats.maxByKey Prod.snd (o.order counts)).map Prod.fst }

/-- One sample of the queue. -/
structure WindowSample where
  seq : Nat
  runningCpu : Option Nat
  affinity : String
  deriving DecidableEq

structure SnapshotWindow where
  recent : HashMap Int (List WindowSample)
  stats : HashMap Int ThreadStats
  seq : Nat

def SnapshotWindow.windowSamples : Nat := 150

def SnapshotWindow.new : SnapshotWindow := ⟨∅, ∅, 0⟩

/-! ## The window -/

/-- The counters that do not look at the sample before. -/
def ThreadStats.record (st : ThreadStats) (snap : ThreadSnapshot) : ThreadStats :=
  let n := st.samples + 1
  { st with
    name := snap.name
    samples := n
    avgLoadPct := (st.avgLoadPct * (n - 1) + snap.loadPct) / n
    maxLoadPct := if st.maxLoadPct < snap.loadPct then snap.loadPct else st.maxLoadPct
    cpuDistribution := match snap.runningCpu with
      | some cpu => RefCount.retain st.cpuDistribution cpu
      | none => st.cpuDistribution }

/-- The counters of changes since the sample before, if there is one. -/
def ThreadStats.compare (st : ThreadStats) (prev : Option WindowSample) (snap : ThreadSnapshot) :
    ThreadStats :=
  match prev with
  | none => st
  | some prev =>
      { st with
        migrations := match snap.runningCpu, prev.runningCpu with
          | some cur, some before => if cur ≠ before then st.migrations + 1 else st.migrations
          | _, _ => st.migrations
        affinityChanges :=
          if prev.affinity ≠ snap.affinity then st.affinityChanges + 1 else st.affinityChanges }

/-- One snapshot of a batch, with the order in which its map of counts is walked. -/
def SnapshotWindow.pushSnapshot (seq : Nat) (w : SnapshotWindow) (s : HashOrder × ThreadSnapshot) :
    SnapshotWindow :=
  let snap := s.2
  let st := ((w.stats.lookup snap.tid).getD (.new snap.tid snap.name)).record snap
  let q := (w.recent.lookup snap.tid).getD []
  let st := st.compare q.getLast? snap
  let q := q ++ [⟨seq, snap.runningCpu, snap.affinity⟩]
  { w with
    recent := w.recent.insert snap.tid (q.drop (q.length - SnapshotWindow.windowSamples))
    stats := w.stats.insert snap.tid (st.computePrimary s.1) }

def SnapshotWindow.pushBatch (w : SnapshotWindow) (snapshots : List (HashOrder × ThreadSnapshot)) :
    SnapshotWindow :=
  let seq := w.seq + 1
  snapshots.foldl (SnapshotWindow.pushSnapshot seq) { w with seq := seq }

def retainTids {ν : Type} (aliveTids : Finset Int) (m : HashMap Int ν) : HashMap Int ν :=
  m.keys.foldl (fun m tid => if tid ∈ aliveTids then m else m.erase tid) m

def SnapshotWindow.retain (w : SnapshotWindow) (aliveTids : Finset Int) : SnapshotWindow :=
  { w with recent := retainTids aliveTids w.recent, stats := retainTids aliveTids w.stats }

/-! ## The sampler -/

variable {κ : Type}

/-- What the sampler reads besides the engine's calls. -/
structure ObserveEnv (κ : Type) extends Env κ where
  /-- `read_processor` of a thread. -/
  readProcessor : Int → StateM κ (Option Nat)
  /-- `read_thread_cpu_secs` of a thread.  The kernel counts nanoseconds in 64 bits, so a
  hundred times these ticks fits a word. -/
  readThreadCpuSecs : Int → StateM κ (Option Nat)

structure Sampler where
  lastCpu : HashMap Int Nat
  intervalSecs : Nat
  hz : Nat

def Sampler.new (intervalSecs : Nat) : Sampler := ⟨∅, max intervalSecs 1, 100⟩

/-- The load of a thread whose CPU time is `cpuTicks` now. -/
def Sampler.loadPct (s : Sampler) (tid : Int) (cpuTicks : Nat) : Nat :=
  match s.lastCpu.lookup tid with
  | some prev =>
      if prev ≤ cpuTicks then
        let used := cpuTicks - prev
        let most := s.intervalSecs * s.hz
        min (used * 100 / max most 1) 100
      else 0
  | none => 0

/-- One thread: its snapshot goes to the end of the buffer. -/
def Sampler.sampleTid (env : ObserveEnv κ) (affinity : String)
    (acc : Sampler × List ThreadSnapshot) (tid : Int) : Run κ (Sampler × List ThreadSnapshot) := do
  let name ← ask (env.readThreadName tid)
  let runningCpu ← ask (env.readProcessor tid)
  let ticks ← ask (env.readThreadCpuSecs tid)
  let cpuTicks := ticks.getD 0
  let load := acc.1.loadPct tid cpuTicks
  pure ({ acc.1 with lastCpu := acc.1.lastCpu.insert tid cpuTicks },
    acc.2 ++ [⟨tid, name.getD "", affinity, runningCpu, load, cpuTicks⟩])

/-- The threads of one tracked process. -/
def Sampler.samplePid (env : ObserveEnv κ) (acc : Sampler × List ThreadSnapshot) (pid : Int) :
    Run κ (Sampler × List ThreadSnapshot) := do
  let s ← get
  match s.tracker.procs.lookup pid with
  | none => pure acc
  | some st => do
      let allowed ← ask (env.readAllowedMask pid)
      let affinity := (allowed.map CpuSet.toRangeString).getD ""
      let tids ← walk env.toEnv (st.appliedTids.sort (· ≤ ·))
      tids.foldlM (Sampler.sampleTid env affinity) acc

def Sampler.sample (env : ObserveEnv κ) (s : Sampler) : Run κ (Sampler × List ThreadSnapshot) := do
  let pids ← pids env.toEnv
  pids.foldlM (Sampler.samplePid env) (s, [])

end Threadctl.Core

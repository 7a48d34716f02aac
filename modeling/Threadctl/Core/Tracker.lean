import Mathlib.Data.Finset.Basic
import Threadctl.Core.Environment
import Threadctl.Core.RuleSet
import Threadctl.Support.RefCount
import Threadctl.Support.StateRun

/-!
# The state tracker

The tracked processes and the cpuset reference counts.  The counts are an
instance of `Support.RefCount`: a process holds the directories in its
`appliedDirs`.  `System` is the state of a running engine, the tracker being one
part of it; `removeCalls` and `applyCalls` are records that no function reads.
-/

namespace Threadctl.Core

open Threadctl.Support

/-! ## Process states -/

def threadNameCacheTtlSecs : Int := 60

structure ThreadNameCache where
  names : HashMap Int String
  lastFullRefresh : Int

def ThreadNameCache.new (now : Int) : ThreadNameCache := ⟨∅, now⟩

/-- `names.retain(|tid, _| tids.contains(tid))`. -/
def ThreadNameCache.retain (c : ThreadNameCache) (tids : Finset Int) : ThreadNameCache :=
  { c with
    names := c.names.keys.foldl (fun m tid => if tid ∈ tids then m else m.erase tid) c.names }

/-- A hash set of directory names. -/
structure DirSet where
  names : List String
  nodup : names.Nodup

def DirSet.empty : DirSet := ⟨[], List.nodup_nil⟩

def DirSet.insert (s : DirSet) (d : String) : DirSet :=
  if h : d ∈ s.names then s else ⟨d :: s.names, List.nodup_cons.mpr ⟨h, s.nodup⟩⟩

structure ProcessState where
  pid : Int
  pkg : String
  startTime : Nat
  initialScanDone : Bool
  lastScanTime : Int
  appliedTids : Finset Int
  appliedDirs : DirSet
  tidNames : ThreadNameCache

def ProcessState.new (pid : Int) (startTime : Nat) (pkg : String) (now : Int) : ProcessState where
  pid := pid
  pkg := pkg
  startTime := startTime
  initialScanDone := false
  lastScanTime := 0
  appliedTids := ∅
  appliedDirs := .empty
  tidNames := .new now

/-- The cpuset directories a process holds a reference to. -/
abbrev ProcessState.dirs (p : ProcessState) : List String := p.appliedDirs.names

structure StateTracker where
  procs : HashMap Int ProcessState
  cpusetRefs : RefCount.Table String

def StateTracker.new : StateTracker := ⟨∅, ∅⟩

/-- How many tracked processes have `d` among their directories. -/
def StateTracker.holders (t : StateTracker) (d : String) : Nat :=
  RefCount.holders ProcessState.dirs t.procs d

/-! ## The running system -/

/-- A call of `apply_thread`, with the tracker at that moment. -/
structure ApplyCall where
  tid : Int
  pkg : String
  policy : Policy
  tracker : StateTracker

structure System (κ : Type) where
  kernel : κ
  tracker : StateTracker
  ensuredDirs : List String
  auditLog : List AuditEntry
  relockStats : RelockStats
  uclampSupport : Option Bool
  shortCircuitTotal : Nat
  /-- Every call of `remove_cpuset_dir`, with the tracker at that moment. -/
  removeCalls : List (String × StateTracker)
  applyCalls : List ApplyCall

def System.init {κ : Type} (kernel : κ) : System κ :=
  ⟨kernel, .new, [], [], ⟨0, 0, 0⟩, none, 0, [], []⟩

variable {κ : Type}

abbrev Run (κ : Type) := StateM (System κ)

def ask {α : Type} (x : StateM κ α) : Run κ α := do
  let s ← get
  let r := x.run s.kernel
  set { s with kernel := r.2 }
  pure r.1

def modifyTracker (f : StateTracker → StateTracker) : Run κ Unit :=
  modify fun s => { s with tracker := f s.tracker }

/-- Walk a hash collection: its elements in the order of the moment. -/
def walk {α : Type} (env : Env κ) (l : List α) : Run κ (List α) := do
  let s ← get
  pure (env.order s.kernel l)

/-! ## Operations without input -/

def StateTracker.contains (t : StateTracker) (pid : Int) : Bool := (t.procs.lookup pid).isSome

/-- `if let Some(s) = tracker.get_mut(pid) { .. }`. -/
def StateTracker.update (t : StateTracker) (pid : Int) (f : ProcessState → ProcessState) :
    StateTracker :=
  match t.procs.lookup pid with
  | some p => { t with procs := t.procs.insert pid (f p) }
  | none => t

def StateTracker.removeTid (t : StateTracker) (pid tid : Int) : StateTracker :=
  t.update pid fun p => { p with appliedTids := p.appliedTids.erase tid }

def StateTracker.recordAppliedTids (t : StateTracker) (pid : Int) (tids : Finset Int) :
    StateTracker :=
  t.update pid fun p => { p with appliedTids := p.appliedTids ∪ tids }

/-- One directory of `register_dirs`: counted only when it is new to the process. -/
def registerDir (acc : ProcessState × RefCount.Table String) (d : String) :
    ProcessState × RefCount.Table String :=
  if d.isEmpty then acc
  else if d ∈ acc.1.dirs then acc
  else ({ acc.1 with appliedDirs := acc.1.appliedDirs.insert d }, RefCount.retain acc.2 d)

def StateTracker.registerDirs (t : StateTracker) (pid : Int) (dirs : List String) :
    StateTracker :=
  match t.procs.lookup pid with
  | none => t
  | some state =>
      let acc := dirs.foldl registerDir (state, t.cpusetRefs)
      ⟨t.procs.insert pid acc.1, acc.2⟩

/-! ## Operations on the system -/

/-- `remove_cpuset_dir`, noted in `removeCalls`. -/
def removeCpusetDir (env : Env κ) (dir : String) : Run κ Bool := do
  modify fun s => { s with removeCalls := s.removeCalls ++ [(dir, s.tracker)] }
  ask (env.removeCpusetDir (baseCpuset ++ "/" ++ dir))

def forgetCpusetDir (dir : String) : Run κ Unit :=
  modify fun s => { s with ensuredDirs := s.ensuredDirs.filter (· ≠ dir) }

/-- Give back one reference; the last one takes the directory with it. -/
def releaseDir (env : Env κ) (dir : String) : Run κ Unit := do
  if dir.isEmpty then pure ()
  else do
    let s ← get
    let r := RefCount.release s.tracker.cpusetRefs dir
    modifyTracker fun t => { t with cpusetRefs := r.1 }
    if r.2 then do
      let reclaimed ← removeCpusetDir env dir
      if reclaimed then forgetCpusetDir dir else pure ()
    else pure ()

def releaseState (env : Env κ) (state : ProcessState) : Run κ Unit := do
  let dirs ← walk env state.dirs
  dirs.forM (releaseDir env)

def remove (env : Env κ) (pid : Int) : Run κ Bool := do
  let s ← get
  match s.tracker.procs.lookup pid with
  | none => pure false
  | some state => do
      modifyTracker fun t => { t with procs := t.procs.erase pid }
      releaseState env state
      pure true

/-- `ProcessState::new` of a process that is not tracked, inserted. -/
def insertNew (env : Env κ) (pid : Int) (pkg : String) (now : Int) : Run κ ProcessState := do
  let st ← ask (env.readStartTime pid)
  let state := ProcessState.new pid (st.getD 0) pkg now
  modifyTracker fun t => { t with procs := t.procs.insert pid state }
  pure state

/-- Enter or update a process: unchanged package, renamed by exec, pid reused, new. -/
def enter (env : Env κ) (pid : Int) (pkg : String) (now : Int) : Run κ ProcessState := do
  let s ← get
  match s.tracker.procs.lookup pid with
  | none => insertNew env pid pkg now
  | some ex =>
      if ex.pkg = pkg ∨ ex.startTime = 0 then pure ex
      else do
        let read ← ask (env.readStartTime pid)
        let st := read.getD 0
        if st = 0 ∨ st = ex.startTime then do
          let ex := { ex with pkg := pkg }
          modifyTracker fun t => { t with procs := t.procs.insert pid ex }
          pure ex
        else do
          modifyTracker fun t => { t with procs := t.procs.erase pid }
          releaseState env ex
          insertNew env pid pkg now

def pids (env : Env κ) : Run κ (List Int) := do
  let s ← get
  walk env s.tracker.procs.keys

/-- The processes whose package is not in the set, removed one by one. -/
def retainInterested (env : Env κ) (pkgSet : List String) : Run κ Unit := do
  let s ← get
  let entries ← walk env s.tracker.procs.entries
  let stale := (entries.filter fun e => e.2.pkg ∉ pkgSet).map (·.1)
  stale.forM fun pid => do
    let _ ← remove env pid
    pure ()

end Threadctl.Core

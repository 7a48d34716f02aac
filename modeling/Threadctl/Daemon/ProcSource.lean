import Threadctl.Core.Engine

/-!
# The `/proc` event source

Polls `/proc`: a full scan after a configuration change or a jump in the number of
processes, else only the tracked processes.  Processes whose command line is still
empty wait in a queue.
-/

namespace Threadctl.Daemon

open Threadctl.Core Threadctl.Support.Text

variable {κ : Type}

/-! ## The state -/

def pendingBackoffMs : List Nat := [100, 300, 1000]

def pendingMaxRetries : Nat := 3

/-- The wait before retry `n`, in nanoseconds. -/
def backoff (n : Nat) : Nat := pendingBackoffMs.getD n 0 * nanosPerMs

/-- A process found while its command line was still empty. -/
structure PendingProcess where
  pid : Int
  retryCount : Nat
  nextRetry : Nat
  deriving DecidableEq

def procPendingMax : Nat := 64

structure ProcSource where
  cfg : Option ConfigSnapshot
  lastProcTotal : Int
  scanAll : Bool
  pending : List PendingProcess

def ProcSource.new : ProcSource := ⟨none, -1, true, []⟩

/-- A source at work, with the events of the round so far. -/
structure Round (σ : Type) where
  src : σ
  events : List ProcessEvent

def Round.push {σ : Type} (r : Round σ) (ev : ProcessEvent) : Round σ :=
  { r with events := r.events ++ [ev] }

def ProcessEvent.threadClone (pid tid : Int) (pkg : String) : ProcessEvent :=
  ⟨pid, tid, .threadClone, none, some pkg⟩

def ProcessEvent.exec (pid : Int) : ProcessEvent := ⟨pid, pid, .exec, none, none⟩

def ProcessEvent.exit (pid tid : Int) : ProcessEvent := ⟨pid, tid, .exit, none, none⟩

/-! ## The source's functions -/

section Source

variable (fnmatch : String → String → Bool) (env : Env κ)

def keepProcess (r : Round ProcSource) (p : PendingProcess) : Round ProcSource :=
  { r with src := { r.src with pending := r.src.pending ++ [p] } }

/-- One entry of the pending queue: kept, dropped, or turned into a fork. -/
def flushProcess (rules : RuleSet) (now : Nat) (r : Round ProcSource) (p : PendingProcess) :
    Run κ (Round ProcSource) := do
  if now < p.nextRetry then pure (keepProcess r p)
  else do
    let alive ← ask (env.isAlive p.pid)
    if !alive then pure r
    else do
      let read ← ask (env.readCmdline p.pid)
      match read.filter (!·.isEmpty) with
      | some pkg =>
          if rules.isInterested fnmatch pkg then
            pure (r.push ((ProcessEvent.fork p.pid p.pid).withPkg pkg))
          else pure r
      | none =>
          if p.retryCount < pendingMaxRetries then
            pure (keepProcess r ⟨p.pid, p.retryCount + 1, now + backoff p.retryCount⟩)
          else pure r

def ProcSource.flushPending (rules : RuleSet) (r : Round ProcSource) :
    Run κ (Round ProcSource) := do
  if r.src.pending.isEmpty then pure r
  else do
    let now ← ask env.instantNow
    r.src.pending.foldlM (flushProcess fnmatch env rules now)
      { r with src := { r.src with pending := [] } }

/-- Entries of `/proc` whose name is all digits, or -1. -/
def countProcesses : Run κ Int := do
  let dir ← ask env.readProcDir
  match dir with
  | some names => pure ((names.filter fun n => n.toList.all Char.isDigit).length : Nat)
  | none => pure (-1)

/-- The threads of a scanned process that the engine has not applied yet. -/
def newTidsFor (pid : Int) : Run κ (List Int) := do
  let s ← get
  match s.tracker.procs.lookup pid with
  | none => pure []
  | some state =>
      if state.appliedTids = ∅ ∨ state.initialScanDone = false then pure []
      else do
        let tids ← ask (env.listTids pid)
        walk env (tids.dedup.filter (· ∉ state.appliedTids))

/-- A process without a command line waits, unless it is tracked or waits already. -/
def enqueue (r : Round ProcSource) (pid : Int) : Run κ (Round ProcSource) := do
  let s ← get
  if r.src.pending.length < procPendingMax ∧ s.tracker.contains pid = false ∧
      r.src.pending.all (·.pid ≠ pid) then do
    let now ← ask env.instantNow
    pure (keepProcess r ⟨pid, 0, now⟩)
  else pure r

def pushClones (r : Round ProcSource) (pid : Int) (pkg : String) : Run κ (Round ProcSource) := do
  let tids ← newTidsFor env pid
  pure { r with events := r.events ++ tids.map fun tid => ProcessEvent.threadClone pid tid pkg }

def scanProcess (rules : RuleSet) (r : Round ProcSource) (pid : Int) :
    Run κ (Round ProcSource) := do
  let read ← ask (env.readCmdline pid)
  match read.filter (!·.isEmpty) with
  | none => enqueue env r pid
  | some pkg =>
      if !rules.isInterested fnmatch pkg then pure r
      else do
        let s ← get
        if s.tracker.contains pid then pushClones env r pid pkg
        else pure (r.push ((ProcessEvent.fork pid pid).withPkg pkg))

/-- One process of the incremental path; the flag says that it is alive. -/
def checkProcess (rules : RuleSet) (acc : Round ProcSource × List Int) (pid : Int) :
    Run κ (Round ProcSource × List Int) := do
  let alive ← ask (env.isAlive pid)
  if !alive then pure acc
  else do
    let current := acc.2 ++ [pid]
    let read ← ask (env.readCmdline pid)
    match read with
    | none => pure (acc.1, current)
    | some pkg =>
        if !rules.isInterested fnmatch pkg then pure (acc.1, current)
        else do
          let r ← pushClones env acc.1 pid pkg
          pure (r, current)

/-- Tracked processes that are no longer there. -/
def pushExits (r : Round ProcSource) (current : List Int) : Run κ (Round ProcSource) := do
  let tracked ← pids env
  let gone := tracked.filter (· ∉ current)
  pure { r with events := r.events ++ gone.map fun pid => ProcessEvent.exit pid pid }

def fullScanThreshold : Int := 5

def ProcSource.needFull (src : ProcSource) (procTotal : Int) : Bool :=
  src.scanAll ||
    (decide (src.lastProcTotal + fullScanThreshold < procTotal) &&
      decide (0 ≤ src.lastProcTotal)) ||
    decide (procTotal = -1)

def ProcSource.collect (src : ProcSource) : Run κ (Round ProcSource) := do
  match src.cfg with
  | none => pure ⟨src, []⟩
  | some cfg => do
      let r ← ProcSource.flushPending fnmatch env cfg.rules ⟨src, []⟩
      let procTotal ← countProcesses env
      let needFull := r.src.needFull procTotal
      let r := { r with src := { r.src with lastProcTotal := procTotal, scanAll := false } }
      if needFull then do
        let dir ← ask env.readProcDir
        match dir with
        | none => pure r
        | some names => do
            let entries := names.filterMap parseI32
            let r ← entries.foldlM (scanProcess fnmatch env cfg.rules) r
            pushExits env r entries
      else do
        let tracked ← pids env
        let acc ← tracked.foldlM (checkProcess fnmatch env cfg.rules) (r, [])
        pushExits env acc.1 acc.2

def ProcSource.poll (src : ProcSource) (deadline : Nat) : Run κ (Round ProcSource) := do
  let r ← src.collect fnmatch env
  if r.events.isEmpty then do
    let now ← ask env.instantNow
    if now < deadline then do
      ask (env.sleep (deadline - now))
      pure r
    else pure r
  else pure r

def ProcSource.onConfigChanged (src : ProcSource) (cfg : ConfigSnapshot) : ProcSource :=
  { src with cfg := some cfg, scanAll := true, lastProcTotal := -1 }

end Source

end Threadctl.Daemon

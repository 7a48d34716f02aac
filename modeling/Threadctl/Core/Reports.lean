import Threadctl.Core.ThreadDeath
import Threadctl.Support.Simulation

/-!
# The engine with a report of its deeds

The engine takes the application of a policy as a parameter here.  With `applyThread` it is
the engine itself.  With `reporting`, in an environment that is watched, it keeps a log of
what becomes of cpuset directories and of the outcome of every application.
-/

namespace Threadctl.Core

open Threadctl.Support.EventLog Threadctl.Support.Simulation

variable {κ : Type}

/-! ## The engine with another application -/

/-- How a policy is applied to a thread. -/
abbrev Applier (κ : Type) := Int → String → Policy → CpuTopology → Bool → Run κ ApplyOutcome

section Engine

variable (fnmatch : String → String → Bool) (env : Env κ) (apply : Applier κ)

def scanTidBy (args : EngineArgs) (pkg : String) (acc : ScanState) (tid : Int) :
    Run κ ScanState := do
  let hasThreadRules := args.cfg.rules.hasThreadRules fnmatch pkg
  let named ← threadNameFor env hasThreadRules acc.tidNames tid args.now
  let acc := { acc with tidNames := named.2 }
  match args.cfg.rules.resolve fnmatch pkg named.1 with
  | none => pure acc
  | some policy => do
      let outcome ← apply tid pkg policy args.topo args.rtAllowed
      pure (countOutcome acc policy outcome)

def refreshProcessRulesBy (args : EngineArgs) (pid : Int) (pkg : String) :
    Run κ (Nat × List String) := do
  let tids ← ask (env.listTids pid)
  let state ← enter env pid pkg args.now
  modifyTracker fun t => t.update pid fun p => { p with tidNames := .new args.now }
  let acc ← tids.foldlM (scanTidBy fnmatch env apply args pkg) ⟨state.tidNames, 0, []⟩
  let _ ← enter env pid pkg args.now
  modifyTracker fun t => t.update pid fun p =>
    { p with tidNames := acc.tidNames.retain tids.toFinset, appliedTids := tids.toFinset }
  pure (acc.applied, acc.dirs)

def applySingleTidBy (args : EngineArgs) (pid : Int) (pkg : String) (tid : Int) : Run κ Nat := do
  let state ← enter env pid pkg args.now
  if tid ∈ state.appliedTids then pure 0
  else do
    let hasThreadRules := args.cfg.rules.hasThreadRules fnmatch pkg
    let named ← threadNameFor env hasThreadRules state.tidNames tid args.now
    modifyTracker fun t => t.update pid fun p => { p with tidNames := named.2 }
    match args.cfg.rules.resolve fnmatch pkg named.1 with
    | none => do
        insertAppliedTid pid tid
        pure 0
    | some policy => do
        let outcome ← apply tid pkg policy args.topo args.rtAllowed
        settleTid pid tid policy outcome

def fullScanBy (args : EngineArgs) (pid : Int) (pkg : String) : Run κ Nat := do
  let scanned ← refreshProcessRulesBy fnmatch env apply args pid pkg
  modifyTracker fun t => t.registerDirs pid scanned.2
  markScanned pid args.now
  pure scanned.1

def handleWantedBy (args : EngineArgs) (ev : ProcessEvent) (pkg : String) : Run κ Nat := do
  match ev.kind with
  | .exec => do
      let _ ← remove env ev.pid
      fullScanBy fnmatch env apply args ev.pid pkg
  | .fork => fullScanBy fnmatch env apply args ev.pid pkg
  | _ => do
      let s ← get
      let needFull := match s.tracker.procs.lookup ev.pid with
        | some p => !p.initialScanDone || decide (threadScanTtlSecs ≤ args.now - p.lastScanTime)
        | none => true
      if needFull then fullScanBy fnmatch env apply args ev.pid pkg
      else applySingleTidBy fnmatch env apply args ev.pid pkg ev.tid

def handleSpawnBy (args : EngineArgs) (ev : ProcessEvent) : Run κ Nat := do
  let pkg ← eventPkg env ev
  if pkg.isEmpty then pure 0
  else if !args.cfg.rules.isInterested fnmatch pkg then do
    let s ← get
    if s.tracker.contains ev.pid then do
      let _ ← remove env ev.pid
      pure 0
    else pure 0
  else handleWantedBy fnmatch env apply args ev pkg

def handleEventBy (args : EngineArgs) (ev : ProcessEvent) : Run κ Nat := do
  match ev.kind with
  | .exit =>
      if ev.tid ≠ ev.pid then do
        modifyTracker fun t => t.removeTid ev.pid ev.tid
        pure 0
      else do
        let _ ← remove env ev.pid
        pure 0
  | .cpuMigrate => pure 0
  | _ => handleSpawnBy fnmatch env apply args ev

def handleEventsBy (events : List ProcessEvent) (cfg : ConfigSnapshot) (topo : CpuTopology)
    (now : Int) : Run κ Nat := do
  let rtAllowed ← ask env.canRtSched
  events.foldlM
    (fun applied ev => do
      let n ← handleEventBy fnmatch env apply ⟨cfg, topo, now, rtAllowed⟩ ev
      pure (applied + n)) 0

def relockPidBy (args : EngineArgs) (rctx : RelockContext) (decision : DecisionEngine)
    (applied : Nat) (pid : Int) : Run κ Nat := do
  let s ← get
  match s.tracker.procs.lookup pid with
  | none => pure applied
  | some state => do
      let alive ← ask (env.isAlive pid)
      if !alive then do
        let _ ← remove env pid
        pure applied
      else do
        let adj ← ask (env.readOomAdj pid)
        let intent := TaskIntent.fromOomAdj adj
        match decision.decideCtx ⟨rctx, intent, intent = .interactive⟩ with
        | .skip _ => do
            bumpRelock fun r => { r with skip := r.skip + 1 }
            pure applied
        | .degrade _ _ => do
            bumpRelock fun r => { r with degrade := r.degrade + 1 }
            pure applied
        | .allow _ => do
            bumpRelock fun r => { r with allow := r.allow + 1 }
            let scanned ← refreshProcessRulesBy fnmatch env apply args pid state.pkg
            modifyTracker fun t => t.registerDirs pid scanned.2
            pure (applied + scanned.1)

def relockAllBy (cfg : ConfigSnapshot) (topo : CpuTopology) (now : Int) (rctx : RelockContext)
    (decision : DecisionEngine) : Run κ Nat := do
  let rtAllowed ← ask env.canRtSched
  let all ← pids env
  all.foldlM (relockPidBy fnmatch env apply ⟨cfg, topo, now, rtAllowed⟩ rctx decision) 0

end Engine

section Same

variable (fnmatch : String → String → Bool) (env : Env κ)

theorem refreshProcessRulesBy_applyThread :
    refreshProcessRulesBy fnmatch env (applyThread env) = refreshProcessRules fnmatch env := rfl

theorem applySingleTidBy_applyThread :
    applySingleTidBy fnmatch env (applyThread env) = applySingleTid fnmatch env := rfl

theorem handleEventBy_applyThread :
    handleEventBy fnmatch env (applyThread env) = handleEvent fnmatch env := rfl

theorem handleEventsBy_applyThread :
    handleEventsBy fnmatch env (applyThread env) = handleEvents fnmatch env := rfl

theorem relockAllBy_applyThread :
    relockAllBy fnmatch env (applyThread env) = relockAll fnmatch env := rfl

end Same

/-- What the engine does to cpuset directories, and what becomes of an application to a
thread whose policy names a directory. -/
inductive Deed where
  | create (path : String) (created : Bool)
  | remove (path : String) (removed : Bool)
  | apply (dir : String) (outcome : ApplyOutcome)
  deriving DecidableEq

def Env.watched (env : Env κ) : Env (Traced κ Deed) where
  readProcDir := quietly env.readProcDir
  readStartTime pid := quietly (env.readStartTime pid)
  readCmdline pid := quietly (env.readCmdline pid)
  readThreadName tid := quietly (env.readThreadName tid)
  readTgid tid := quietly (env.readTgid tid)
  readOomAdj pid := quietly (env.readOomAdj pid)
  isAlive pid := quietly (env.isAlive pid)
  listTids pid := quietly (env.listTids pid)
  readCpuset pid := quietly (env.readCpuset pid)
  canRtSched := quietly env.canRtSched
  getAffinity tid := quietly (env.getAffinity tid)
  setAffinity tid cpus := quietly (env.setAffinity tid cpus)
  readAllowedMask tid := quietly (env.readAllowedMask tid)
  createCpusetDir path cpus mems := noting (.create path) (env.createCpusetDir path cpus mems)
  removeCpusetDir path := noting (.remove path) (env.removeCpusetDir path)
  appendTask file tid := quietly (env.appendTask file tid)
  schedSetscheduler tid policy prio := quietly (env.schedSetscheduler tid policy prio)
  setpriority tid nice := quietly (env.setpriority tid nice)
  schedSetattr tid flags lo hi := quietly (env.schedSetattr tid flags lo hi)
  readUtilClampMax := quietly env.readUtilClampMax
  nowSecs := quietly env.nowSecs
  instantNow := quietly env.instantNow
  sleep n := quietly (env.sleep n)
  order t l := env.order t.kernel l
  order_perm t l := env.order_perm t.kernel l

def System.noteDeed (s : System (Traced κ Deed)) (deed : Deed) : System (Traced κ Deed) :=
  { s with kernel := ⟨s.kernel.kernel, s.kernel.log ++ [deed]⟩ }

/-- `apply_thread` with a report of its outcome. -/
def reporting (env : Env κ) : Applier (Traced κ Deed) := fun tid pkg policy topo rtAllowed =>
  annotating (fun outcome s => s.noteDeed (.apply policy.cpusetDir outcome))
    (applyThread env.watched tid pkg policy topo rtAllowed)

end Threadctl.Core

import Threadctl.Core.Apply
import Threadctl.Core.Resolve

/-!
# The event engine

`handleEvents`, `relockAll` and `cleanupDead`: every way in which the daemon drives
the tracker, short of a reload.
-/

namespace Threadctl.Core

variable {κ : Type}

inductive EventKind where
  | fork
  | exec
  | threadClone
  | cpuMigrate
  | exit
  deriving DecidableEq

structure ProcessEvent where
  pid : Int
  tid : Int
  kind : EventKind
  cpu : Option Nat
  pkg : Option String
  deriving DecidableEq

def ProcessEvent.fork (pid tid : Int) : ProcessEvent := ⟨pid, tid, .fork, none, none⟩

def ProcessEvent.withPkg (ev : ProcessEvent) (pkg : String) : ProcessEvent :=
  { ev with pkg := some pkg }

inductive MigrateAction where
  | observe
  | suggest
  | force
  deriving DecidableEq

structure EngineConfig where
  scanInterval : Nat
  lockInterval : Nat
  deadCleanupInterval : Nat
  migrateAction : MigrateAction
  pressureSensitive : Bool
  deriving DecidableEq

def EngineConfig.default : EngineConfig where
  scanInterval := 2
  lockInterval := 60
  deadCleanupInterval := 15
  migrateAction := .observe
  pressureSensitive := true

/-- What the daemon reads of a loaded configuration. -/
structure ConfigSnapshot where
  version : Nat
  rules : RuleSet
  engine : EngineConfig := .default

/-! ## The decision gate -/

inductive PressureLevel where
  | normal
  | moderate
  | critical
  deriving DecidableEq

inductive TaskIntent where
  | interactive
  | backgroundLatencySensitive
  | background
  | frozen
  deriving DecidableEq

def TaskIntent.fromOomAdj (oomAdj : Int) : TaskIntent :=
  if oomAdj ≤ 200 then .interactive
  else if oomAdj ≤ 500 then .backgroundLatencySensitive
  else if oomAdj ≤ 900 then .background
  else .frozen

inductive Reason where
  | foregroundInteractive
  | latencySensitive
  | background
  | frozen
  | thermalPressure
  | memoryPressure
  | auditFailureRate
  | forceAffinity
  deriving DecidableEq

inductive DegradeLevel where
  | skipOnce
  | observe
  | relax
  deriving DecidableEq

inductive Decision where
  | allow (reason : Reason)
  | skip (reason : Reason)
  | degrade (level : DegradeLevel) (reason : Reason)
  deriving DecidableEq

structure RelockContext where
  pressure : PressureLevel
  thermalPressure : Float
  freqThrottle : Float
  auditFailureRate : Float

structure DecisionContext extends RelockContext where
  intent : TaskIntent
  foreground : Bool

structure DecisionEngine where
  forceAffinityEnabled : Bool
  pressureSensitive : Bool

/-- `f64::max`: a NaN gives way to the other argument. -/
def f64Max (a b : Float) : Float :=
  if a.isNaN then b else if b.isNaN then a else if a < b then b else a

def DecisionEngine.decidePressure (eng : DecisionEngine) (ctx : DecisionContext) : Decision :=
  let effectiveThermal := f64Max ctx.thermalPressure (1.0 - ctx.freqThrottle)
  if effectiveThermal > 0.8 then .degrade .relax .thermalPressure
  else if ctx.auditFailureRate > 0.5 then .degrade .observe .auditFailureRate
  else if eng.pressureSensitive ∧ ctx.pressure = .critical then .degrade .relax .memoryPressure
  else if ctx.intent = .backgroundLatencySensitive then .allow .latencySensitive
  else .allow .foregroundInteractive

def DecisionEngine.decideCtx (eng : DecisionEngine) (ctx : DecisionContext) : Decision :=
  if eng.forceAffinityEnabled then .allow .forceAffinity
  else match ctx.intent with
    | .frozen => .skip .frozen
    | .background => .skip .background
    | _ => eng.decidePressure ctx

def ThreadNameCache.expire (c : ThreadNameCache) (now : Int) : ThreadNameCache :=
  if threadNameCacheTtlSecs ≤ now - c.lastFullRefresh then .new now else c

def getOrRead (env : Env κ) (cache : ThreadNameCache) (tid now : Int) :
    Run κ (String × ThreadNameCache) := do
  let cache := cache.expire now
  match cache.names.lookup tid with
  | some name => pure (name, cache)
  | none => do
      let read ← ask (env.readThreadName tid)
      let name := read.getD ""
      pure (name, { cache with names := cache.names.insert tid name })

/-- The name rules are matched against; packages without thread rules need none. -/
def threadNameFor (env : Env κ) (hasThreadRules : Bool) (cache : ThreadNameCache)
    (tid now : Int) : Run κ (String × ThreadNameCache) :=
  if hasThreadRules then getOrRead env cache tid now else pure ("", cache)

/-! ## Scanning a process -/

def threadScanTtlSecs : Int := 2

/-- What one call of the engine works with. -/
structure EngineArgs where
  cfg : ConfigSnapshot
  topo : CpuTopology
  now : Int
  rtAllowed : Bool

/-- The locals of the scan over the threads of a process. -/
structure ScanState where
  tidNames : ThreadNameCache
  applied : Nat
  dirs : List String

/-- A thread reached counts, unless it is gone or only its scheduling was set. -/
def countOutcome (acc : ScanState) (policy : Policy) : ApplyOutcome → ScanState
  | .exited => acc
  | .skippedNoCpus => acc
  | _ => { acc with
      applied := acc.applied + 1
      dirs := if policy.cpusetDir ∈ acc.dirs then acc.dirs else acc.dirs ++ [policy.cpusetDir] }

section Engine

variable (fnmatch : String → String → Bool) (env : Env κ)

def scanTid (args : EngineArgs) (pkg : String) (acc : ScanState) (tid : Int) :
    Run κ ScanState := do
  let hasThreadRules := args.cfg.rules.hasThreadRules fnmatch pkg
  let named ← threadNameFor env hasThreadRules acc.tidNames tid args.now
  let acc := { acc with tidNames := named.2 }
  match args.cfg.rules.resolve fnmatch pkg named.1 with
  | none => pure acc
  | some policy => do
      let outcome ← applyThread env tid pkg policy args.topo args.rtAllowed
      pure (countOutcome acc policy outcome)

/-- All threads of a process: the number applied and the cpuset directories used.
The name cache is taken out of the tracker for the scan and put back after it. -/
def refreshProcessRules (args : EngineArgs) (pid : Int) (pkg : String) :
    Run κ (Nat × List String) := do
  let tids ← ask (env.listTids pid)
  let state ← enter env pid pkg args.now
  modifyTracker fun t => t.update pid fun p => { p with tidNames := .new args.now }
  let acc ← tids.foldlM (scanTid fnmatch env args pkg) ⟨state.tidNames, 0, []⟩
  let _ ← enter env pid pkg args.now
  modifyTracker fun t => t.update pid fun p =>
    { p with tidNames := acc.tidNames.retain tids.toFinset, appliedTids := tids.toFinset }
  pure (acc.applied, acc.dirs)

def markScanned (pid now : Int) : Run κ Unit :=
  modifyTracker fun t =>
    t.update pid fun p => { p with initialScanDone := true, lastScanTime := now }

def insertAppliedTid (pid tid : Int) : Run κ Unit :=
  modifyTracker fun t => t.update pid fun p => { p with appliedTids := insert tid p.appliedTids }

/-- One new thread of a process scanned lately. -/
def applySingleTid (args : EngineArgs) (pid : Int) (pkg : String) (tid : Int) : Run κ Nat := do
  let state ← enter env pid pkg args.now
  if tid ∈ state.appliedTids then pure 0
  else do
    let hasThreadRules := args.cfg.rules.hasThreadRules fnmatch pkg
    let named ← threadNameFor env hasThreadRules state.tidNames tid args.now
    modifyTracker fun t => t.update pid fun p => { p with tidNames := named.2 }
    match args.cfg.rules.resolve fnmatch pkg named.1 with
    | none => do
        insertAppliedTid pid tid
        pure 0
    | some policy => do
        let outcome ← applyThread env tid pkg policy args.topo args.rtAllowed
        match outcome with
        | .exited => pure 0
        | .skippedNoCpus => do
            insertAppliedTid pid tid
            pure 0
        | _ => do
            insertAppliedTid pid tid
            modifyTracker fun t => t.registerDirs pid [policy.cpusetDir]
            pure 1

def fullScan (args : EngineArgs) (pid : Int) (pkg : String) : Run κ Nat := do
  let scanned ← refreshProcessRules fnmatch env args pid pkg
  modifyTracker fun t => t.registerDirs pid scanned.2
  markScanned pid args.now
  pure scanned.1

/-! ## Events and relocks -/

/-- A fork, exec or clone whose package the rules want. -/
def handleWanted (args : EngineArgs) (ev : ProcessEvent) (pkg : String) : Run κ Nat := do
  match ev.kind with
  | .exec => do
      -- the image is replaced: the directories of the old one are given back
      let _ ← remove env ev.pid
      fullScan fnmatch env args ev.pid pkg
  | .fork => fullScan fnmatch env args ev.pid pkg
  | _ => do
      let s ← get
      let needFull := match s.tracker.procs.lookup ev.pid with
        | some p => !p.initialScanDone || decide (threadScanTtlSecs ≤ args.now - p.lastScanTime)
        | none => true
      if needFull then fullScan fnmatch env args ev.pid pkg
      else applySingleTid fnmatch env args ev.pid pkg ev.tid

/-- The package of an event: from the source that made it, or from `/proc`. -/
def eventPkg (ev : ProcessEvent) : Run κ String := do
  match ev.pkg with
  | some pkg => pure pkg
  | none => do
      let read ← ask (env.readCmdline ev.pid)
      pure (read.getD "")

def handleSpawn (args : EngineArgs) (ev : ProcessEvent) : Run κ Nat := do
  let pkg ← eventPkg env ev
  if pkg.isEmpty then pure 0
  else if !args.cfg.rules.isInterested fnmatch pkg then do
    let s ← get
    if s.tracker.contains ev.pid then do
      let _ ← remove env ev.pid
      pure 0
    else pure 0
  else handleWanted fnmatch env args ev pkg

def handleEvent (args : EngineArgs) (ev : ProcessEvent) : Run κ Nat := do
  match ev.kind with
  | .exit =>
      if ev.tid ≠ ev.pid then do
        modifyTracker fun t => t.removeTid ev.pid ev.tid
        pure 0
      else do
        let _ ← remove env ev.pid
        pure 0
  | .cpuMigrate => pure 0
  | _ => handleSpawn fnmatch env args ev

def handleEvents (events : List ProcessEvent) (cfg : ConfigSnapshot) (topo : CpuTopology)
    (now : Int) : Run κ Nat := do
  let rtAllowed ← ask env.canRtSched
  events.foldlM
    (fun applied ev => do
      let n ← handleEvent fnmatch env ⟨cfg, topo, now, rtAllowed⟩ ev
      pure (applied + n)) 0

def bumpRelock (f : RelockStats → RelockStats) : Run κ Unit :=
  modify fun s => { s with relockStats := f s.relockStats }

/-- One process of `relock_all`: removed when dead, else scanned if the gate allows. -/
def relockPid (args : EngineArgs) (rctx : RelockContext) (decision : DecisionEngine)
    (applied : Nat) (pid : Int) : Run κ Nat := do
  let s ← get
  match s.tracker.procs.lookup pid with
  | none => pure applied
  | some state => do
      let alive ← ask (env.isAlive pid)
      if !alive then do
        let _ ← remove env pid
        pure applied
      else do
        let adj ← ask (env.readOomAdj pid)
        let intent := TaskIntent.fromOomAdj adj
        match decision.decideCtx ⟨rctx, intent, intent = .interactive⟩ with
        | .skip _ => do
            bumpRelock fun r => { r with skip := r.skip + 1 }
            pure applied
        | .degrade _ _ => do
            bumpRelock fun r => { r with degrade := r.degrade + 1 }
            pure applied
        | .allow _ => do
            bumpRelock fun r => { r with allow := r.allow + 1 }
            let scanned ← refreshProcessRules fnmatch env args pid state.pkg
            modifyTracker fun t => t.registerDirs pid scanned.2
            pure (applied + scanned.1)

def relockAll (cfg : ConfigSnapshot) (topo : CpuTopology) (now : Int) (rctx : RelockContext)
    (decision : DecisionEngine) : Run κ Nat := do
  let rtAllowed ← ask env.canRtSched
  let all ← pids env
  all.foldlM (relockPid fnmatch env ⟨cfg, topo, now, rtAllowed⟩ rctx decision) 0

def cleanupDead : Run κ Nat := do
  let all ← pids env
  all.foldlM
    (fun removed pid => do
      let alive ← ask (env.isAlive pid)
      if alive then pure removed
      else do
        let hit ← remove env pid
        pure (if hit then removed + 1 else removed)) 0

end Engine

end Threadctl.Core

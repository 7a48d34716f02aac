import Threadctl.Core.Relock
import Threadctl.Core.Scene
import Threadctl.Core.Store
import Threadctl.Daemon.EbpfSource
import Threadctl.Daemon.Reload

/-!
# The main loop

The daemon is two threads over the store: the hot-reload thread and the main loop,
which also carries out the commands of the IPC thread.  The main loop is cut at every
access to what the threads share; between two accesses nothing another thread does
can be seen.
-/

namespace Threadctl.Daemon

open Threadctl.Core Threadctl.Support.StateRun

variable {κ : Type}

/-- `Box<dyn EventSource>`. -/
inductive Source where
  | proc (src : ProcSource)
  | ebpf (src : EbpfSource)

def Source.onConfigChanged (src : Source) (cfg : ConfigSnapshot) : Source :=
  match src with
  | .proc src => .proc (src.onConfigChanged cfg)
  | .ebpf src => .ebpf (src.onConfigChanged cfg)

def Source.poll (fnmatch : String → String → Bool) (env : Env κ) (src : Source) (deadline : Nat) :
    Run κ (Source × List ProcessEvent) := do
  match src with
  | .proc src => do
      let r ← src.poll fnmatch env deadline
      pure (.proc r.src, r.events)
  | .ebpf src => do
      let r ← src.poll fnmatch env deadline
      pure (.ebpf r.src, r.events)

def Source.receive (src : Source) (ev : EbpfProcEvent) : Source :=
  match src with
  | .proc src => .proc src
  | .ebpf src => .ebpf { src with eventRx := src.eventRx ++ [ev] }

/-! ## The state -/

inductive IpcRequest where
  | status
  | dump (pid : Int)
  | reload
  | apply (pid : Int)
  | snapshot (pid : Option Int)
  | applyScene (name : String)
  | tune (kind value : String)

/-- The stations of one iteration, in order. -/
inductive Station where
  | ipc
  | notices
  | coverage
  | periodic
  | cleanup
  | poll
  deriving DecidableEq

inductive Point where
  | top
  | station (stop : Station)
  /-- Inside `store.reload()` of a command. -/
  | reloading (point : ReloadPoint)
  /-- `do_reload` is called next. -/
  | doReload (next : Station)
  /-- `relock_all` is called next, with the snapshot of the iteration. -/
  | relock (now : Int) (next : Station)
  /-- `handle_events` is called next, with the snapshot of the iteration. -/
  | handle (events : List ProcessEvent)
  | stopped

inductive CallKind where
  | reload
  | relock
  | events
  deriving DecidableEq

/-- A call of `do_reload`, `relock_all` or `handle_events`, with the version it used. -/
structure EngineCall where
  kind : CallKind
  version : Nat
  deriving DecidableEq

/-- The two threads and what they share.  `calls` and `reloads` are records that no
function reads: all engine calls so far, and the versions `do_reload` ran with in this
iteration. -/
structure DaemonState (κ : Type) where
  shared : Shared
  hotReload : HotReload
  /-- The IPC thread waits for an answer before it takes the next command. -/
  request : Option IpcRequest
  point : Point
  cfg : ConfigSnapshot
  now : Int
  source : Source
  lastLock : Int
  lastCleanup : Int
  lastCoverageSample : Int
  adaptive : AdaptiveRelock
  relockGuard : RelockGuard
  sys : System κ
  calls : List EngineCall
  reloads : List Nat

/-- What is fixed before the loop starts. -/
structure Boot (κ : Type) where
  fnmatch : String → String → Bool
  env : Env κ
  topo : CpuTopology
  scanInterval : Nat
  /-- The configuration file as it was first loaded. -/
  initial : Compiled
  source : Source

/-- What the outside world answers during one step of the main loop. -/
structure Answers where
  shutdown : Bool := false
  rctx : RelockContext := ⟨.normal, 0.0, 1.0, 0.0⟩
  /-- The configuration file, loaded. -/
  loaded : Option Compiled := none
  /-- The text of the configuration file. -/
  content : Option String := none
  /-- Whether the configuration file could be written. -/
  written : Bool := true

def DaemonState.exec {α : Type} (d : DaemonState κ) (x : Run κ α) : α × DaemonState κ :=
  let r := x.run d.sys
  (r.1, { d with sys := r.2 })

/-! ## The stations -/

section Loop

variable (b : Boot κ)

/-- The decision engine of the whole run: that of the first configuration. -/
def Boot.decision : DecisionEngine where
  forceAffinityEnabled := b.initial.engine.migrateAction = .force
  pressureSensitive := b.initial.engine.pressureSensitive

def d3CooldownMs : Nat := 1000

/-- The daemon as it enters the loop. -/
def Boot.start (kernel : κ) : DaemonState κ :=
  let cfg := b.initial.snapshot 1
  let clock := (do
    let lastLock ← ask b.env.nowSecs
    let lastCleanup ← ask b.env.nowSecs
    let guardMade ← ask b.env.instantNow
    let lastCoverageSample ← ask b.env.nowSecs
    pure (lastLock, lastCleanup, guardMade, lastCoverageSample) : Run κ (Nat × Nat × Nat × Nat))
  let r := clock.run (System.init kernel)
  { shared := ⟨cfg, []⟩
    hotReload := .waiting
    request := none
    point := .top
    cfg := cfg
    now := r.1.1
    source := b.source.onConfigChanged cfg
    lastLock := r.1.1
    lastCleanup := r.1.2.1
    lastCoverageSample := r.1.2.2.2
    adaptive := .fromInitial (max cfg.engine.lockInterval 1)
    relockGuard := (RelockGuard.new r.1.2.2.1).setCooldown d3CooldownMs
    sys := r.2
    calls := []
    reloads := [] }

/-- The head of the loop: the time, and the snapshot of the iteration. -/
def Boot.beginIteration (d : DaemonState κ) : DaemonState κ :=
  let (now, d) := d.exec (ask b.env.nowSecs)
  { d with now := now, cfg := d.shared.store, reloads := [], point := .station .ipc }

/-- A scene is written into the file before `store.reload()`. -/
def sceneWritten (a : Answers) (name : String) : Bool :=
  match a.content with
  | none => false
  | some content =>
      match applySceneToConfig content name with
      | .error _ => false
      | .ok _ => a.written

/-- `handle_ipc` up to its first access to the store.  The commands that only report or
tune have no effect here. -/
def Boot.handleIpc (a : Answers) (d : DaemonState κ) : IpcRequest → DaemonState κ
  | .reload => { d with point := .reloading (beginReload d.shared.store) }
  | .apply _ =>
      let (now, d) := d.exec (ask b.env.nowSecs)
      { d with point := .relock now .ipc }
  | .applyScene name =>
      if sceneWritten a name then { d with point := .reloading (beginReload d.shared.store) }
      else { d with point := .station .ipc }
  | _ => { d with point := .station .ipc }

/-- `while let Ok(..) = ipc_rx.try_recv()`. -/
def Boot.ipcStation (a : Answers) (d : DaemonState κ) : DaemonState κ :=
  match d.request with
  | none => { d with point := .station .notices }
  | some request => b.handleIpc a { d with request := none } request

/-- `store.reload()` of a command goes on. -/
def DaemonState.reloadStep (a : Answers) (point : ReloadPoint) (d : DaemonState κ) :
    DaemonState κ :=
  let r := point.step a.loaded d.shared.store
  let d := { d with shared := { d.shared with store := r.1 } }
  match r.2 with
  | .running point => { d with point := .reloading point }
  | .ok => { d with point := .doReload .ipc }
  | .failed => { d with point := .station .ipc }

/-- `while let Ok(version) = reload_rx.try_recv()`. -/
def DaemonState.noticesStation (d : DaemonState κ) : DaemonState κ :=
  match d.shared.notices with
  | [] => { d with point := .station .coverage }
  | _ :: rest =>
      { d with shared := { d.shared with notices := rest }, point := .doReload .notices }

/-- The engine part of `do_reload`. -/
def Boot.reloadTracker (cfg : ConfigSnapshot) (rctx : RelockContext) : Run κ Nat := do
  retainConfigured b.env cfg
  let now ← ask b.env.nowSecs
  relockAll b.fnmatch b.env cfg b.topo now rctx b.decision

/-- `do_reload` asks the store itself. -/
def Boot.doReload (a : Answers) (next : Station) (d : DaemonState κ) : DaemonState κ :=
  let cfg := d.shared.store
  let d := { d with source := d.source.onConfigChanged cfg }
  let (_, d) := d.exec (b.reloadTracker cfg a.rctx)
  { d with
    calls := d.calls ++ [⟨.reload, cfg.version⟩]
    reloads := d.reloads ++ [cfg.version]
    point := .station next }

/-- `relock_all` with the snapshot of the iteration. -/
def Boot.relock (a : Answers) (now : Int) (next : Station) (d : DaemonState κ) : DaemonState κ :=
  let (_, d) := d.exec (relockAll b.fnmatch b.env d.cfg b.topo now a.rctx b.decision)
  { d with calls := d.calls ++ [⟨.relock, d.cfg.version⟩], point := .station next }

/-- Coverage is sampled every two seconds; processes found elsewhere are relocked at
once, unless the guard is cooling down. -/
def Boot.coverageStation (d : DaemonState κ) : DaemonState κ :=
  if 0 < d.cfg.engine.lockInterval ∧ sampleIntervalSecs ≤ d.now - d.lastCoverageSample then
    let (ratio, d) := d.exec (sampleCoverage b.env baseCpuset)
    let d := { d with lastCoverageSample := d.now, adaptive := d.adaptive.observeRatio ratio }
    if 0 < ratio then
      let (instant, d) := d.exec (ask b.env.instantNow)
      let locked := d.relockGuard.tryLock instant
      let d := { d with relockGuard := locked.2 }
      if locked.1 then { d with lastLock := d.now, point := .relock d.now .periodic }
      else { d with point := .station .periodic }
    else { d with point := .station .periodic }
  else { d with point := .station .periodic }

/-- The periodic relock shares the guard. -/
def Boot.periodicStation (d : DaemonState κ) : DaemonState κ :=
  if 0 < d.cfg.engine.lockInterval ∧ (d.adaptive.intervalSecs : Int) ≤ d.now - d.lastLock then
    let (instant, d) := d.exec (ask b.env.instantNow)
    let locked := d.relockGuard.tryLock instant
    let d := { d with relockGuard := locked.2 }
    if locked.1 then { d with lastLock := d.now, point := .relock d.now .cleanup }
    else { d with point := .station .cleanup }
  else { d with point := .station .cleanup }

def Boot.cleanupStation (d : DaemonState κ) : DaemonState κ :=
  if wrapI64 (max d.cfg.engine.deadCleanupInterval 1 : Nat) ≤ d.now - d.lastCleanup then
    let (_, d) := d.exec (cleanupDead b.env)
    { d with lastCleanup := d.now, point := .station .poll }
  else { d with point := .station .poll }

/-- The longest sleep after a poll, in nanoseconds. -/
def pollSleepMax : Nat := 100000000

/-- The poll and the sleep after it. -/
def Boot.pollSource (src : Source) (scanInterval : Nat) : Run κ (Source × List ProcessEvent) := do
  let started ← ask b.env.instantNow
  let deadline := started + scanInterval * nanosPerSec
  let polled ← src.poll b.fnmatch b.env deadline
  let now ← ask b.env.instantNow
  if now < deadline then do
    ask (b.env.sleep (min (deadline - now) pollSleepMax))
    pure polled
  else pure polled

/-- What the poll found is handled next. -/
def DaemonState.polled (r : (Source × List ProcessEvent) × DaemonState κ) : DaemonState κ :=
  { r.2 with
    source := r.1.1
    point := if r.1.2.isEmpty then .top else .handle r.1.2 }

def Boot.pollStation (d : DaemonState κ) : DaemonState κ :=
  .polled (d.exec (b.pollSource d.source (max b.scanInterval d.cfg.engine.scanInterval)))

def Boot.handle (events : List ProcessEvent) (d : DaemonState κ) : DaemonState κ :=
  let (_, d) := d.exec (handleEvents b.fnmatch b.env events d.cfg b.topo d.now)
  { d with calls := d.calls ++ [⟨.events, d.cfg.version⟩], point := .top }

def Boot.station (a : Answers) (d : DaemonState κ) : Station → DaemonState κ
  | .ipc => b.ipcStation a d
  | .notices => d.noticesStation
  | .coverage => b.coverageStation d
  | .periodic => b.periodicStation d
  | .cleanup => b.cleanupStation d
  | .poll => b.pollStation d

def Boot.mainStep (a : Answers) (d : DaemonState κ) : DaemonState κ :=
  match d.point with
  | .top => if a.shutdown then { d with point := .stopped } else b.beginIteration d
  | .station stop => b.station a d stop
  | .reloading point => d.reloadStep a point
  | .doReload next => b.doReload a next d
  | .relock now next => b.relock a now next d
  | .handle events => b.handle events d
  | .stopped => d

/-- Who moves next, and with what. -/
inductive Move (κ : Type) where
  | main (a : Answers)
  | hotReload (changed : Bool) (loaded : Option Compiled)
  | request (req : IpcRequest)
  | kernelEvent (ev : EbpfProcEvent)
  | kernel (k : κ)

def Boot.step (d : DaemonState κ) : Move κ → DaemonState κ
  | .main a => b.mainStep a d
  | .hotReload changed loaded =>
      let r := d.hotReload.step changed loaded d.shared
      { d with shared := r.1, hotReload := r.2 }
  | .request req => if d.request.isNone then { d with request := some req } else d
  | .kernelEvent ev => { d with source := d.source.receive ev }
  | .kernel k => { d with sys := { d.sys with kernel := k } }

/-- A request that comes in changes at most which one is pending. -/
theorem step_pending (d : DaemonState κ) (req : IpcRequest) :
    ∃ pending, (pending = some req ∨ pending = d.request) ∧
      b.step d (.request req) = { d with request := pending } := by
  unfold Boot.step
  dsimp only
  split
  · exact ⟨some req, Or.inl rfl, rfl⟩
  · exact ⟨d.request, Or.inr rfl, rfl⟩

end Loop

end Threadctl.Daemon

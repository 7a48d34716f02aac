import Threadctl.Core.Journal
import Threadctl.Daemon.MainLoop
import Threadctl.Daemon.SourceErasure
import Threadctl.Support.Runs

/-!
# The daemon over a journal

A daemon whose kernel keeps a journal beside its state goes through the states of the bare
daemon.  Nothing but the kernel itself may write to the journal.
-/

namespace Threadctl.Daemon

open Threadctl.Core Threadctl.Support.EventLog Threadctl.Support.Runs
open Threadctl.Support.Simulation

variable {κ κ' : Type}

/-! ## Daemons over other kernels -/

/-- The same daemon on another kernel. -/
def Boot.on (b : Boot κ) (env' : Env κ') : Boot κ' where
  fnmatch := b.fnmatch
  env := env'
  topo := b.topo
  scanInterval := b.scanInterval
  initial := b.initial
  source := b.source

def DaemonState.under (f : κ' → κ) (d : DaemonState κ') : DaemonState κ where
  shared := d.shared
  hotReload := d.hotReload
  request := d.request
  point := d.point
  cfg := d.cfg
  now := d.now
  source := d.source
  lastLock := d.lastLock
  lastCleanup := d.lastCleanup
  lastCoverageSample := d.lastCoverageSample
  adaptive := d.adaptive
  relockGuard := d.relockGuard
  sys := d.sys.under f
  calls := d.calls
  reloads := d.reloads

theorem exec_under {α : Type} {f : κ' → κ} {x : Run κ' α} {y : Run κ α}
    (h : Erases (System.under f) x y) (d : DaemonState κ') :
    (d.under f).exec y = ((d.exec x).1, (d.exec x).2.under f) := by
  unfold DaemonState.exec DaemonState.under
  dsimp only
  rw [h d.sys]

section Over

variable {b : Boot κ} {f : κ' → κ} {env' : Env κ'} (hover : env'.Over f b.env)

include hover

theorem erases_sourcePoll (src : Source) (deadline : Nat) :
    Erases (System.under f) (src.poll b.fnmatch env' deadline)
      (src.poll b.fnmatch b.env deadline) := by
  cases src with
  | proc src =>
      exact Erases.bind (erases_procPoll hover b.fnmatch src deadline) fun _ => Erases.pure
  | ebpf src =>
      exact Erases.bind (erases_ebpfPoll hover b.fnmatch src deadline) fun _ => Erases.pure

theorem erases_pollSource (src : Source) (scanInterval : Nat) :
    Erases (System.under f) ((b.on env').pollSource src scanInterval)
      (b.pollSource src scanInterval) := by
  refine Erases.bind (erases_ask hover.instantNow) fun started => ?_
  refine Erases.bind (erases_sourcePoll hover src _) fun polled => ?_
  refine Erases.bind (erases_ask hover.instantNow) fun now => Erases.ite ?_ Erases.pure
  exact Erases.bind (erases_ask (hover.sleep _)) fun _ => Erases.pure

theorem erases_sampleCoverage (base : String) :
    Erases (System.under f) (sampleCoverage env' base) (sampleCoverage b.env base) := by
  refine Erases.bind (erases_pids hover) fun all => Erases.ite Erases.pure ?_
  refine Erases.bind (Erases.foldlM all (fun covered pid => ?_) 0) fun _ => Erases.pure
  refine Erases.bind (Erases.bind ?_ fun _ => Erases.pure) fun _ => Erases.pure
  exact Erases.bind (erases_ask (hover.readCpuset pid)) fun _ => Erases.pure

theorem erases_relockAll (cfg : ConfigSnapshot) (now : Int) (rctx : RelockContext)
    (decision : DecisionEngine) :
    Erases (System.under f) (relockAll b.fnmatch env' cfg b.topo now rctx decision)
      (relockAll b.fnmatch b.env cfg b.topo now rctx decision) :=
  erases_relockAllBy hover (erases_applyThread hover) b.fnmatch cfg b.topo now rctx decision

theorem erases_reloadTracker (cfg : ConfigSnapshot) (rctx : RelockContext) :
    Erases (System.under f) ((b.on env').reloadTracker cfg rctx) (b.reloadTracker cfg rctx) := by
  refine Erases.bind (erases_retainInterested hover _) fun _ => ?_
  refine Erases.bind (erases_ask hover.nowSecs) fun now => ?_
  exact erases_relockAll hover cfg now rctx b.decision

theorem erases_handleEvents (events : List ProcessEvent) (cfg : ConfigSnapshot) (now : Int) :
    Erases (System.under f) (handleEvents b.fnmatch env' events cfg b.topo now)
      (handleEvents b.fnmatch b.env events cfg b.topo now) :=
  erases_handleEventsBy hover (erases_applyThread hover) b.fnmatch events cfg b.topo now

/-! ## Steps -/

variable (a : Answers) (d : DaemonState κ')

theorem beginIteration_under :
    ((b.on env').beginIteration d).under f = b.beginIteration (d.under f) := by
  unfold Boot.beginIteration
  rw [exec_under (erases_ask hover.nowSecs)]
  rfl

theorem handleIpc_under (request : IpcRequest) :
    ((b.on env').handleIpc a d request).under f = b.handleIpc a (d.under f) request := by
  cases request with
  | apply pid =>
      unfold Boot.handleIpc
      dsimp only
      rw [exec_under (erases_ask hover.nowSecs)]
      rfl
  | applyScene name =>
      simp only [Boot.handleIpc]
      split
      · rfl
      · rfl
  | reload | status | dump | snapshot | tune => rfl

theorem ipcStation_under : ((b.on env').ipcStation a d).under f = b.ipcStation a (d.under f) := by
  have hsame : (d.under f).request = d.request := rfl
  unfold Boot.ipcStation
  rw [hsame]
  split
  · rename_i hnone
    rfl
  · rename_i request hrequest
    exact handleIpc_under hover a { d with request := none } request

def Boot.askGuard (b : Boot κ) (next : Station) (d : DaemonState κ) : DaemonState κ :=
  let (instant, d) := d.exec (ask b.env.instantNow)
  let locked := d.relockGuard.tryLock instant
  let d := { d with relockGuard := locked.2 }
  if locked.1 then { d with lastLock := d.now, point := .relock d.now next }
  else { d with point := .station next }

theorem askGuard_under (next : Station) :
    ((b.on env').askGuard next d).under f = b.askGuard next (d.under f) := by
  unfold Boot.askGuard
  rw [exec_under (erases_ask hover.instantNow)]
  by_cases hlock : (d.relockGuard.tryLock (d.exec (ask env'.instantNow)).1).1 = true
  · exact (congrArg (DaemonState.under f) (if_pos hlock)).trans (if_pos hlock).symm
  · exact (congrArg (DaemonState.under f) (if_neg hlock)).trans (if_neg hlock).symm

/-- A coverage sample that is due is taken, and the guard asked if it found any process
elsewhere. -/
def Boot.sampleDue (b : Boot κ) (d : DaemonState κ) : DaemonState κ :=
  let (ratio, d) := d.exec (sampleCoverage b.env baseCpuset)
  let d := { d with lastCoverageSample := d.now, adaptive := d.adaptive.observeRatio ratio }
  if 0 < ratio then b.askGuard .periodic d else { d with point := .station .periodic }

theorem sampleDue_under : ((b.on env').sampleDue d).under f = b.sampleDue (d.under f) := by
  let sampled := d.exec (sampleCoverage env' baseCpuset)
  unfold Boot.sampleDue
  rw [exec_under (erases_sampleCoverage hover baseCpuset)]
  by_cases hratio : 0 < sampled.1
  · calc _
      _ = ((b.on env').askGuard .periodic { sampled.2 with
            lastCoverageSample := sampled.2.now
            adaptive := sampled.2.adaptive.observeRatio sampled.1 }).under f :=
          congrArg (DaemonState.under f) (if_pos hratio)
      _ = _ := (askGuard_under hover _ .periodic).trans (if_pos hratio).symm
  · exact (congrArg (DaemonState.under f) (if_neg hratio)).trans (if_neg hratio).symm

theorem coverageStation_under :
    ((b.on env').coverageStation d).under f = b.coverageStation (d.under f) := by
  by_cases hdue : 0 < d.cfg.engine.lockInterval ∧ sampleIntervalSecs ≤ d.now - d.lastCoverageSample
  · calc ((b.on env').coverageStation d).under f
      _ = ((b.on env').sampleDue d).under f := congrArg (DaemonState.under f) (if_pos hdue)
      _ = b.sampleDue (d.under f) := sampleDue_under hover d
      _ = b.coverageStation (d.under f) := (if_pos hdue).symm
  · exact (congrArg (DaemonState.under f) (if_neg hdue)).trans (if_neg hdue).symm

theorem periodicStation_under :
    ((b.on env').periodicStation d).under f = b.periodicStation (d.under f) := by
  by_cases hdue : 0 < d.cfg.engine.lockInterval ∧
      (d.adaptive.intervalSecs : Int) ≤ d.now - d.lastLock
  · calc ((b.on env').periodicStation d).under f
      _ = ((b.on env').askGuard .cleanup d).under f :=
          congrArg (DaemonState.under f) (if_pos hdue)
      _ = b.askGuard .cleanup (d.under f) := askGuard_under hover d .cleanup
      _ = b.periodicStation (d.under f) := (if_pos hdue).symm
  · exact (congrArg (DaemonState.under f) (if_neg hdue)).trans (if_neg hdue).symm

theorem cleanupStation_under :
    ((b.on env').cleanupStation d).under f = b.cleanupStation (d.under f) := by
  unfold Boot.cleanupStation
  rw [exec_under (erases_cleanupDead hover)]
  by_cases hdue : wrapI64 (max d.cfg.engine.deadCleanupInterval 1 : Nat) ≤ d.now - d.lastCleanup
  · exact (congrArg (DaemonState.under f) (if_pos hdue)).trans (if_pos hdue).symm
  · exact (congrArg (DaemonState.under f) (if_neg hdue)).trans (if_neg hdue).symm

theorem pollStation_under : ((b.on env').pollStation d).under f = b.pollStation (d.under f) := by
  have hpolled : ∀ r : (Source × List ProcessEvent) × DaemonState κ',
      (DaemonState.polled r).under f = .polled (r.1, r.2.under f) := fun _ => rfl
  have hsource : (d.under f).source = d.source := rfl
  have hcfg : (d.under f).cfg = d.cfg := rfl
  have hexec := exec_under (erases_pollSource hover d.source
    (max b.scanInterval d.cfg.engine.scanInterval)) d
  unfold Boot.pollStation
  rw [hpolled, hsource, hcfg, hexec]
  rfl

omit hover in
theorem noticesStation_under : d.noticesStation.under f = (d.under f).noticesStation := by
  have hsame : (d.under f).shared = d.shared := rfl
  unfold DaemonState.noticesStation
  rw [hsame]
  split
  · rfl
  · rfl

theorem station_under (stop : Station) :
    ((b.on env').station a d stop).under f = b.station a (d.under f) stop := by
  cases stop with
  | ipc => exact ipcStation_under hover a d
  | notices => exact noticesStation_under d
  | coverage => exact coverageStation_under hover d
  | periodic => exact periodicStation_under hover d
  | cleanup => exact cleanupStation_under hover d
  | poll => exact pollStation_under hover d

omit hover in
theorem reloadStep_under (point : ReloadPoint) :
    (d.reloadStep a point).under f = (d.under f).reloadStep a point := by
  have hsame : (d.under f).shared = d.shared := rfl
  unfold DaemonState.reloadStep
  dsimp only
  rw [hsame]
  split
  · rfl
  · rfl
  · rfl

theorem doReload_under (next : Station) :
    ((b.on env').doReload a next d).under f = b.doReload a next (d.under f) := by
  let informed := { d with source := d.source.onConfigChanged d.shared.store }
  let finish : DaemonState κ → DaemonState κ := fun d' => { d' with
    calls := d'.calls ++ [⟨.reload, d.shared.store.version⟩]
    reloads := d'.reloads ++ [d.shared.store.version]
    point := .station next }
  have hexec := exec_under (erases_reloadTracker hover d.shared.store a.rctx) informed
  calc ((b.on env').doReload a next d).under f
    _ = finish ((informed.exec ((b.on env').reloadTracker d.shared.store a.rctx)).2.under f) := rfl
    _ = finish ((informed.under f).exec (b.reloadTracker d.shared.store a.rctx)).2 := by rw [hexec]
    _ = b.doReload a next (d.under f) := rfl

theorem relock_under (now : Int) (next : Station) :
    ((b.on env').relock a now next d).under f = b.relock a now next (d.under f) := by
  unfold Boot.relock
  rw [exec_under (erases_relockAll hover (d.under f).cfg now a.rctx b.decision)]
  rfl

theorem handle_under (events : List ProcessEvent) :
    ((b.on env').handle events d).under f = b.handle events (d.under f) := by
  unfold Boot.handle
  rw [exec_under (erases_handleEvents hover events (d.under f).cfg (d.under f).now)]
  rfl

/-- A step of the main loop over the other kernel is the step over the bare one. -/
theorem mainStep_under : ((b.on env').mainStep a d).under f = b.mainStep a (d.under f) := by
  have hsame : (d.under f).point = d.point := rfl
  unfold Boot.mainStep
  rw [hsame]
  cases hpoint : d.point with
  | top =>
      dsimp only
      split
      · rfl
      · exact beginIteration_under hover d
  | station stop => exact station_under hover a d stop
  | reloading point => exact reloadStep_under a d point
  | doReload next => exact doReload_under hover a d next
  | relock now next => exact relock_under hover a d now next
  | handle events => exact handle_under hover d events
  | stopped => rfl

end Over

/-! ## Runs over a journal -/

/-- A move as the journaled daemon makes it: the kernel's own moves leave the journal alone. -/
def Move.over (journal : List Entry) : Move κ → Move (Traced κ Entry)
  | .main a => .main a
  | .hotReload changed loaded => .hotReload changed loaded
  | .request req => .request req
  | .kernelEvent ev => .kernelEvent ev
  | .kernel k => .kernel ⟨k, journal⟩

def Boot.journaled (b : Boot κ) : Boot (Traced κ Entry) := b.on b.env.journaled

def Boot.journaledStep (b : Boot κ) (d : DaemonState (Traced κ Entry)) (m : Move κ) :
    DaemonState (Traced κ Entry) := b.journaled.step d (m.over d.sys.kernel.log)

def Boot.journaledRun (b : Boot κ) (kernel : κ) (moves : List (Move κ)) :
    DaemonState (Traced κ Entry) :=
  run b.journaledStep (b.journaled.start ⟨kernel, []⟩) moves

/-- What the kernel has answered and the calls that were made over a run, in order. -/
def Boot.journal (b : Boot κ) (kernel : κ) (moves : List (Move κ)) : List Entry :=
  (b.journaledRun kernel moves).sys.kernel.log

section Runs

variable (b : Boot κ)

theorem journaledRun_concat (kernel : κ) (moves : List (Move κ)) (m : Move κ) :
    b.journaledRun kernel (moves ++ [m]) = b.journaledStep (b.journaledRun kernel moves) m :=
  run_concat b.journaledStep _ moves m

theorem journaledStep_under (d : DaemonState (Traced κ Entry)) (m : Move κ) :
    (b.journaledStep d m).under Traced.kernel = b.step (d.under Traced.kernel) m := by
  have hrequest : (d.under Traced.kernel).request = d.request := rfl
  cases m with
  | main a => exact mainStep_under b.env.journaled_over a d
  | request req =>
      unfold Boot.journaledStep Boot.step Move.over
      dsimp only
      rw [hrequest]
      split
      · rfl
      · rfl
  | hotReload | kernelEvent | kernel => rfl

/-- The journal changes nothing: below it the daemon goes through the states of the bare one. -/
theorem journaledRun_under (kernel : κ) (moves : List (Move κ)) :
    (b.journaledRun kernel moves).under Traced.kernel = run b.step (b.start kernel) moves := by
  have hstart : (b.journaled.start ⟨kernel, []⟩).under Traced.kernel = b.start kernel := rfl
  rw [← hstart]
  exact (List.foldl_hom (DaemonState.under Traced.kernel)
    fun d m => (journaledStep_under b d m).symm).symm

end Runs

end Threadctl.Daemon

import Threadctl.Core.Reports

/-!
# Logs change nothing

A kernel may keep a log beside its state.  Every function of the engine does over such a
kernel what it does over the bare one.
-/

namespace Threadctl.Core

open Threadctl.Support.EventLog Threadctl.Support.Simulation

variable {κ κ' : Type}

/-! ## Environments with the same answers -/

def System.under (f : κ' → κ) (s : System κ') : System κ where
  kernel := f s.kernel
  tracker := s.tracker
  ensuredDirs := s.ensuredDirs
  auditLog := s.auditLog
  relockStats := s.relockStats
  uclampSupport := s.uclampSupport
  shortCircuitTotal := s.shortCircuitTotal
  removeCalls := s.removeCalls
  applyCalls := s.applyCalls

theorem System.under_tracker (f : κ' → κ) (s : System κ') : (s.under f).tracker = s.tracker := rfl

theorem System.under_uclampSupport (f : κ' → κ) (s : System κ') :
    (s.under f).uclampSupport = s.uclampSupport := rfl

/-- The kernel above answers as the one below. -/
structure Env.Over (f : κ' → κ) (env' : Env κ') (env : Env κ) : Prop where
  readProcDir : Erases f env'.readProcDir env.readProcDir
  readStartTime : ∀ pid, Erases f (env'.readStartTime pid) (env.readStartTime pid)
  readCmdline : ∀ pid, Erases f (env'.readCmdline pid) (env.readCmdline pid)
  readThreadName : ∀ tid, Erases f (env'.readThreadName tid) (env.readThreadName tid)
  readTgid : ∀ tid, Erases f (env'.readTgid tid) (env.readTgid tid)
  readOomAdj : ∀ pid, Erases f (env'.readOomAdj pid) (env.readOomAdj pid)
  isAlive : ∀ pid, Erases f (env'.isAlive pid) (env.isAlive pid)
  listTids : ∀ pid, Erases f (env'.listTids pid) (env.listTids pid)
  readCpuset : ∀ pid, Erases f (env'.readCpuset pid) (env.readCpuset pid)
  canRtSched : Erases f env'.canRtSched env.canRtSched
  getAffinity : ∀ tid, Erases f (env'.getAffinity tid) (env.getAffinity tid)
  setAffinity : ∀ tid cpus, Erases f (env'.setAffinity tid cpus) (env.setAffinity tid cpus)
  readAllowedMask : ∀ tid, Erases f (env'.readAllowedMask tid) (env.readAllowedMask tid)
  createCpusetDir : ∀ path cpus mems,
    Erases f (env'.createCpusetDir path cpus mems) (env.createCpusetDir path cpus mems)
  removeCpusetDir : ∀ path, Erases f (env'.removeCpusetDir path) (env.removeCpusetDir path)
  appendTask : ∀ file tid, Erases f (env'.appendTask file tid) (env.appendTask file tid)
  schedSetscheduler : ∀ tid policy prio,
    Erases f (env'.schedSetscheduler tid policy prio) (env.schedSetscheduler tid policy prio)
  setpriority : ∀ tid nice, Erases f (env'.setpriority tid nice) (env.setpriority tid nice)
  schedSetattr : ∀ tid flags lo hi,
    Erases f (env'.schedSetattr tid flags lo hi) (env.schedSetattr tid flags lo hi)
  readUtilClampMax : Erases f env'.readUtilClampMax env.readUtilClampMax
  nowSecs : Erases f env'.nowSecs env.nowSecs
  instantNow : Erases f env'.instantNow env.instantNow
  sleep : ∀ n, Erases f (env'.sleep n) (env.sleep n)
  order : ∀ {α : Type} (k : κ') (l : List α), env'.order k l = env.order (f k) l

theorem erases_quietly {ε α : Type} (x : StateM κ α) :
    Erases (Traced.kernel (ε := ε)) (quietly x) x := fun _ => rfl

theorem erases_noting {ε α : Type} (note : α → ε) (x : StateM κ α) :
    Erases Traced.kernel (noting note x) x := fun _ => rfl

theorem Env.traced_over (env : Env κ) : env.traced.Over Traced.kernel env where
  readProcDir := erases_quietly _
  readStartTime _ := erases_quietly _
  readCmdline _ := erases_quietly _
  readThreadName _ := erases_quietly _
  readTgid _ := erases_quietly _
  readOomAdj _ := erases_quietly _
  isAlive _ := erases_quietly _
  listTids _ := erases_quietly _
  readCpuset _ := erases_quietly _
  canRtSched := erases_quietly _
  getAffinity _ := erases_noting _ _
  setAffinity _ _ := erases_noting _ _
  readAllowedMask _ := erases_noting _ _
  createCpusetDir _ _ _ := erases_noting _ _
  removeCpusetDir _ := erases_noting _ _
  appendTask _ _ := erases_noting _ _
  schedSetscheduler _ _ _ := erases_noting _ _
  setpriority _ _ := erases_noting _ _
  schedSetattr _ _ _ _ := erases_noting _ _
  readUtilClampMax := erases_noting _ _
  nowSecs := erases_quietly _
  instantNow := erases_quietly _
  sleep _ := erases_quietly _
  order _ _ := rfl

theorem Env.watched_over (env : Env κ) : env.watched.Over Traced.kernel env where
  readProcDir := erases_quietly _
  readStartTime _ := erases_quietly _
  readCmdline _ := erases_quietly _
  readThreadName _ := erases_quietly _
  readTgid _ := erases_quietly _
  readOomAdj _ := erases_quietly _
  isAlive _ := erases_quietly _
  listTids _ := erases_quietly _
  readCpuset _ := erases_quietly _
  canRtSched := erases_quietly _
  getAffinity _ := erases_quietly _
  setAffinity _ _ := erases_quietly _
  readAllowedMask _ := erases_quietly _
  createCpusetDir _ _ _ := erases_noting _ _
  removeCpusetDir _ := erases_noting _ _
  appendTask _ _ := erases_quietly _
  schedSetscheduler _ _ _ := erases_quietly _
  setpriority _ _ := erases_quietly _
  schedSetattr _ _ _ _ := erases_quietly _
  readUtilClampMax := erases_quietly _
  nowSecs := erases_quietly _
  instantNow := erases_quietly _
  sleep _ := erases_quietly _
  order _ _ := rfl

section Over

variable {f : κ' → κ} {env' : Env κ'} {env : Env κ} (hover : env'.Over f env)

/-! ## The tracker -/

theorem erases_ask {α : Type} {x : StateM κ' α} {y : StateM κ α} (h : Erases f x y) :
    Erases (System.under f) (ask x) (ask y) := by
  intro s
  have hrun := h s.kernel
  have hask : (ask y).run (s.under f) =
      ((y.run (f s.kernel)).1, { s.under f with kernel := (y.run (f s.kernel)).2 }) := rfl
  rw [hask, hrun]
  rfl

theorem erases_modifyTracker (m : StateTracker → StateTracker) :
    Erases (System.under f) (modifyTracker m) (modifyTracker m) := Erases.modify fun _ => rfl

theorem erases_settleTid (pid tid : Int) (policy : Policy) (outcome : ApplyOutcome) :
    Erases (System.under f) (settleTid pid tid policy outcome)
      (settleTid pid tid policy outcome) := by
  have hinsert : Erases (System.under f) (insertAppliedTid pid tid) (insertAppliedTid pid tid) :=
    erases_modifyTracker _
  have hcounted : ∀ m, Erases (System.under f)
      (do insertAppliedTid pid tid; modifyTracker m; pure 1)
      (do insertAppliedTid pid tid; modifyTracker m; pure 1) := fun m =>
    Erases.bind hinsert fun _ => Erases.bind (erases_modifyTracker m) fun _ => Erases.pure
  cases outcome with
  | exited => exact Erases.pure
  | skippedNoCpus => exact Erases.bind hinsert fun _ => Erases.pure
  | applied | blockedByCgroup | downgraded | blockedByPerm | einval | failed => exact hcounted _

include hover

theorem erases_walk {α : Type} (l : List α) :
    Erases (System.under f) (walk env' l) (walk env l) := by
  refine Erases.get fun s => ?_
  rw [hover.order]
  exact Erases.pure

theorem erases_releaseDir (dir : String) :
    Erases (System.under f) (releaseDir env' dir) (releaseDir env dir) := by
  refine Erases.ite Erases.pure (Erases.get fun s => ?_)
  refine Erases.bind (erases_modifyTracker _) fun _ => Erases.ite ?_ Erases.pure
  have hremove : Erases (System.under f) (removeCpusetDir env' dir) (removeCpusetDir env dir) :=
    Erases.modify_bind (fun _ => rfl) (erases_ask (hover.removeCpusetDir _))
  exact Erases.bind hremove fun _ => Erases.ite (Erases.modify fun _ => rfl) Erases.pure

theorem erases_releaseState (state : ProcessState) :
    Erases (System.under f) (releaseState env' state) (releaseState env state) :=
  Erases.bind (erases_walk hover _) fun dirs => Erases.forM dirs (erases_releaseDir hover)

theorem erases_remove (pid : Int) : Erases (System.under f) (remove env' pid) (remove env pid) := by
  refine Erases.get fun s => ?_
  rw [System.under_tracker]
  cases s.tracker.procs.lookup pid with
  | none => exact Erases.pure
  | some state =>
      refine Erases.bind (erases_modifyTracker _) fun _ => ?_
      exact Erases.bind (erases_releaseState hover state) fun _ => Erases.pure

theorem erases_insertNew (pid : Int) (pkg : String) (now : Int) :
    Erases (System.under f) (insertNew env' pid pkg now) (insertNew env pid pkg now) := by
  refine Erases.bind (erases_ask (hover.readStartTime pid)) fun st => ?_
  exact Erases.bind (erases_modifyTracker _) fun _ => Erases.pure

theorem erases_enter (pid : Int) (pkg : String) (now : Int) :
    Erases (System.under f) (enter env' pid pkg now) (enter env pid pkg now) := by
  refine Erases.get fun s => ?_
  rw [System.under_tracker]
  cases s.tracker.procs.lookup pid with
  | none => exact erases_insertNew hover pid pkg now
  | some ex =>
      refine Erases.ite Erases.pure ?_
      refine Erases.bind (erases_ask (hover.readStartTime pid)) fun st => ?_
      refine Erases.ite (Erases.bind (erases_modifyTracker _) fun _ => Erases.pure) ?_
      refine Erases.bind (erases_modifyTracker _) fun _ => ?_
      exact Erases.bind (erases_releaseState hover ex) fun _ => erases_insertNew hover pid pkg now

theorem erases_pids : Erases (System.under f) (pids env') (pids env) :=
  Erases.get fun s => erases_walk hover s.tracker.procs.keys

/-! ## Applying a policy -/

theorem erases_record (entry : AuditEntry) :
    Erases (System.under f) (record env' entry) (record env entry) := by
  refine Erases.ite (Erases.bind (erases_ask hover.nowSecs) fun now => ?_) ?_
  · exact Erases.modify fun _ => rfl
  · exact Erases.modify fun _ => rfl

theorem erases_record_pure {α : Type} (entry : AuditEntry) (a : α) :
    Erases (System.under f) (do record env' entry; pure a) (do record env entry; pure a) :=
  Erases.bind (erases_record hover entry) fun _ => Erases.pure

theorem erases_ensureDir (name : String) :
    Erases (System.under f) (ensureDir env' name) (ensureDir env name) := by
  refine Erases.get fun s => ?_
  change Erases (System.under f) _ (if name ∈ s.ensuredDirs then _ else _)
  refine Erases.ite Erases.pure (Erases.modify_bind (fun _ => rfl) ?_)
  exact Erases.bind (erases_ask (hover.createCpusetDir _ _ _)) fun _ => Erases.pure

variable (tid : Int) (pkg : String)

theorem erases_joinCpuset (policy : Policy) (topo : CpuTopology) :
    Erases (System.under f) (joinCpuset env' tid pkg policy topo)
      (joinCpuset env tid pkg policy topo) := by
  refine Erases.ite ?_ Erases.pure
  refine Erases.bind (Erases.ite Erases.pure (erases_ensureDir hover _)) fun _ => ?_
  refine Erases.bind (erases_ask (hover.appendTask _ tid)) fun written => ?_
  exact Erases.ite Erases.pure (erases_record hover _)

theorem erases_setEffective (requested : String) (effective : CpuSet) :
    Erases (System.under f) (setEffective env' tid pkg requested effective)
      (setEffective env tid pkg requested effective) := by
  refine Erases.ite Erases.pure (Erases.bind (erases_ask (hover.setAffinity tid _)) fun r => ?_)
  cases r with
  | error errno =>
      refine Erases.ite (erases_record_pure hover _ _) ?_
      refine Erases.ite (erases_record_pure hover _ _) ?_
      exact Erases.ite (erases_record_pure hover _ _) (erases_record_pure hover _ _)
  | ok u => exact erases_record_pure hover _ _

theorem erases_setDowngraded (before : String) (effective : CpuSet) :
    Erases (System.under f) (setDowngraded env' tid pkg before effective)
      (setDowngraded env tid pkg before effective) := by
  refine Erases.bind (erases_ask (hover.setAffinity tid _)) fun r => ?_
  cases r with
  | error errno =>
      exact Erases.ite (erases_record_pure hover _ _) (erases_record_pure hover _ _)
  | ok u => exact erases_record_pure hover _ _

theorem erases_setAllowed (policy : Policy) (topo : CpuTopology) :
    Erases (System.under f) (setAllowed env' tid pkg policy topo)
      (setAllowed env tid pkg policy topo) := by
  refine Erases.bind (erases_ask (hover.readAllowedMask tid)) fun allowed => ?_
  cases allowed with
  | none => exact erases_setEffective hover tid pkg _ _
  | some allowed =>
      refine Erases.ite (erases_record_pure hover _ _) (Erases.ite ?_ ?_)
      · exact erases_setDowngraded hover tid pkg _ _
      · exact erases_setEffective hover tid pkg _ _

theorem erases_applyAffinity (policy : Policy) (topo : CpuTopology) :
    Erases (System.under f) (applyAffinity env' tid pkg policy topo)
      (applyAffinity env tid pkg policy topo) := by
  refine Erases.ite Erases.pure ?_
  refine Erases.bind (erases_joinCpuset hover tid pkg policy topo) fun _ => ?_
  refine Erases.bind (erases_ask (hover.getAffinity tid)) fun curr => ?_
  refine Erases.ite ?_ (erases_setAllowed hover tid pkg policy topo)
  exact Erases.modify_bind (fun _ => rfl) (erases_record_pure hover _ _)

theorem erases_applyNice (nice : Option Int) :
    Erases (System.under f) (applyNice env' tid pkg nice) (applyNice env tid pkg nice) := by
  cases nice with
  | none => exact Erases.pure
  | some n =>
      refine Erases.bind (erases_ask (hover.setpriority tid _)) fun r => ?_
      cases r with
      | error errno => exact erases_record hover _
      | ok u => exact Erases.pure

theorem erases_applySched (policy : SchedPolicy) (rtPrio nice : Option Int) :
    Erases (System.under f) (applySched env' tid pkg policy rtPrio nice)
      (applySched env tid pkg policy rtPrio nice) := by
  refine Erases.bind (erases_ask (hover.schedSetscheduler tid _ _)) fun ret => ?_
  refine Erases.bind (erases_applyNice hover tid pkg nice) fun _ => ?_
  cases ret with
  | error errno => exact Erases.ite Erases.pure (erases_record_pure hover _ _)
  | ok u => exact Erases.pure

theorem erases_uclampSupported :
    Erases (System.under f) (uclampSupported env') (uclampSupported env) := by
  refine Erases.get fun s => ?_
  rw [System.under_uclampSupport]
  cases s.uclampSupport with
  | some supported => exact Erases.pure
  | none =>
      refine Erases.bind (erases_ask hover.readUtilClampMax) fun limit => ?_
      exact Erases.modify_bind (fun _ => rfl) Erases.pure

theorem erases_applyUclamp (lo hi : Option Nat) (outcome : ApplyOutcome) :
    Erases (System.under f) (applyUclamp env' tid pkg lo hi outcome)
      (applyUclamp env tid pkg lo hi outcome) := by
  refine Erases.ite Erases.pure (Erases.bind (erases_uclampSupported hover) fun supported => ?_)
  have hset : Erases (System.under f) (setUclamp env' tid lo hi) (setUclamp env tid lo hi) :=
    Erases.ite Erases.pure (erases_ask (hover.schedSetattr tid _ _ _))
  refine Erases.ite (Erases.bind hset fun r => ?_) Erases.pure
  cases r with
  | ok u => exact Erases.pure
  | error errno => exact Erases.ite Erases.pure (erases_record_pure hover _ _)

/-- An application over a kernel with a log is the application over the bare kernel. -/
theorem erases_applyThread (policy : Policy) (topo : CpuTopology) (rtAllowed : Bool) :
    Erases (System.under f) (applyThread env' tid pkg policy topo rtAllowed)
      (applyThread env tid pkg policy topo rtAllowed) := by
  refine Erases.modify_bind (fun _ => rfl) ?_
  refine Erases.bind (erases_applyAffinity hover tid pkg policy topo) fun outcome => ?_
  refine Erases.ite Erases.pure ?_
  cases policy.sched with
  | none => exact erases_applyUclamp hover tid pkg _ _ _
  | some pol =>
      refine Erases.ite Erases.pure ?_
      refine Erases.bind (erases_applySched hover tid pkg _ _ _) fun failure => ?_
      exact erases_applyUclamp hover tid pkg _ _ _

/-! ## The engine -/

variable {apply' : Applier κ'} {apply : Applier κ}
  (happly : ∀ tid pkg policy topo rtAllowed, Erases (System.under f)
    (apply' tid pkg policy topo rtAllowed) (apply tid pkg policy topo rtAllowed))
  (fnmatch : String → String → Bool)

theorem erases_getOrRead (cache : ThreadNameCache) (tid now : Int) :
    Erases (System.under f) (getOrRead env' cache tid now) (getOrRead env cache tid now) := by
  unfold getOrRead
  dsimp only
  cases (cache.expire now).names.lookup tid with
  | some name => exact Erases.pure
  | none => exact Erases.bind (erases_ask (hover.readThreadName tid)) fun _ => Erases.pure

theorem erases_threadNameFor (hasThreadRules : Bool) (cache : ThreadNameCache) (tid now : Int) :
    Erases (System.under f) (threadNameFor env' hasThreadRules cache tid now)
      (threadNameFor env hasThreadRules cache tid now) :=
  Erases.ite (erases_getOrRead hover cache tid now) Erases.pure

theorem erases_eventPkg (ev : ProcessEvent) :
    Erases (System.under f) (eventPkg env' ev) (eventPkg env ev) := by
  unfold eventPkg
  cases ev.pkg with
  | some pkg => exact Erases.pure
  | none => exact Erases.bind (erases_ask (hover.readCmdline ev.pid)) fun _ => Erases.pure

theorem erases_retainInterested (pkgSet : List String) :
    Erases (System.under f) (retainInterested env' pkgSet) (retainInterested env pkgSet) := by
  refine Erases.get fun s => ?_
  refine Erases.bind (erases_walk hover s.tracker.procs.entries) fun entries => ?_
  exact Erases.forM _ fun pid => Erases.bind (erases_remove hover pid) fun _ => Erases.pure

theorem erases_cleanupDead : Erases (System.under f) (cleanupDead env') (cleanupDead env) := by
  refine Erases.bind (erases_pids hover) fun all => Erases.foldlM all (fun removed pid => ?_) _
  refine Erases.bind (erases_ask (hover.isAlive pid)) fun alive => Erases.ite Erases.pure ?_
  exact Erases.bind (erases_remove hover pid) fun _ => Erases.pure

include happly

theorem erases_scanTidBy (args : EngineArgs) (pkg : String) (acc : ScanState) (tid : Int) :
    Erases (System.under f) (scanTidBy fnmatch env' apply' args pkg acc tid)
      (scanTidBy fnmatch env apply args pkg acc tid) := by
  refine Erases.bind (erases_threadNameFor hover _ _ _ _) fun named => ?_
  dsimp only
  cases args.cfg.rules.resolve fnmatch pkg named.1 with
  | none => exact Erases.pure
  | some policy => exact Erases.bind (happly _ _ _ _ _) fun _ => Erases.pure

theorem erases_refreshProcessRulesBy (args : EngineArgs) (pid : Int) (pkg : String) :
    Erases (System.under f) (refreshProcessRulesBy fnmatch env' apply' args pid pkg)
      (refreshProcessRulesBy fnmatch env apply args pid pkg) := by
  refine Erases.bind (erases_ask (hover.listTids pid)) fun tids => ?_
  refine Erases.bind (erases_enter hover pid pkg args.now) fun state => ?_
  refine Erases.bind (erases_modifyTracker _) fun _ => ?_
  refine Erases.bind (Erases.foldlM tids (erases_scanTidBy hover happly fnmatch args pkg) _) ?_
  intro acc
  refine Erases.bind (erases_enter hover pid pkg args.now) fun _ => ?_
  exact Erases.bind (erases_modifyTracker _) fun _ => Erases.pure

theorem erases_fullScanBy (args : EngineArgs) (pid : Int) (pkg : String) :
    Erases (System.under f) (fullScanBy fnmatch env' apply' args pid pkg)
      (fullScanBy fnmatch env apply args pid pkg) := by
  refine Erases.bind (erases_refreshProcessRulesBy hover happly fnmatch args pid pkg) ?_
  intro scanned
  refine Erases.bind (erases_modifyTracker _) fun _ => ?_
  exact Erases.bind (erases_modifyTracker _) fun _ => Erases.pure

theorem erases_applySingleTidBy (args : EngineArgs) (pid : Int) (pkg : String) (tid : Int) :
    Erases (System.under f) (applySingleTidBy fnmatch env' apply' args pid pkg tid)
      (applySingleTidBy fnmatch env apply args pid pkg tid) := by
  refine Erases.bind (erases_enter hover pid pkg args.now) fun state => ?_
  refine Erases.ite Erases.pure (Erases.bind (erases_threadNameFor hover _ _ _ _) fun named => ?_)
  refine Erases.bind (erases_modifyTracker _) fun _ => ?_
  cases args.cfg.rules.resolve fnmatch pkg named.1 with
  | none => exact Erases.bind (erases_modifyTracker _) fun _ => Erases.pure
  | some policy =>
      refine Erases.bind (happly _ _ _ _ _) fun outcome => ?_
      exact erases_settleTid pid tid policy outcome

theorem erases_handleWantedBy (args : EngineArgs) (ev : ProcessEvent) (pkg : String) :
    Erases (System.under f) (handleWantedBy fnmatch env' apply' args ev pkg)
      (handleWantedBy fnmatch env apply args ev pkg) := by
  have hscan := erases_fullScanBy hover happly fnmatch args ev.pid pkg
  have hsingle := erases_applySingleTidBy hover happly fnmatch args ev.pid pkg ev.tid
  unfold handleWantedBy
  cases ev.kind with
  | exec => exact Erases.bind (erases_remove hover ev.pid) fun _ => hscan
  | fork => exact hscan
  | threadClone | cpuMigrate | exit =>
      refine Erases.get fun s => ?_
      exact Erases.ite hscan hsingle

theorem erases_handleSpawnBy (args : EngineArgs) (ev : ProcessEvent) :
    Erases (System.under f) (handleSpawnBy fnmatch env' apply' args ev)
      (handleSpawnBy fnmatch env apply args ev) := by
  refine Erases.bind (erases_eventPkg hover ev) fun pkg => Erases.ite Erases.pure ?_
  refine Erases.ite (Erases.get fun s => ?_)
    (erases_handleWantedBy hover happly fnmatch args ev pkg)
  exact Erases.ite (Erases.bind (erases_remove hover ev.pid) fun _ => Erases.pure) Erases.pure

theorem erases_handleEventBy (args : EngineArgs) (ev : ProcessEvent) :
    Erases (System.under f) (handleEventBy fnmatch env' apply' args ev)
      (handleEventBy fnmatch env apply args ev) := by
  have hspawn := erases_handleSpawnBy hover happly fnmatch args ev
  unfold handleEventBy
  cases ev.kind with
  | exit =>
      refine Erases.ite (Erases.bind (erases_modifyTracker _) fun _ => Erases.pure) ?_
      exact Erases.bind (erases_remove hover ev.pid) fun _ => Erases.pure
  | cpuMigrate => exact Erases.pure
  | fork | exec | threadClone => exact hspawn

theorem erases_handleEventsBy (events : List ProcessEvent) (cfg : ConfigSnapshot)
    (topo : CpuTopology) (now : Int) :
    Erases (System.under f) (handleEventsBy fnmatch env' apply' events cfg topo now)
      (handleEventsBy fnmatch env apply events cfg topo now) := by
  refine Erases.bind (erases_ask hover.canRtSched) fun rtAllowed => ?_
  refine Erases.foldlM events (fun applied ev => ?_) _
  exact Erases.bind (erases_handleEventBy hover happly fnmatch _ ev) fun _ => Erases.pure

theorem erases_relockPidBy (args : EngineArgs) (rctx : RelockContext) (decision : DecisionEngine)
    (applied : Nat) (pid : Int) :
    Erases (System.under f) (relockPidBy fnmatch env' apply' args rctx decision applied pid)
      (relockPidBy fnmatch env apply args rctx decision applied pid) := by
  refine Erases.get fun s => ?_
  rw [System.under_tracker]
  cases s.tracker.procs.lookup pid with
  | none => exact Erases.pure
  | some state =>
      refine Erases.bind (erases_ask (hover.isAlive pid)) fun alive => Erases.ite ?_ ?_
      · exact Erases.bind (erases_remove hover pid) fun _ => Erases.pure
      · refine Erases.bind (erases_ask (hover.readOomAdj pid)) fun adj => ?_
        dsimp only
        have hbump : ∀ g, Erases (System.under f) (bumpRelock g) (bumpRelock g) := fun g =>
          Erases.modify fun _ => rfl
        cases decision.decideCtx _ with
        | skip reason => exact Erases.bind (hbump _) fun _ => Erases.pure
        | degrade level reason => exact Erases.bind (hbump _) fun _ => Erases.pure
        | allow reason =>
            refine Erases.bind (hbump _) fun _ => ?_
            refine Erases.bind
              (erases_refreshProcessRulesBy hover happly fnmatch args pid state.pkg) ?_
            intro scanned
            exact Erases.bind (erases_modifyTracker _) fun _ => Erases.pure

theorem erases_relockAllBy (cfg : ConfigSnapshot) (topo : CpuTopology) (now : Int)
    (rctx : RelockContext) (decision : DecisionEngine) :
    Erases (System.under f) (relockAllBy fnmatch env' apply' cfg topo now rctx decision)
      (relockAllBy fnmatch env apply cfg topo now rctx decision) := by
  refine Erases.bind (erases_ask hover.canRtSched) fun rtAllowed => ?_
  refine Erases.bind (erases_pids hover) fun all => ?_
  exact Erases.foldlM all (erases_relockPidBy hover happly fnmatch _ rctx decision) _

end Over

theorem erases_reporting (env : Env κ) (tid : Int) (pkg : String) (policy : Policy)
    (topo : CpuTopology) (rtAllowed : Bool) :
    Erases (System.under Traced.kernel) (reporting env tid pkg policy topo rtAllowed)
      (applyThread env tid pkg policy topo rtAllowed) :=
  Erases.annotating (fun _ _ => rfl) (erases_applyThread env.watched_over tid pkg policy topo _)

/-- The engine that reports handles events as the engine does. -/
theorem handleEvents_reported (fnmatch : String → String → Bool) (env : Env κ)
    (events : List ProcessEvent) (cfg : ConfigSnapshot) (topo : CpuTopology) (now : Int) :
    Erases (System.under Traced.kernel)
      (handleEventsBy fnmatch env.watched (reporting env) events cfg topo now)
      (handleEvents fnmatch env events cfg topo now) :=
  erases_handleEventsBy env.watched_over (erases_reporting env) fnmatch events cfg topo now

theorem relockAll_reported (fnmatch : String → String → Bool) (env : Env κ) (cfg : ConfigSnapshot)
    (topo : CpuTopology) (now : Int) (rctx : RelockContext) (decision : DecisionEngine) :
    Erases (System.under Traced.kernel)
      (relockAllBy fnmatch env.watched (reporting env) cfg topo now rctx decision)
      (relockAll fnmatch env cfg topo now rctx decision) :=
  erases_relockAllBy env.watched_over (erases_reporting env) fnmatch cfg topo now rctx decision

theorem transcript_result (env : Env κ) (tid : Int) (pkg : String) (policy : Policy)
    (topo : CpuTopology) (rtAllowed : Bool) (s : System (Traced κ Call)) :
    (transcript (applyThread env.traced tid pkg policy topo rtAllowed) s).result =
      ((applyThread env tid pkg policy topo rtAllowed).run (s.under Traced.kernel)).1 :=
  (congrArg Prod.fst
    (erases_applyThread env.traced_over tid pkg policy topo rtAllowed s)).symm

end Threadctl.Core

import Threadctl.Core.Engine

/-!
# Runs of the engine

The reference counts stay exact over any sequence of engine calls and tracker
operations, whatever the kernel answers and in whatever order hash collections are
walked.
-/

namespace Threadctl.Core

open Threadctl.Support Threadctl.Support.StateRun

variable {κ : Type} (fnmatch : String → String → Bool) (env : Env κ)

/-! ## Scans -/

theorem frame_getOrRead {τ : Type} {f : System κ → τ} {env : Env κ} (hf : Overlooks env f)
    (cache : ThreadNameCache) (tid now : Int) : Frame f (getOrRead env cache tid now) := by
  unfold getOrRead
  dsimp only
  cases (cache.expire now).names.lookup tid with
  | some name => exact Frame.pure
  | none => exact Frame.bind (hf.calls (.readThreadName tid)) fun _ => Frame.pure

theorem frame_threadNameFor {τ : Type} {f : System κ → τ} {env : Env κ} (hf : Overlooks env f)
    (hasThreadRules : Bool) (cache : ThreadNameCache) (tid now : Int) :
    Frame f (threadNameFor env hasThreadRules cache tid now) :=
  Frame.ite (frame_getOrRead hf cache tid now) Frame.pure

theorem frame_scanTid (args : EngineArgs) (pkg : String) (acc : ScanState) (tid : Int) :
    Frame ledger (scanTid fnmatch env args pkg acc tid) := by
  have hname := frame_threadNameFor (overlooksAll_ledger env).toOverlooks
  refine Frame.bind (hname _ _ _ _) fun named => ?_
  dsimp only
  cases args.cfg.rules.resolve fnmatch pkg named.1 with
  | none => exact Frame.pure
  | some policy => exact Frame.bind (frame_applyThread env tid pkg _ _ _) fun _ => Frame.pure

/-- An invariant of what a scan does with the process `pid`.  The engine writes fields of a
process other than its directories. -/
structure ScanInvariant (env : Env κ) (pid : Int) (I : System κ → Prop) : Prop where
  frame : ∀ {α : Type} {x : Run κ α}, Frame ledger x → Keeps I x
  enter : ∀ pkg now, Keeps I (enter env pid pkg now)
  remove : Keeps I (remove env pid)
  update : ∀ f : ProcessState → ProcessState, (∀ p, (f p).dirs = p.dirs) →
    Keeps I (modifyTracker fun t => t.update pid f)
  registerDirs : ∀ dirs, Keeps I (modifyTracker fun t => t.registerDirs pid dirs)

theorem scanInvariant_sound (pid : Int) : ScanInvariant env pid Sound where
  frame := keeps_sound
  enter := enter_sound env pid
  remove := remove_sound env pid
  update := fun _ hf => keeps_modifyTracker fun _ ht => ht.update pid hf
  registerDirs := fun dirs => keeps_modifyTracker fun _ ht => ht.registerDirs pid dirs

section Invariant

variable {env} {pid : Int} {I : System κ → Prop} (hI : ScanInvariant env pid I)

include hI

theorem ScanInvariant.refreshProcessRules (args : EngineArgs) (pkg : String) :
    Keeps I (refreshProcessRules fnmatch env args pid pkg) := by
  refine Keeps.bind (hI.frame (frame_ask _)) fun tids => ?_
  refine Keeps.bind (hI.enter pkg args.now) fun state => ?_
  refine Keeps.bind (hI.update _ fun _ => rfl) fun _ => ?_
  refine Keeps.bind (Keeps.foldlM tids (fun acc tid => ?_) _) fun acc => ?_
  · exact hI.frame (frame_scanTid fnmatch env args pkg acc tid)
  · refine Keeps.bind (hI.enter pkg args.now) fun _ => ?_
    exact Keeps.bind (hI.update _ fun _ => rfl) fun _ => Keeps.pure

theorem ScanInvariant.fullScan (args : EngineArgs) (pkg : String) :
    Keeps I (fullScan fnmatch env args pid pkg) := by
  refine Keeps.bind (hI.refreshProcessRules fnmatch args pkg) fun scanned => ?_
  refine Keeps.bind (hI.registerDirs _) fun _ => ?_
  exact Keeps.bind (hI.update _ fun _ => rfl) fun _ => Keeps.pure

theorem ScanInvariant.applySingleTid (args : EngineArgs) (pkg : String) (tid : Int) :
    Keeps I (applySingleTid fnmatch env args pid pkg tid) := by
  refine Keeps.bind (hI.enter pkg args.now) fun state => Keeps.ite Keeps.pure ?_
  have hname := frame_threadNameFor (overlooksAll_ledger env).toOverlooks
  refine Keeps.bind (hI.frame (hname _ _ _ _)) fun named => ?_
  refine Keeps.bind (hI.update _ fun _ => rfl) fun _ => ?_
  have hinsert : Keeps I (insertAppliedTid pid tid) := hI.update _ fun _ => rfl
  cases args.cfg.rules.resolve fnmatch pkg named.1 with
  | none => exact Keeps.bind hinsert fun _ => Keeps.pure
  | some policy =>
      refine Keeps.bind (hI.frame (frame_applyThread env tid pkg _ _ _)) fun outcome => ?_
      have hcounted : Keeps I (do
          insertAppliedTid pid tid
          modifyTracker fun t => t.registerDirs pid [policy.cpusetDir]
          pure 1 : Run κ Nat) :=
        Keeps.bind hinsert fun _ => Keeps.bind (hI.registerDirs _) fun _ => Keeps.pure
      cases outcome with
      | exited => exact Keeps.pure
      | skippedNoCpus => exact Keeps.bind hinsert fun _ => Keeps.pure
      | applied | blockedByCgroup | downgraded | blockedByPerm | einval | failed =>
          exact hcounted

theorem ScanInvariant.handleWanted (args : EngineArgs) (ev : ProcessEvent) (hev : ev.pid = pid)
    (pkg : String) : Keeps I (handleWanted fnmatch env args ev pkg) := by
  subst hev
  have hscan := hI.fullScan fnmatch args pkg
  have hclone : Keeps I (Core.handleWanted fnmatch env args { ev with kind := .threadClone } pkg) :=
    Keeps.get fun s => Keeps.ite hscan (hI.applySingleTid fnmatch args pkg ev.tid)
  unfold Core.handleWanted at *
  cases ev.kind with
  | exec => exact Keeps.bind hI.remove fun _ => hscan
  | fork => exact hscan
  | threadClone | cpuMigrate | exit => exact hclone

end Invariant

/-! ## Events, relocks and cleanups -/

theorem remove_pure_sound {α : Type} (pid : Int) (a : α) :
    Keeps Sound (do let _ ← remove env pid; pure a) :=
  Keeps.bind (remove_sound env pid) fun _ => Keeps.pure

theorem frame_eventPkg (ev : ProcessEvent) : Frame ledger (eventPkg env ev) := by
  unfold eventPkg
  cases ev.pkg with
  | some pkg => exact Frame.pure
  | none => exact Frame.bind (frame_ask _) fun _ => Frame.pure

theorem handleSpawn_sound (args : EngineArgs) (ev : ProcessEvent) :
    Keeps Sound (handleSpawn fnmatch env args ev) := by
  refine Keeps.bind (keeps_sound (frame_eventPkg env ev)) fun pkg => ?_
  have hwanted := (scanInvariant_sound env ev.pid).handleWanted fnmatch args ev rfl pkg
  refine Keeps.ite Keeps.pure (Keeps.ite ?_ hwanted)
  exact Keeps.get fun s => Keeps.ite (remove_pure_sound env ev.pid 0) Keeps.pure

theorem handleEvent_sound (args : EngineArgs) (ev : ProcessEvent) :
    Keeps Sound (handleEvent fnmatch env args ev) := by
  have hspawn := handleSpawn_sound fnmatch env args ev
  unfold handleEvent
  cases ev.kind with
  | exit =>
      refine Keeps.ite (Keeps.bind ?_ fun _ => Keeps.pure) (remove_pure_sound env ev.pid 0)
      exact keeps_modifyTracker fun _ ht => ht.removeTid ev.pid ev.tid
  | cpuMigrate => exact Keeps.pure
  | fork | exec | threadClone => exact hspawn

theorem handleEvents_sound (events : List ProcessEvent) (cfg : ConfigSnapshot)
    (topo : CpuTopology) (now : Int) :
    Keeps Sound (handleEvents fnmatch env events cfg topo now) := by
  refine Keeps.bind (keeps_sound (frame_ask _)) fun rtAllowed => ?_
  refine Keeps.foldlM events (fun applied ev => ?_) _
  exact Keeps.bind (handleEvent_sound fnmatch env _ ev) fun _ => Keeps.pure

theorem frame_bumpRelock (f : RelockStats → RelockStats) :
    Frame (ledger (κ := κ)) (bumpRelock f) := fun _ => rfl

theorem relockPid_sound (args : EngineArgs) (rctx : RelockContext) (decision : DecisionEngine)
    (applied : Nat) (pid : Int) :
    Keeps Sound (relockPid fnmatch env args rctx decision applied pid) := by
  refine Keeps.get fun s => ?_
  cases s.tracker.procs.lookup pid with
  | none => exact Keeps.pure
  | some state =>
      refine Keeps.bind (keeps_sound (frame_ask _)) fun alive => ?_
      refine Keeps.ite (remove_pure_sound env pid applied) ?_
      refine Keeps.bind (keeps_sound (frame_ask _)) fun adj => ?_
      dsimp only
      have hbump : ∀ f, Keeps (Sound (κ := κ)) (bumpRelock f) := fun f =>
        keeps_sound (frame_bumpRelock f)
      cases decision.decideCtx _ with
      | skip reason => exact Keeps.bind (hbump _) fun _ => Keeps.pure
      | degrade level reason => exact Keeps.bind (hbump _) fun _ => Keeps.pure
      | allow reason =>
          refine Keeps.bind (hbump _) fun _ => ?_
          have hpid := scanInvariant_sound env pid
          refine Keeps.bind (hpid.refreshProcessRules fnmatch args _) fun scanned => ?_
          exact Keeps.bind (hpid.registerDirs _) fun _ => Keeps.pure

theorem frame_pids : Frame ledger (pids env) := Frame.get fun _ => frame_walk env _

theorem relockAll_sound (cfg : ConfigSnapshot) (topo : CpuTopology) (now : Int)
    (rctx : RelockContext) (decision : DecisionEngine) :
    Keeps Sound (relockAll fnmatch env cfg topo now rctx decision) := by
  refine Keeps.bind (keeps_sound (frame_ask _)) fun rtAllowed => ?_
  refine Keeps.bind (keeps_sound (frame_pids env)) fun all => ?_
  exact Keeps.foldlM all (fun _ _ => relockPid_sound fnmatch env _ rctx decision _ _) _

theorem cleanupDead_sound : Keeps Sound (cleanupDead env) := by
  refine Keeps.bind (keeps_sound (frame_pids env)) fun all => ?_
  refine Keeps.foldlM all (fun removed pid => ?_) _
  refine Keeps.bind (keeps_sound (frame_ask _)) fun alive => Keeps.ite Keeps.pure ?_
  exact Keeps.bind (remove_sound env pid) fun _ => Keeps.pure

/-! ## Runs -/

/-- What can happen to a tracker: a call of the engine, or any single operation an
engine call is made of.  With the single operations every moment inside an engine
call is the end of a run of its own. -/
inductive Action where
  | handleEvents (events : List ProcessEvent) (cfg : ConfigSnapshot) (topo : CpuTopology)
      (now : Int)
  | relockAll (cfg : ConfigSnapshot) (topo : CpuTopology) (now : Int) (rctx : RelockContext)
      (decision : DecisionEngine)
  | cleanupDead
  | enter (pid : Int) (pkg : String) (now : Int)
  | remove (pid : Int)
  | removeTid (pid tid : Int)
  | registerDirs (pid : Int) (dirs : List String)
  | recordAppliedTids (pid : Int) (tids : Finset Int)
  | retainInterested (pkgSet : List String)
  | setNames (pid : Int) (tidNames : ThreadNameCache)
  | setTids (pid : Int) (tids : Finset Int)
  | markScanned (pid now : Int)

def Action.run : Action → Run κ Unit
  | .handleEvents events cfg topo now => discard (Core.handleEvents fnmatch env events cfg topo now)
  | .relockAll cfg topo now rctx decision =>
      discard (Core.relockAll fnmatch env cfg topo now rctx decision)
  | .cleanupDead => discard (Core.cleanupDead env)
  | .enter pid pkg now => discard (Core.enter env pid pkg now)
  | .remove pid => discard (Core.remove env pid)
  | .removeTid pid tid => modifyTracker fun t => t.removeTid pid tid
  | .registerDirs pid dirs => modifyTracker fun t => t.registerDirs pid dirs
  | .recordAppliedTids pid tids => modifyTracker fun t => t.recordAppliedTids pid tids
  | .retainInterested pkgSet => Core.retainInterested env pkgSet
  | .setNames pid tidNames =>
      modifyTracker fun t => t.update pid fun p => { p with tidNames := tidNames }
  | .setTids pid tids => modifyTracker fun t => t.update pid fun p => { p with appliedTids := tids }
  | .markScanned pid now => Core.markScanned pid now

def after (actions : List Action) (kernel : κ) : System κ :=
  ((actions.forM (Action.run fnmatch env)).run (System.init kernel)).2

theorem Action.run_sound (action : Action) : Keeps Sound (action.run fnmatch env) := by
  have hdrop : ∀ {α : Type} {x : Run κ α}, Keeps Sound x → Keeps Sound (discard x) := fun hx =>
    Keeps.bind hx fun _ => Keeps.pure
  cases action with
  | handleEvents events cfg topo now =>
      exact hdrop (handleEvents_sound fnmatch env events cfg topo now)
  | relockAll cfg topo now rctx decision =>
      exact hdrop (relockAll_sound fnmatch env cfg topo now rctx decision)
  | cleanupDead => exact hdrop (cleanupDead_sound env)
  | enter pid pkg now => exact hdrop (enter_sound env pid pkg now)
  | remove pid => exact hdrop (remove_sound env pid)
  | removeTid pid tid => exact keeps_modifyTracker fun _ ht => ht.removeTid pid tid
  | registerDirs pid dirs => exact (scanInvariant_sound env pid).registerDirs dirs
  | recordAppliedTids pid tids =>
      exact keeps_modifyTracker fun _ ht => ht.recordAppliedTids pid tids
  | retainInterested pkgSet => exact retainInterested_sound env pkgSet
  | setNames pid tidNames => exact (scanInvariant_sound env pid).update _ fun _ => rfl
  | setTids pid tids => exact (scanInvariant_sound env pid).update _ fun _ => rfl
  | markScanned pid now => exact (scanInvariant_sound env pid).update _ fun _ => rfl

theorem after_sound (actions : List Action) (kernel : κ) :
    Sound (after fnmatch env actions kernel) :=
  Keeps.forM actions (Action.run_sound fnmatch env) (System.init kernel) (sound_init kernel)

/-- Whatever happened: the count of a directory is the number of tracked processes
that hold it, zero is no entry, and it was only ever removed while no process held it. -/
theorem cpuset_refs_exact (actions : List Action) (kernel : κ) (d : String) :
    let s := after fnmatch env actions kernel
    (s.tracker.cpusetRefs.lookup d).getD 0 = s.tracker.holders d ∧
      (s.tracker.cpusetRefs.lookup d = none ↔ s.tracker.holders d = 0) ∧
      ∀ t, (d, t) ∈ s.removeCalls → ∀ pid p, t.procs.lookup pid = some p → d ∉ p.dirs := by
  intro s
  obtain ⟨hbalanced, hunused⟩ : Sound s := after_sound fnmatch env actions kernel
  refine ⟨hbalanced.counts.getD d, ?_, ?_⟩
  · rw [hbalanced.counts d]
    by_cases h0 : s.tracker.holders d = 0
    · simp [h0]
    · simp [h0]
  · intro t ht pid p hp hd
    have hnone : t.holders d = 0 := hunused (d, t) ht
    have hpos : 0 < t.holders d := (RefCount.holders_pos_iff ProcessState.dirs).mpr ⟨pid, p, hp, hd⟩
    omega

end Threadctl.Core

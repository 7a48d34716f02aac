import Threadctl.Core.RefCounts

/-!
# Applying a policy to a thread

Affinity, scheduling policy and uclamp of one thread, and the audit record of each
attempt.  None of it touches the tracker.  What a view of the system can see of an
application is stated once, for every view that `Overlooks` the rest.
-/

namespace Threadctl.Core

open Threadctl.Support.StateRun

variable {κ : Type}

/-- `audit::record`: an entry without a time gets the current one. -/
def record (env : Env κ) (entry : AuditEntry) : Run κ Unit := do
  if entry.timestamp = 0 then do
    let now ← ask env.nowSecs
    modify fun s => { s with auditLog := pushAudit s.auditLog { entry with timestamp := now } }
  else modify fun s => { s with auditLog := pushAudit s.auditLog entry }

/-- The backend's `ensure_dir`: a directory known to exist is not created again. -/
def ensureDir (env : Env κ) (name : String) : Run κ Unit := do
  let s ← get
  if name ∈ s.ensuredDirs then pure ()
  else do
    modify fun s => { s with ensuredDirs := name :: s.ensuredDirs }
    let _ ← ask (env.createCpusetDir (baseCpuset ++ "/" ++ name) name "0")
    pure ()

def tasksFile (dir : String) : String :=
  if dir.isEmpty then baseCpuset ++ "/tasks" else baseCpuset ++ "/" ++ dir ++ "/tasks"

/-! ## Affinity -/

/-- Move the thread into its cpuset, if there is a cpuset to move to. -/
def joinCpuset (env : Env κ) (tid : Int) (pkg : String) (policy : Policy) (topo : CpuTopology) :
    Run κ Unit := do
  if topo.cpusetEnabled && topo.baseCpusetFd != -1 then do
    (if policy.cpusetDir.isEmpty then pure () else ensureDir env policy.cpusetDir)
    let written ← ask (env.appendTask (tasksFile policy.cpusetDir) tid)
    if written then pure ()
    else record env ⟨0, tid, pkg, policy.cpus.toRangeString, "", false, "cpuset_write_failed"⟩
  else pure ()

/-- The CPUs of `cpus` that are online; without online CPUs nothing is filtered. -/
def onlineFilter (topo : CpuTopology) (cpus : CpuSet) : CpuSet :=
  if 0 < topo.onlineCpus.count then
    (List.range cpuSetSize).foldl
      (fun e i => if e.isSet i && !topo.onlineCpus.isSet i then e.clear i else e) cpus
  else cpus

/-- The last step of `apply_affinity`. -/
def setEffective (env : Env κ) (tid : Int) (pkg requested : String) (effective : CpuSet) :
    Run κ ApplyOutcome := do
  if effective.count = 0 then pure .skippedNoCpus
  else do
    let r ← ask (env.setAffinity tid effective)
    let entry := AuditEntry.mk 0 tid pkg requested effective.toRangeString
    match r with
    | .error errno =>
        if errno = ESRCH then do
          record env (entry false "esrch")
          pure .exited
        else if errno = EINVAL then do
          record env (entry false "einval")
          pure .einval
        else if errno = EPERM then do
          record env (entry false "eperm")
          pure .blockedByPerm
        else do
          record env (entry false "other")
          pure .failed
    | .ok () => do
        record env (entry true "applied")
        pure .applied

/-- The allowed CPUs cut the target down; `before` is the target's text without them. -/
def setDowngraded (env : Env κ) (tid : Int) (pkg before : String) (effective : CpuSet) :
    Run κ ApplyOutcome := do
  let r ← ask (env.setAffinity tid effective)
  let entry := AuditEntry.mk 0 tid pkg before effective.toRangeString
  match r with
  | .error errno =>
      if errno = ESRCH then do
        record env (entry false "esrch")
        pure .exited
      else do
        record env (entry false "downgraded_failed")
        pure .failed
  | .ok () => do
      record env (entry true "downgraded")
      pure .downgraded

/-- Steps three to five: the online CPUs, the allowed CPUs, `setaffinity`. -/
def setAllowed (env : Env κ) (tid : Int) (pkg : String) (policy : Policy) (topo : CpuTopology) :
    Run κ ApplyOutcome := do
  let online := onlineFilter topo policy.cpus
  let allowed ← ask (env.readAllowedMask tid)
  match allowed with
  | none => setEffective env tid pkg policy.cpus.toRangeString online
  | some allowed =>
      let effective := online.and allowed
      if effective.count = 0 then do
        record env ⟨0, tid, pkg, online.toRangeString, "", false, "cgroup"⟩
        pure .blockedByCgroup
      else if online.toRangeString ≠ effective.toRangeString then
        setDowngraded env tid pkg online.toRangeString effective
      else setEffective env tid pkg policy.cpus.toRangeString effective

def applyAffinity (env : Env κ) (tid : Int) (pkg : String) (policy : Policy)
    (topo : CpuTopology) : Run κ ApplyOutcome := do
  if policy.cpus.count = 0 then pure .skippedNoCpus
  else do
    joinCpuset env tid pkg policy topo
    let curr ← ask (env.getAffinity tid)
    if curr = some policy.cpus then do
      let requested := policy.cpus.toRangeString
      modify fun s => { s with shortCircuitTotal := s.shortCircuitTotal + 1 }
      record env ⟨0, tid, pkg, requested, requested, true, "already"⟩
      pure .applied
    else setAllowed env tid pkg policy topo

/-! ## Scheduling policy and uclamp -/

def clamp (lo hi x : Int) : Int := max lo (min hi x)

/-- The backend's `set_scheduler`: only the real-time policies have a priority. -/
def setScheduler (env : Env κ) (tid : Int) (policy : SchedPolicy) (prio : Option Int) :
    Run κ SysResult :=
  ask (env.schedSetscheduler tid policy (if policy.isRt then clamp 1 99 (prio.getD 1) else 0))

/-- The nice value inside `apply_sched`; a failure is only recorded. -/
def applyNice (env : Env κ) (tid : Int) (pkg : String) (nice : Option Int) : Run κ Unit := do
  match nice with
  | some n => do
      let r ← ask (env.setpriority tid (clamp (-20) 19 n))
      match r with
      | .error _ => record env ⟨0, tid, pkg, "", "", false, "nice_failed"⟩
      | .ok () => pure ()
  | none => pure ()

def applySched (env : Env κ) (tid : Int) (pkg : String) (policy : SchedPolicy)
    (rtPrio nice : Option Int) : Run κ (Option ApplyOutcome) := do
  let ret ← setScheduler env tid policy rtPrio
  applyNice env tid pkg nice
  match ret with
  | .error errno =>
      if errno = ESRCH then pure (some .exited)
      else do
        record env ⟨0, tid, pkg, "", "", false, "sched_failed"⟩
        pure (some .blockedByPerm)
  | .ok () => pure none

/-- Whether the kernel has uclamp, asked once. -/
def uclampSupported (env : Env κ) : Run κ Bool := do
  let s ← get
  match s.uclampSupport with
  | some supported => pure supported
  | none => do
      let limit ← ask env.readUtilClampMax
      let supported := limit.any (0 < ·)
      modify fun s => { s with uclampSupport := some supported }
      pure supported

/-- The backend's `set_uclamp`: a flag and a value for each side that is given. -/
def setUclamp (env : Env κ) (tid : Int) (lo hi : Option Nat) : Run κ SysResult := do
  if lo.isNone ∧ hi.isNone then pure (.ok ())
  else
    ask (env.schedSetattr tid ((if lo.isSome then 0x20 else 0) + if hi.isSome then 0x40 else 0)
      (min (lo.getD 0) 1024) (min (hi.getD 1024) 1024))

/-- Uclamp changes the outcome only when the thread is gone. -/
def applyUclamp (env : Env κ) (tid : Int) (pkg : String) (lo hi : Option Nat)
    (outcome : ApplyOutcome) : Run κ ApplyOutcome := do
  if lo.isNone ∧ hi.isNone then pure outcome
  else do
    let supported ← uclampSupported env
    if supported then do
      let r ← setUclamp env tid lo hi
      match r with
      | .ok () => pure outcome
      | .error errno =>
          if errno = ESRCH then pure .exited
          else do
            record env ⟨0, tid, pkg, "", "", false, "uclamp_failed"⟩
            pure outcome
    else pure outcome

/-- A call of `apply_thread`, noted in `applyCalls`. -/
def System.noteApply (s : System κ) (tid : Int) (pkg : String) (policy : Policy) : System κ :=
  { s with applyCalls := s.applyCalls ++ [⟨tid, pkg, policy, s.tracker⟩] }

def applyThread (env : Env κ) (tid : Int) (pkg : String) (policy : Policy) (topo : CpuTopology)
    (rtAllowed : Bool) : Run κ ApplyOutcome := do
  modify fun s => s.noteApply tid pkg policy
  let outcome ← applyAffinity env tid pkg policy topo
  if outcome = .exited then pure outcome
  else match policy.sched with
    | none => applyUclamp env tid pkg policy.uclampMin policy.uclampMax outcome
    | some pol =>
        if pol.isRt && !rtAllowed then pure outcome
        else do
          let failure ← applySched env tid pkg pol policy.schedPrio policy.nice
          applyUclamp env tid pkg policy.uclampMin policy.uclampMax (failure.getD outcome)

/-! ## What a view sees -/

/-- A view that sees neither the notes taken while a policy is applied nor the kernel
calls, except the move into a cpuset. -/
structure Overlooks {τ : Type} (env : Env κ) (f : System κ → τ) : Prop where
  auditLog : ∀ s log, f { s with auditLog := log } = f s
  ensuredDirs : ∀ s dirs, f { s with ensuredDirs := dirs } = f s
  uclampSupport : ∀ s support, f { s with uclampSupport := support } = f s
  shortCircuitTotal : ∀ s n, f { s with shortCircuitTotal := n } = f s
  calls : ∀ {α : Type} {x : StateM κ α}, env.ScanCall x → Frame f (ask x)

section Frames

variable {τ : Type} {f : System κ → τ} {env : Env κ} (hf : Overlooks env f)
variable (tid : Int) (pkg : String)

include hf

theorem frame_record (entry : AuditEntry) : Frame f (record env entry) :=
  Frame.ite (Frame.bind (hf.calls .nowSecs) fun _ => Frame.modify fun s => hf.auditLog s _)
    (Frame.modify fun s => hf.auditLog s _)

theorem frame_record_pure {α : Type} (entry : AuditEntry) (a : α) :
    Frame f (do record env entry; pure a) :=
  Frame.bind (frame_record hf entry) fun _ => Frame.pure

theorem frame_ensureDir (name : String) : Frame f (ensureDir env name) := by
  refine Frame.get fun s => Frame.ite Frame.pure ?_
  refine Frame.bind (Frame.modify fun s => hf.ensuredDirs s _) fun _ => ?_
  exact Frame.bind (hf.calls (.createCpusetDir ..)) fun _ => Frame.pure

theorem frame_setEffective (requested : String) (effective : CpuSet) :
    Frame f (setEffective env tid pkg requested effective) := by
  refine Frame.ite Frame.pure (Frame.bind (hf.calls (.setAffinity ..)) fun r => ?_)
  cases r with
  | error errno =>
      refine Frame.ite (frame_record_pure hf _ _) (Frame.ite (frame_record_pure hf _ _) ?_)
      exact Frame.ite (frame_record_pure hf _ _) (frame_record_pure hf _ _)
  | ok u => exact frame_record_pure hf _ _

theorem frame_setDowngraded (before : String) (effective : CpuSet) :
    Frame f (setDowngraded env tid pkg before effective) := by
  refine Frame.bind (hf.calls (.setAffinity ..)) fun r => ?_
  cases r with
  | error errno => exact Frame.ite (frame_record_pure hf _ _) (frame_record_pure hf _ _)
  | ok u => exact frame_record_pure hf _ _

theorem frame_setAllowed (policy : Policy) (topo : CpuTopology) :
    Frame f (setAllowed env tid pkg policy topo) := by
  refine Frame.bind (hf.calls (.readAllowedMask tid)) fun allowed => ?_
  cases allowed with
  | none => exact frame_setEffective hf tid pkg _ _
  | some allowed =>
      refine Frame.ite (frame_record_pure hf _ _) (Frame.ite ?_ ?_)
      · exact frame_setDowngraded hf tid pkg _ _
      · exact frame_setEffective hf tid pkg _ _

theorem frame_afterJoin (policy : Policy) (topo : CpuTopology) :
    Frame f (do
      let curr ← ask (env.getAffinity tid)
      if curr = some policy.cpus then do
        let requested := policy.cpus.toRangeString
        modify fun s => { s with shortCircuitTotal := s.shortCircuitTotal + 1 }
        record env ⟨0, tid, pkg, requested, requested, true, "already"⟩
        pure ApplyOutcome.applied
      else setAllowed env tid pkg policy topo) := by
  refine Frame.bind (hf.calls (.getAffinity tid)) fun curr => ?_
  refine Frame.ite ?_ (frame_setAllowed hf tid pkg policy topo)
  exact Frame.bind (Frame.modify fun s => hf.shortCircuitTotal s _) fun _ =>
    frame_record_pure hf _ _

theorem frame_applyNice (nice : Option Int) : Frame f (applyNice env tid pkg nice) := by
  cases nice with
  | none => exact Frame.pure
  | some n =>
      refine Frame.bind (hf.calls (.setpriority ..)) fun r => ?_
      cases r with
      | error errno => exact frame_record hf _
      | ok u => exact Frame.pure

theorem frame_applySched (policy : SchedPolicy) (rtPrio nice : Option Int) :
    Frame f (applySched env tid pkg policy rtPrio nice) := by
  refine Frame.bind (hf.calls (.schedSetscheduler ..)) fun ret => ?_
  refine Frame.bind (frame_applyNice hf tid pkg nice) fun _ => ?_
  cases ret with
  | error errno => exact Frame.ite Frame.pure (frame_record_pure hf _ _)
  | ok u => exact Frame.pure

theorem frame_uclampSupported : Frame f (uclampSupported env) := by
  refine Frame.get fun s => ?_
  cases s.uclampSupport with
  | some supported => exact Frame.pure
  | none =>
      refine Frame.bind (hf.calls .readUtilClampMax) fun _ => ?_
      exact Frame.bind (Frame.modify fun s => hf.uclampSupport s _) fun _ => Frame.pure

theorem frame_applyUclamp (lo hi : Option Nat) (outcome : ApplyOutcome) :
    Frame f (applyUclamp env tid pkg lo hi outcome) := by
  refine Frame.ite Frame.pure (Frame.bind (frame_uclampSupported hf) fun supported => ?_)
  refine Frame.ite (Frame.bind (Frame.ite Frame.pure (hf.calls (.schedSetattr ..))) fun r => ?_)
    Frame.pure
  cases r with
  | ok u => exact Frame.pure
  | error errno => exact Frame.ite Frame.pure (frame_record_pure hf _ _)

theorem frame_afterAffinity (policy : Policy) (rtAllowed : Bool) (outcome : ApplyOutcome) :
    Frame f (if outcome = .exited then pure outcome
      else match policy.sched with
        | none => applyUclamp env tid pkg policy.uclampMin policy.uclampMax outcome
        | some pol =>
            if pol.isRt && !rtAllowed then pure outcome
            else do
              let failure ← applySched env tid pkg pol policy.schedPrio policy.nice
              applyUclamp env tid pkg policy.uclampMin policy.uclampMax
                (failure.getD outcome)) := by
  refine Frame.ite Frame.pure ?_
  cases policy.sched with
  | none => exact frame_applyUclamp hf tid pkg _ _ _
  | some pol =>
      refine Frame.ite Frame.pure (Frame.bind (frame_applySched hf tid pkg _ _ _) fun _ => ?_)
      exact frame_applyUclamp hf tid pkg _ _ _

end Frames

/-! ## The tracker is left alone -/

/-- A view that does not see the move into a cpuset either. -/
structure OverlooksAll {τ : Type} (env : Env κ) (f : System κ → τ) : Prop
    extends Overlooks env f where
  appendTask : ∀ file tid, Frame f (ask (env.appendTask file tid))

section Views

variable {τ : Type} {f : System κ → τ} {env : Env κ} (tid : Int) (pkg : String)

theorem frame_joinCpuset (hf : OverlooksAll env f) (policy : Policy) (topo : CpuTopology) :
    Frame f (joinCpuset env tid pkg policy topo) := by
  refine Frame.ite ?_ Frame.pure
  refine Frame.bind (Frame.ite Frame.pure (frame_ensureDir hf.toOverlooks _)) fun _ => ?_
  exact Frame.bind (hf.appendTask _ tid) fun _ =>
    Frame.ite Frame.pure (frame_record hf.toOverlooks _)

theorem frame_applyAffinity (hf : OverlooksAll env f) (policy : Policy) (topo : CpuTopology) :
    Frame f (applyAffinity env tid pkg policy topo) := by
  refine Frame.ite Frame.pure (Frame.bind (frame_joinCpuset tid pkg hf policy topo) fun _ => ?_)
  exact frame_afterJoin hf.toOverlooks tid pkg policy topo

/-- Of an application such a view sees the note of the call. -/
theorem applyThread_view (hf : OverlooksAll env f) (policy : Policy) (topo : CpuTopology)
    (rtAllowed : Bool) (s : System κ) :
    f ((applyThread env tid pkg policy topo rtAllowed).run s).2 =
      f (s.noteApply tid pkg policy) := by
  have hrest := Frame.bind (frame_applyAffinity tid pkg hf policy topo) fun outcome =>
    frame_afterAffinity hf.toOverlooks tid pkg policy rtAllowed outcome
  exact hrest (s.noteApply tid pkg policy)

end Views

theorem overlooksAll_ledger (env : Env κ) : OverlooksAll env ledger where
  auditLog _ _ := rfl
  ensuredDirs _ _ := rfl
  uclampSupport _ _ := rfl
  shortCircuitTotal _ _ := rfl
  calls _ := frame_ask _
  appendTask _ _ := frame_ask _

theorem frame_applyThread (env : Env κ) (tid : Int) (pkg : String) (policy : Policy)
    (topo : CpuTopology) (rtAllowed : Bool) :
    Frame ledger (applyThread env tid pkg policy topo rtAllowed) :=
  applyThread_view tid pkg (overlooksAll_ledger env) policy topo rtAllowed

end Threadctl.Core

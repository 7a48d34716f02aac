import Mathlib.Algebra.Field.Rat
import Mathlib.Data.List.DropRight
import Threadctl.Core.Relock
import Threadctl.Core.ScanCalls
import Threadctl.Support.Runs

/-!
# Coverage without interference

A sample looks at the cpuset of each tracked process, which is that of its main thread.
Applying a policy moves a thread only when the policy has CPUs.  So while nobody else moves
threads, the sample is 0 exactly when every main thread got CPUs.
-/

namespace Threadctl.Core

open Threadctl.Support Threadctl.Support.StateRun Threadctl.Support.Runs
open Threadctl.Support.Text

variable {κ : Type}

/-- The text of `/proc/<tid>/cpuset` for a thread in our directory `dir`. -/
def cpusetText (dir : String) : String :=
  (if dir.isEmpty then "/threadctl" else "/threadctl/" ++ dir) ++ "\n"

/-- A kernel with the cpuset channel, `owner` being the texts of `/proc/<tid>/cpuset`:
writing a `tasks` file of ours moves the thread, and nothing else that a scan does moves
one. -/
structure CpusetChannel (env : Env κ) (owner : κ → Int → Option String) : Prop where
  join : ∀ dir tid k, ((env.appendTask (tasksFile dir) tid).run k).1 = true
  join_owner : ∀ dir tid k, owner ((env.appendTask (tasksFile dir) tid).run k).2 =
    Function.update (owner k) tid (some (cpusetText dir))
  others : ∀ {α : Type} {x : StateM κ α}, env.ScanCall x → ∀ k, owner (x.run k).2 = owner k
  read : ∀ pid k, ((env.readCpuset pid).run k).1 = owner k pid
  read_owner : ∀ pid k, owner ((env.readCpuset pid).run k).2 = owner k

def isOurs (text : Option String) : Bool :=
  ((text.map trim).filter (!·.isEmpty)).any (ownerIsOurs · baseCpuset)

theorem isOurs_cpusetText {dir : String} (hdir : dir ≠ "") :
    isOurs (some (cpusetText dir)) = true := by
  have htext : cpusetText dir = "/threadctl/" ++ dir ++ "\n" := by
    rw [cpusetText, if_neg (fun h => hdir (String.isEmpty_iff.mp h))]
  have hprefix : startsWith (cpusetText dir) "/threadctl/" = true := by
    rw [startsWith_iff, htext, String.toList_append, String.toList_append, List.append_assoc]
    exact List.prefix_append _ _
  have htrim : startsWith (trim (cpusetText dir)) "/threadctl/" = true :=
    startsWith_trim hprefix (by decide) (by decide) (by decide)
  have hrel : trimStartMatches baseCpuset "/dev/cpuset" ++ "/" = "/threadctl/" := by decide +kernel
  have hours : ownerIsOurs (trim (cpusetText dir)) baseCpuset = true := by
    unfold ownerIsOurs
    dsimp only
    rw [hrel, htrim, Bool.or_true]
  have hsome : (trim (cpusetText dir)).isEmpty = false := by
    rw [Bool.eq_false_iff]
    intro h
    rw [String.isEmpty_iff.mp h] at htrim
    exact absurd htrim (by decide)
  have hkept : (some (trim (cpusetText dir))).filter (!·.isEmpty) =
      some (trim (cpusetText dir)) := by
    rw [Option.filter_some, hsome, Bool.not_false, if_pos rfl]
  rw [isOurs, Option.map_some, hkept, Option.any_some]
  exact hours

/-! ## What a call moves -/

def movedBy (owners : Int → Option String) (c : ApplyCall) : Int → Option String :=
  if 0 < c.policy.cpus.count then
    Function.update owners c.tid (some (cpusetText c.policy.cpusetDir))
  else owners

section Moves

variable {env : Env κ} {owner : κ → Int → Option String}

def placed (owner : κ → Int → Option String) (s : System κ) :
    (Int → Option String) × List ApplyCall := (owner s.kernel, s.applyCalls)

theorem overlooks_placed (channel : CpusetChannel env owner) : Overlooks env (placed owner) where
  auditLog _ _ := rfl
  ensuredDirs _ _ := rfl
  uclampSupport _ _ := rfl
  shortCircuitTotal _ _ := rfl
  calls hx s := Prod.ext (channel.others hx s.kernel) rfl

variable (channel : CpusetChannel env owner)

include channel

theorem joinCpuset_placed {topo : CpuTopology}
    (henabled : (topo.cpusetEnabled && topo.baseCpusetFd != -1) = true) (tid : Int) (pkg : String)
    (policy : Policy) (owners : Int → Option String) (calls : List ApplyCall) :
    Triple (fun s => placed owner s = (owners, calls)) (joinCpuset env tid pkg policy topo)
      fun _ s => placed owner s =
        (Function.update owners tid (some (cpusetText policy.cpusetDir)), calls) := by
  have hf := overlooks_placed channel
  rw [joinCpuset, if_pos henabled]
  refine Triple.bind ((Frame.ite Frame.pure (frame_ensureDir hf _)).keeps
    fun v => v = (owners, calls)) fun _ => ?_
  refine Triple.bind (Q := fun written s => written = true ∧ placed owner s =
    (Function.update owners tid (some (cpusetText policy.cpusetDir)), calls)) ?_ fun written => ?_
  · intro s hs
    obtain ⟨rfl, rfl⟩ := Prod.mk.inj hs
    exact ⟨channel.join _ tid s.kernel, Prod.ext (channel.join_owner _ tid s.kernel) rfl⟩
  · refine Triple.pre fun hwritten => ?_
    rw [hwritten, if_pos rfl]
    exact Triple.pure fun _ hs => hs

theorem applyAffinity_placed {topo : CpuTopology}
    (henabled : (topo.cpusetEnabled && topo.baseCpusetFd != -1) = true) (tid : Int) (pkg : String)
    (policy : Policy) (owners : Int → Option String) (calls : List ApplyCall) :
    Triple (fun s => placed owner s = (owners, calls)) (applyAffinity env tid pkg policy topo)
      fun _ s => placed owner s = (if 0 < policy.cpus.count then
        Function.update owners tid (some (cpusetText policy.cpusetDir)) else owners, calls) := by
  by_cases hnone : policy.cpus.count = 0
  · rw [applyAffinity, if_pos hnone, if_neg (by omega)]
    exact Triple.pure fun _ hs => hs
  · rw [applyAffinity, if_neg hnone, if_pos (Nat.pos_of_ne_zero hnone)]
    exact Triple.bind_frame (joinCpuset_placed channel henabled tid pkg policy owners calls)
      fun _ => frame_afterJoin (overlooks_placed channel) tid pkg policy topo

theorem applyThread_placed {topo : CpuTopology}
    (henabled : (topo.cpusetEnabled && topo.baseCpusetFd != -1) = true) (rtAllowed : Bool)
    (tid : Int) (pkg : String) (policy : Policy) (s : System κ) :
    placed owner ((applyThread env tid pkg policy topo rtAllowed).run s).2 =
      (movedBy (owner s.kernel) ⟨tid, pkg, policy, s.tracker⟩,
        s.applyCalls ++ [⟨tid, pkg, policy, s.tracker⟩]) := by
  have hrest := Triple.bind_frame (applyAffinity_placed channel henabled tid pkg policy
    (owner s.kernel) (s.applyCalls ++ [⟨tid, pkg, policy, s.tracker⟩])) fun outcome =>
      frame_afterAffinity (overlooks_placed channel) tid pkg policy rtAllowed outcome
  exact hrest (s.noteApply tid pkg policy) rfl

end Moves

/-! ## Refresh passes -/

/-- A refresh of one process over a working channel, and what `/proc` shows meanwhile. -/
structure Pass (owner : κ → Int → Option String) where
  env : Env κ
  channel : CpusetChannel env owner
  view : ProcView
  shows : env.Shows view
  args : EngineArgs
  enabled : (args.topo.cpusetEnabled && args.topo.baseCpusetFd != -1) = true
  pid : Int
  pkg : String

section Passes

variable (fnmatch : String → String → Bool) {owner : κ → Int → Option String}

/-- `refresh_process_rules` and the `register_dirs` of its callers. -/
def refreshPass (env : Env κ) (args : EngineArgs) (pid : Int) (pkg : String) : Run κ Unit := do
  let scanned ← refreshProcessRules fnmatch env args pid pkg
  modifyTracker fun t => t.registerDirs pid scanned.2

def Pass.step (s : System κ) (p : Pass owner) : System κ :=
  ((refreshPass fnmatch p.env p.args p.pid p.pkg).run s).2

/-- The pass has a policy with CPUs for the thread. -/
def Pass.Pins (p : Pass owner) (tid : Int) (s : System κ) : Prop :=
  tid ∈ p.view.tids p.pid ∧
    ∃ policy, policyFor fnmatch p.view p.args p.pkg
        (entered p.view (s.tracker.procMap p.pid) p.pid p.pkg p.args.now).tidNames tid =
          some policy ∧
      0 < policy.cpus.count

/-- The threads are where the calls have put them. -/
def Accounted (owner : κ → Int → Option String) (owners : Int → Option String) (s : System κ) :
    Prop := owner s.kernel = s.applyCalls.foldl movedBy owners

variable {fnmatch} {env : Env κ}

theorem keeps_accounted {α : Type} {owners : Int → Option String} {x : Run κ α}
    (hx : Frame (placed owner) x) : Keeps (Accounted owner owners) x :=
  hx.keeps fun v => v.1 = v.2.foldl movedBy owners

theorem frame_enter (channel : CpusetChannel env owner) (pid : Int) (pkg : String) (now : Int) :
    Frame (placed owner) (enter env pid pkg now) := by
  have hf := overlooks_placed channel
  refine frame_enter_of (hf.calls (.readStartTime pid)) (fun _ => Frame.modify fun _ => rfl)
    (fun state => ?_) pkg now
  exact frame_releaseState env (fun _ _ => rfl) (fun _ _ => rfl) (fun _ _ => rfl)
    (fun path => hf.calls (.removeCpusetDir path)) state

theorem scanTid_accounted (channel : CpusetChannel env owner) {args : EngineArgs}
    (henabled : (args.topo.cpusetEnabled && args.topo.baseCpusetFd != -1) = true) (pkg : String)
    (acc : ScanState) (tid : Int) (owners : Int → Option String) :
    Keeps (Accounted owner owners) (scanTid fnmatch env args pkg acc tid) := by
  have hname := frame_threadNameFor (overlooks_placed channel)
    (args.cfg.rules.hasThreadRules fnmatch pkg) acc.tidNames tid args.now
  refine Keeps.bind (keeps_accounted hname) fun named => ?_
  dsimp only
  cases args.cfg.rules.resolve fnmatch pkg named.1 with
  | none => exact Keeps.pure
  | some policy =>
      refine Keeps.bind (fun s hs => ?_) fun _ => Keeps.pure
      have happlied := applyThread_placed channel henabled args.rtAllowed tid pkg policy s
      obtain ⟨howner, hcalls⟩ := Prod.mk.inj happlied
      calc
        _ = movedBy (owner s.kernel) ⟨tid, pkg, policy, s.tracker⟩ := howner
        _ = (s.applyCalls ++ [ApplyCall.mk tid pkg policy s.tracker]).foldl movedBy owners := by
          rw [List.foldl_append, ← hs]
          rfl
        _ = _ := by rw [hcalls]

variable (fnmatch) in
theorem refreshPass_accounted (channel : CpusetChannel env owner) {args : EngineArgs}
    (henabled : (args.topo.cpusetEnabled && args.topo.baseCpusetFd != -1) = true) (pid : Int)
    (pkg : String) (owners : Int → Option String) :
    Keeps (Accounted owner owners) (refreshPass fnmatch env args pid pkg) := by
  have hf := overlooks_placed channel
  have henter : Keeps (Accounted owner owners) (enter env pid pkg args.now) :=
    keeps_accounted (frame_enter channel pid pkg args.now)
  have hmodify : ∀ f, Keeps (Accounted owner owners) (modifyTracker (κ := κ) f) :=
    fun f => keeps_accounted (Frame.modify fun _ => rfl)
  refine Keeps.bind (Keeps.bind (keeps_accounted (hf.calls (.listTids pid))) fun tids => ?_)
    fun scanned => hmodify _
  refine Keeps.bind henter fun state => Keeps.bind (hmodify _) fun _ => ?_
  refine Keeps.bind (Keeps.foldlM tids (fun acc tid => ?_) _) fun acc => ?_
  · exact scanTid_accounted channel henabled pkg acc tid owners
  · exact Keeps.bind henter fun _ => Keeps.bind (hmodify _) fun _ => Keeps.pure

theorem refreshPass_sight {view : ProcView} (hshows : env.Shows view) (args : EngineArgs)
    (pid : Int) (pkg : String) (P : Int → Option ProcessState) (calls : List ApplyCall) :
    Triple (fun s => sight s = (P, calls)) (refreshPass fnmatch env args pid pkg) fun _ s =>
      ∃ tracker p, sight s = (Function.update P pid (some p),
        calls ++ scanCalls fnmatch view args pid pkg
          (entered view (P pid) pid pkg args.now) tracker) := by
  have hscan := refreshProcessRules_sight fnmatch hshows args pid pkg P calls
  refine Triple.bind hscan fun scanned => ?_
  refine Triple.exists fun tracker => Triple.exists fun names => Triple.pre fun _ => ?_
  refine (registerDirs_sight pid scanned.2 _ _).mono (fun _ hs => hs) fun _ s ⟨dirs, hs⟩ => ?_
  rw [Function.update_self, Function.update_idem, Option.map_some] at hs
  exact ⟨tracker, _, hs⟩

variable (fnmatch) in
theorem Pass.step_sight (s : System κ) (p : Pass owner) :
    ∃ tracker q, sight (Pass.step fnmatch s p) =
      (Function.update s.tracker.procMap p.pid (some q),
        s.applyCalls ++ scanCalls fnmatch p.view p.args p.pid p.pkg
          (entered p.view (s.tracker.procMap p.pid) p.pid p.pkg p.args.now) tracker) :=
  refreshPass_sight p.shows p.args p.pid p.pkg s.tracker.procMap s.applyCalls s rfl

/-! ## What a run of passes leaves -/

theorem cpusetDir_ne_empty {rs : RuleSet} {pkg thread : String} {policy : Policy}
    (h : rs.resolve fnmatch pkg thread = some policy) (hcpus : 0 < policy.cpus.count) :
    policy.cpusetDir ≠ "" := by
  rw [resolve_eq, resolveRules] at h
  obtain ⟨merged, _, hfinish⟩ := Option.bind_eq_some_iff.mp h
  rw [eq_of_finish hfinish] at hcpus ⊢
  exact CpuSet.toRangeString_ne_empty hcpus

def ApplyCall.Moves (c : ApplyCall) (tid : Int) : Prop := c.tid = tid ∧ 0 < c.policy.cpus.count

theorem exists_moves_scanCalls {view : ProcView} {args : EngineArgs} {pid : Int} {pkg : String}
    {p : ProcessState} (tracker : StateTracker) (tid : Int) :
    (∃ c ∈ scanCalls fnmatch view args pid pkg p tracker, c.Moves tid) ↔
      tid ∈ view.tids pid ∧ ∃ policy,
        policyFor fnmatch view args pkg p.tidNames tid = some policy ∧ 0 < policy.cpus.count := by
  constructor
  · intro ⟨c, hc, htid, hcpus⟩
    obtain ⟨hlisted, hpolicy⟩ := ((mem_scanCalls fnmatch).mp hc).1
    rw [htid] at hlisted hpolicy
    exact ⟨hlisted, c.policy, hpolicy, hcpus⟩
  · intro ⟨hlisted, policy, hpolicy, hcpus⟩
    obtain ⟨c, hc, htid, rfl⟩ := (exists_scanCalls fnmatch tracker tid policy).mpr
      ⟨hlisted, hpolicy⟩
    exact ⟨c, hc, htid, hcpus⟩

variable (fnmatch) in
/-- The system after a run of passes from an empty tracker. -/
structure Reached (passes : List (Pass owner)) (kernel : κ) (s : System κ) : Prop where
  accounted : Accounted owner (owner kernel) s
  tracked : ∀ pid, (s.tracker.procMap pid).isSome = true ↔ ∃ p ∈ passes, p.pid = pid
  moves : ∀ tid, (∃ c ∈ s.applyCalls, c.Moves tid) ↔
    AtSome (Pass.step fnmatch) (fun s p => p.Pins fnmatch tid s) (System.init kernel) passes
  named : ∀ c ∈ s.applyCalls, 0 < c.policy.cpus.count → c.policy.cpusetDir ≠ ""

theorem reached_nil (kernel : κ) :
    Reached fnmatch ([] : List (Pass owner)) kernel (System.init kernel) where
  accounted := rfl
  tracked pid := by simp [StateTracker.procMap, System.init, StateTracker.new]
  moves tid := iff_of_false (fun ⟨_, hc, _⟩ => absurd hc List.not_mem_nil) (atSome_nil _)
  named _ hc := absurd hc List.not_mem_nil

theorem Reached.concat {passes : List (Pass owner)} {kernel : κ}
    (h : Reached fnmatch passes kernel (run (Pass.step fnmatch) (System.init kernel) passes))
    (p : Pass owner) :
    Reached fnmatch (passes ++ [p]) kernel
      (Pass.step fnmatch (run (Pass.step fnmatch) (System.init kernel) passes) p) := by
  have haccounted := refreshPass_accounted fnmatch p.channel p.enabled p.pid p.pkg
    (owner kernel) _ h.accounted
  obtain ⟨tracker, q, hs⟩ :=
    Pass.step_sight fnmatch (run (Pass.step fnmatch) (System.init kernel) passes) p
  obtain ⟨hprocs, hcalls⟩ := Prod.mk.inj hs
  refine ⟨haccounted, fun pid => ?_, fun tid => ?_, fun c hc hcpus => ?_⟩
  · rw [hprocs]
    by_cases hpid : pid = p.pid
    · subst hpid
      rw [Function.update_self]
      exact iff_of_true rfl ⟨p, List.mem_append_right _ List.mem_cons_self, rfl⟩
    · rw [Function.update_of_ne hpid, h.tracked pid]
      simp [Ne.symm hpid]
  · rw [atSome_concat_iff, ← h.moves tid, Pass.Pins, ← exists_moves_scanCalls tracker,
      hcalls]
    simp only [List.mem_append, or_and_right, exists_or]
  · rw [hcalls] at hc
    rcases List.mem_append.mp hc with hold | hnew
    · exact h.named c hold hcpus
    · obtain ⟨⟨_, hpolicy⟩, _⟩ := (mem_scanCalls fnmatch).mp hnew
      exact cpusetDir_ne_empty hpolicy hcpus

variable (fnmatch) in
theorem reached_run (passes : List (Pass owner)) (kernel : κ) :
    Reached fnmatch passes kernel (run (Pass.step fnmatch) (System.init kernel) passes) := by
  induction passes using List.reverseRecOn with
  | nil => exact reached_nil kernel
  | append_singleton passes p ih =>
      rw [run_concat]
      exact ih.concat p

/-- After its calls a thread is ours if it was before or a call moved it. -/
theorem isOurs_foldl_movedBy (owners : Int → Option String) (calls : List ApplyCall)
    (hnamed : ∀ c ∈ calls, 0 < c.policy.cpus.count → c.policy.cpusetDir ≠ "") (tid : Int) :
    isOurs (calls.foldl movedBy owners tid) = true ↔
      isOurs (owners tid) = true ∨ ∃ c ∈ calls, c.Moves tid := by
  induction calls using List.reverseRecOn with
  | nil => simp
  | append_singleton calls c ih =>
      have hold := ih fun c' hc' => hnamed c' (List.mem_append_left _ hc')
      rw [List.foldl_append, List.foldl_cons, List.foldl_nil, movedBy]
      by_cases hcpus : 0 < c.policy.cpus.count
      · rw [if_pos hcpus]
        by_cases htid : tid = c.tid
        · subst htid
          have hmem : c ∈ calls ++ [c] := List.mem_append_right _ List.mem_cons_self
          rw [Function.update_self]
          exact iff_of_true (isOurs_cpusetText (hnamed c hmem hcpus)) (Or.inr ⟨c, hmem, rfl, hcpus⟩)
        · rw [Function.update_of_ne htid, hold]
          simp [ApplyCall.Moves, or_and_right, exists_or, Ne.symm htid]
      · rw [if_neg hcpus, hold]
        simp [ApplyCall.Moves, or_and_right, exists_or, hcpus]

end Passes

/-! ## Sampling -/

section Sampling

variable {env : Env κ} {owner : κ → Int → Option String}

theorem isInOurCpuset_owner (channel : CpusetChannel env owner) (pid : Int)
    (owners : Int → Option String) :
    Triple (fun s => owner s.kernel = owners) (isInOurCpuset env pid baseCpuset)
      fun ours s => ours = isOurs (owners pid) ∧ owner s.kernel = owners := by
  intro s hs
  have hread := (channel.read pid s.kernel).trans (congrFun hs pid)
  have hkept := (channel.read_owner pid s.kernel).trans hs
  refine ⟨?_, hkept⟩
  rw [isOurs, ← hread]
  rfl

theorem foldlM_isInOurCpuset (channel : CpusetChannel env owner) (owners : Int → Option String)
    (pids : List Int) :
    Triple (fun s => owner s.kernel = owners)
      (pids.foldlM (fun (covered : Nat) pid => do
        let ours ← isInOurCpuset env pid baseCpuset
        pure (if ours then covered else covered + 1)) 0)
      fun covered s => covered = pids.countP (fun pid => !isOurs (owners pid)) ∧
        owner s.kernel = owners := by
  have hloop := Triple.foldlM (I := fun rest (covered : Nat) (s : System κ) =>
      covered + rest.countP (fun pid => !isOurs (owners pid)) =
        pids.countP (fun pid => !isOurs (owners pid)) ∧ owner s.kernel = owners)
    (f := fun (covered : Nat) pid => do
      let ours ← isInOurCpuset env pid baseCpuset
      pure (if ours then covered else covered + 1)) pids 0 ?_
  · exact hloop.mono (fun _ hs => ⟨Nat.zero_add _, hs⟩) fun _ _ hs => hs
  · intro pid rest covered
    refine Triple.pre fun hcount => ?_
    refine Triple.bind (isInOurCpuset_owner channel pid owners) fun ours => ?_
    refine Triple.pre fun hours => Triple.pure fun s hs => ⟨?_, hs⟩
    rw [List.countP_cons] at hcount
    cases hcase : isOurs (owners pid) <;> simp [hcase] at hcount hours <;> simp [hours] <;> omega

/-- The sample is the share of the tracked processes that are elsewhere. -/
theorem sampleCoverage_ratio (channel : CpusetChannel env owner) (s : System κ) :
    ∃ pids : List Int, (∀ pid, pid ∈ pids ↔ (s.tracker.procMap pid).isSome = true) ∧
      ((sampleCoverage env baseCpuset).run s).1 =
        (pids.countP (fun pid => !isOurs (owner s.kernel pid)) : Rat) / pids.length := by
  have hsample : Triple (fun t => t = s) (sampleCoverage env baseCpuset) fun ratio _ =>
      ratio = ((env.order s.kernel s.tracker.procs.keys).countP
        (fun pid => !isOurs (owner s.kernel pid)) : Rat) /
          (env.order s.kernel s.tracker.procs.keys).length := by
    refine Triple.bind (Q := fun all t => all = env.order s.kernel s.tracker.procs.keys ∧
      owner t.kernel = owner s.kernel) ?_ fun all => Triple.pre fun hall => ?_
    · rintro t rfl
      exact ⟨rfl, rfl⟩
    · refine Triple.ite_of (fun hempty => Triple.pure fun _ _ => ?_) fun _ => ?_
      · rw [← hall, List.isEmpty_iff.mp hempty]
        simp
      · refine Triple.bind (foldlM_isInOurCpuset channel (owner s.kernel) all) fun covered => ?_
        refine Triple.pre fun hcovered => Triple.pure fun _ _ => ?_
        rw [hcovered, hall]
  exact ⟨_, mem_order_keys env s, hsample s rfl⟩

theorem sampleCoverage_eq_zero_iff (channel : CpusetChannel env owner) (s : System κ) :
    ((sampleCoverage env baseCpuset).run s).1 = 0 ↔
      ∀ pid, (s.tracker.procMap pid).isSome = true → isOurs (owner s.kernel pid) = true := by
  obtain ⟨pids, hpids, hratio⟩ := sampleCoverage_ratio channel s
  have hcount : (pids.countP (fun pid => !isOurs (owner s.kernel pid)) : Rat) / pids.length = 0 ↔
      pids.countP (fun pid => !isOurs (owner s.kernel pid)) = 0 := by
    rw [div_eq_zero_iff, Nat.cast_eq_zero, Nat.cast_eq_zero]
    refine or_iff_left_of_imp fun hlength => ?_
    rw [List.eq_nil_of_length_eq_zero hlength, List.countP_nil]
  rw [hratio, hcount, List.countP_eq_zero]
  refine forall_congr' fun pid => ?_
  rw [hpids pid]
  simp

/-- After a run of passes the sample is 0 exactly when the main thread of every refreshed
process was in one of our cpusets or got CPUs in some pass. -/
theorem coverage_zero_iff {fnmatch : String → String → Bool} {env : Env κ}
    {owner : κ → Int → Option String} (channel : CpusetChannel env owner)
    (passes : List (Pass owner)) (kernel : κ) :
    ((sampleCoverage env baseCpuset).run
        (run (Pass.step fnmatch) (System.init kernel) passes)).1 = 0 ↔
      ∀ p ∈ passes, isOurs (owner kernel p.pid) = true ∨
        AtSome (Pass.step fnmatch) (fun s q => q.Pins fnmatch p.pid s) (System.init kernel)
          passes := by
  have hreached := reached_run fnmatch passes kernel
  have hmain : ∀ pid,
      isOurs (owner (run (Pass.step fnmatch) (System.init kernel) passes).kernel pid) = true ↔
        isOurs (owner kernel pid) = true ∨ AtSome (Pass.step fnmatch)
          (fun s q => q.Pins fnmatch pid s) (System.init kernel) passes := by
    intro pid
    rw [hreached.accounted, isOurs_foldl_movedBy _ _ hreached.named, hreached.moves]
  rw [sampleCoverage_eq_zero_iff channel]
  constructor
  · intro h p hp
    exact (hmain p.pid).mp (h p.pid ((hreached.tracked p.pid).mpr ⟨p, hp, rfl⟩))
  · intro h pid htracked
    obtain ⟨p, hp, rfl⟩ := (hreached.tracked pid).mp htracked
    exact (hmain p.pid).mpr (h p hp)

end Sampling

/-! ## An application that moves nothing -/

/-- Every system call that sets something succeeds. -/
structure Env.Accepts (env : Env κ) : Prop where
  createCpusetDir : ∀ path cpus mems, Answers (env.createCpusetDir path cpus mems) true
  setAffinity : ∀ tid cpus, Answers (env.setAffinity tid cpus) (.ok ())
  schedSetscheduler : ∀ tid policy prio, Answers (env.schedSetscheduler tid policy prio) (.ok ())
  setpriority : ∀ tid nice, Answers (env.setpriority tid nice) (.ok ())
  schedSetattr : ∀ tid flags lo hi, Answers (env.schedSetattr tid flags lo hi) (.ok ())

/-- What `/proc/<tid>/cpuset` shows of a thread that was written to a `tasks` file:
without the mount point in front and the file's own name behind. -/
def textOfTasksFile (file : String) : String :=
  String.ofList ((file.toList.drop 11).rdrop 6) ++ "\n"

theorem textOfTasksFile_tasksFile (dir : String) :
    textOfTasksFile (tasksFile dir) = cpusetText dir := by
  have hfile : ∀ front : String,
      textOfTasksFile ("/dev/cpuset" ++ front ++ "/tasks") = front ++ "\n" := by
    intro front
    have hmount : "/dev/cpuset".toList.length = 11 := by decide
    have hname : "/tasks".toList.length = 6 := by decide
    rw [textOfTasksFile, String.toList_append, String.toList_append, List.append_assoc, ← hmount,
      List.drop_left, ← hname, List.rdrop_append_length, String.ofList_toList]
  rw [tasksFile, cpusetText]
  split
  · exact hfile "/threadctl"
  · have hbase : baseCpuset ++ "/" ++ dir ++ "/tasks" =
        "/dev/cpuset" ++ ("/threadctl/" ++ dir) ++ "/tasks" := by
      simp [baseCpuset, String.ext_iff]
    rw [hbase, hfile]

/-- The kernel whose state is the cpusets of its threads. -/
def ProcView.cpusetEnv (view : ProcView) : Env (Int → Option String) :=
  { view.env with
    appendTask := fun file tid => modifyGet fun k =>
      (true, Function.update k tid (some (textOfTasksFile file)))
    readCpuset := fun pid => do pure ((← get) pid) }

theorem ProcView.cpusetEnv_shows (view : ProcView) : view.cpusetEnv.Shows view where
  tids _ _ := rfl
  comm _ _ := rfl
  cmdline _ _ := rfl
  startTime _ _ := rfl
  alive _ _ := rfl
  oomAdj _ _ := rfl

theorem ProcView.cpusetEnv_channel (view : ProcView) : CpusetChannel view.cpusetEnv id where
  join _ _ _ := rfl
  join_owner dir tid k := by
    rw [← textOfTasksFile_tasksFile]
    rfl
  others hx k := by cases hx <;> rfl
  read _ _ := rfl
  read_owner _ _ := rfl

theorem ProcView.cpusetEnv_accepts (view : ProcView) : view.cpusetEnv.Accepts where
  createCpusetDir _ _ _ _ := rfl
  setAffinity _ _ _ := rfl
  schedSetscheduler _ _ _ _ := rfl
  setpriority _ _ _ := rfl
  schedSetattr _ _ _ _ _ := rfl

/-- `com.a` as a process of one thread. -/
def oneThreadView : ProcView where
  tids pid := if pid = 7 then [7] else []
  comm _ := some "com.a"
  cmdline pid := if pid = 7 then some "com.a" else none
  startTime pid := if pid = 7 then some 5 else none
  alive pid := pid = 7
  oomAdj _ := 0

def cpusetTopology : CpuTopology :=
  { CpuTopology.flat 4 with cpusetEnabled := true, baseCpusetFd := 3 }

/-- Real-time scheduling for `com.a` without CPUs. -/
def schedOnlyConfig : ConfigSnapshot where
  version := 1
  rules := (compile [⟨"com.a", "", "", some "rr", none, none, none⟩] cpusetTopology).rules

def schedOnlyPass : Pass (id : (Int → Option String) → Int → Option String) where
  env := oneThreadView.cpusetEnv
  channel := oneThreadView.cpusetEnv_channel
  view := oneThreadView
  shows := oneThreadView.cpusetEnv_shows
  args := ⟨schedOnlyConfig, cpusetTopology, 1, true⟩
  enabled := rfl
  pid := 7
  pkg := "com.a"

theorem coverage_zero_at_com_a :
    CpusetChannel schedOnlyPass.env id ∧
      (((sampleCoverage schedOnlyPass.env baseCpuset).run
          (run (Pass.step glob) (System.init fun _ => none) [schedOnlyPass])).1 = 0 ↔
        ∀ p ∈ [schedOnlyPass], isOurs none = true ∨
          AtSome (Pass.step glob) (fun s q => q.Pins glob p.pid s) (System.init fun _ => none)
            [schedOnlyPass]) :=
  ⟨schedOnlyPass.channel, coverage_zero_iff schedOnlyPass.channel [schedOnlyPass] fun _ => none⟩

/-- A rule without CPUs is applied to every thread of `com.a`, nobody moves any, and the
sample still calls `com.a` covered. -/
theorem sched_only_rule_reads_as_covered :
    ¬∀ (passes : List (Pass (id : (Int → Option String) → Int → Option String)))
      (kernel : Int → Option String) (env : Env (Int → Option String)),
      CpusetChannel env id → env.Accepts →
      (∀ p ∈ passes, p.env.Accepts ∧ p.args.cfg.rules.isInterested glob p.pkg = true) →
        ((sampleCoverage env baseCpuset).run
          (run (Pass.step glob) (System.init kernel) passes)).1 = 0 := by
  intro h
  have haccepts : ∀ p ∈ [schedOnlyPass],
      p.env.Accepts ∧ p.args.cfg.rules.isInterested glob p.pkg = true := by
    intro p hp
    rw [List.mem_singleton.mp hp]
    exact ⟨oneThreadView.cpusetEnv_accepts, by decide +kernel⟩
  have hzero := h [schedOnlyPass] (fun _ => some "/top-app\n") schedOnlyPass.env
    schedOnlyPass.channel oneThreadView.cpusetEnv_accepts haccepts
  have hours := (sampleCoverage_eq_zero_iff schedOnlyPass.channel _).mp hzero 7 (by decide +kernel)
  exact absurd hours (by decide +kernel)

end Threadctl.Core

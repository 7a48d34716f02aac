import Threadctl.Core.EngineRuns
import Threadctl.Core.Erasure

/-!
# What the engine counts

The engine counts every application that neither finds the thread gone nor passes over its
affinity.  That is a count of the successful ones as long as no other application fails.
-/

namespace Threadctl.Core

open Threadctl.Support.EventLog Threadctl.Support.StateRun Threadctl.Support.Simulation

variable {κ : Type}

/-! ## Reported outcomes -/

def Deed.outcome? : Deed → Option ApplyOutcome
  | .apply _ outcome => some outcome
  | _ => none

def outcomesSoFar (s : System (Traced κ Deed)) : List ApplyOutcome :=
  s.kernel.log.filterMap Deed.outcome?

def outcomes {α : Type} (x : Run (Traced κ Deed) α) (s : System (Traced κ Deed)) :
    List ApplyOutcome :=
  (outcomesSoFar (x.run s).2).drop (outcomesSoFar s).length

/-- `countOutcome` counts it. -/
def ApplyOutcome.counts : ApplyOutcome → Bool
  | .exited => false
  | .skippedNoCpus => false
  | _ => true

theorem countOutcome_applied (acc : ScanState) (policy : Policy) (outcome : ApplyOutcome) :
    (countOutcome acc policy outcome).applied =
      acc.applied + [outcome].countP ApplyOutcome.counts := by
  cases outcome <;> rfl

/-- A program reports outcomes that are in the relation `R` with its result. -/
abbrev ReportsOutcomes {α : Type} (x : Run (Traced κ Deed) α)
    (R : List ApplyOutcome → α → Prop) : Prop :=
  ∀ v, Emits (fun os o => os ++ [o]) outcomesSoFar v x R

theorem reportsOutcomes_outcomes {α : Type} {x : Run (Traced κ Deed) α}
    {R : List ApplyOutcome → α → Prop} (hx : ReportsOutcomes x R) (s : System (Traced κ Deed)) :
    R (outcomes x s) (x.run s).1 := by
  obtain ⟨es, hview, hR⟩ := hx _ s rfl
  have hes : outcomes x s = es := by
    rw [outcomes, hview, List.foldl_append_eq_append, List.drop_left, ← List.flatMap_def,
      List.flatMap_singleton']
  rwa [hes]

/-! ## Programs that report nothing -/

theorem overlooksAll_outcomesSoFar (env : Env κ) :
    OverlooksAll env.watched (outcomesSoFar (κ := κ)) where
  auditLog _ _ := rfl
  ensuredDirs _ _ := rfl
  uclampSupport _ _ := rfl
  shortCircuitTotal _ _ := rfl
  calls h s := by
    cases h with
    | createCpusetDir path cpus mems =>
        exact (List.filterMap_append ..).trans (List.append_nil _)
    | removeCpusetDir path => exact (List.filterMap_append ..).trans (List.append_nil _)
    | _ => rfl
  appendTask _ _ _ := rfl

theorem frame_modifyTracker_outcomes (m : StateTracker → StateTracker) :
    Frame (outcomesSoFar (κ := κ)) (modifyTracker m) := fun _ => rfl

theorem frame_releaseState_outcomes (env : Env κ) (state : ProcessState) :
    Frame outcomesSoFar (releaseState env.watched state) :=
  frame_releaseState env.watched (fun _ _ => rfl) (fun _ _ => rfl) (fun _ _ => rfl)
    (fun path => (overlooksAll_outcomesSoFar env).calls (.removeCpusetDir path)) state

theorem frame_remove_outcomes (env : Env κ) (pid : Int) :
    Frame outcomesSoFar (remove env.watched pid) :=
  Frame.of_keeps fun v => keeps_remove ((frame_modifyTracker_outcomes _).keeps (· = v))
    fun state => (frame_releaseState_outcomes env state).keeps (· = v)

theorem frame_enter_outcomes (env : Env κ) (pid : Int) (pkg : String) (now : Int) :
    Frame outcomesSoFar (enter env.watched pid pkg now) :=
  frame_enter_of ((overlooksAll_outcomesSoFar env).calls (.readStartTime pid))
    frame_modifyTracker_outcomes (frame_releaseState_outcomes env) pkg now

theorem Frame.reports {α : Type} {x : Run (Traced κ Deed) α} (hx : Frame outcomesSoFar x)
    {R : List ApplyOutcome → α → Prop} (hR : ∀ a, R [] a) : ReportsOutcomes x R :=
  fun _ => Emits.silent hx hR

theorem ReportsOutcomes.after {α β : Type} {x : Run (Traced κ Deed) β}
    {g : β → Run (Traced κ Deed) α} {R : List ApplyOutcome → α → Prop}
    (hx : Frame outcomesSoFar x) (hg : ∀ b, ReportsOutcomes (g b) R) :
    ReportsOutcomes (x >>= g) R := fun v =>
  Emits.bind (R := R) (Q := fun es _ => es = []) (Emits.silent hx fun _ => rfl) fun es b hes => by
    subst hes
    exact hg b v

theorem reports_reporting (env : Env κ) (tid : Int) (pkg : String) (policy : Policy)
    (topo : CpuTopology) (rtAllowed : Bool) :
    ReportsOutcomes (reporting env tid pkg policy topo rtAllowed) fun es o => es = [o] := by
  rintro v s rfl
  have hview : outcomesSoFar
      ((applyThread env.watched tid pkg policy topo rtAllowed).run s).2 = outcomesSoFar s :=
    applyThread_view tid pkg (overlooksAll_outcomesSoFar env) policy topo rtAllowed s
  refine ⟨_, ?_, rfl⟩
  rw [List.foldl_append_eq_append, ← hview]
  exact List.filterMap_append ..

/-! ## Counts -/

/-- The result counts the outcomes that `countOutcome` counts. -/
abbrev CountsOutcomes {α : Type} (n : α → Nat) (x : Run (Traced κ Deed) α) : Prop :=
  ReportsOutcomes x fun es a => n a = es.countP ApplyOutcome.counts

section Engine

variable (fnmatch : String → String → Bool) (env : Env κ)

theorem counts_scanTid (args : EngineArgs) (pkg : String) (acc : ScanState) (tid : Int) :
    ReportsOutcomes (scanTidBy fnmatch env.watched (reporting env) args pkg acc tid)
      fun es acc' => acc'.applied = acc.applied + es.countP ApplyOutcome.counts := by
  have hname := frame_threadNameFor (overlooksAll_outcomesSoFar env).toOverlooks
  refine ReportsOutcomes.after (hname _ _ _ _) fun named => ?_
  dsimp only
  cases args.cfg.rules.resolve fnmatch pkg named.1 with
  | none => exact fun v => Emits.pure rfl
  | some policy =>
      intro v
      refine Emits.bind (reports_reporting env _ _ _ _ _ v) fun es outcome hes => Emits.pure ?_
      subst hes
      exact countOutcome_applied _ policy outcome

theorem counts_refreshProcessRules (args : EngineArgs) (pid : Int) (pkg : String) :
    CountsOutcomes Prod.fst
      (refreshProcessRulesBy fnmatch env.watched (reporting env) args pid pkg) := by
  refine ReportsOutcomes.after ((overlooksAll_outcomesSoFar env).calls (.listTids pid))
    fun tids => ?_
  refine ReportsOutcomes.after (frame_enter_outcomes env pid pkg args.now) fun state => ?_
  refine ReportsOutcomes.after (frame_modifyTracker_outcomes _) fun _ v => ?_
  refine Emits.bind (Emits.foldlM (T := fun acc es acc' =>
    acc'.applied = acc.applied + es.countP ApplyOutcome.counts) ?_ ?_ ?_ tids _) ?_
  · exact fun _ => rfl
  · intro a es b fs c hb hc
    rw [hc, hb, List.countP_append, Nat.add_assoc]
  · exact fun v acc tid => counts_scanTid fnmatch env args pkg acc tid v
  · intro es acc hacc
    refine ReportsOutcomes.after (R := fun fs (a : Nat × List String) =>
      a.1 = (es ++ fs).countP ApplyOutcome.counts) (frame_enter_outcomes env pid pkg args.now) ?_ _
    refine fun _ => ReportsOutcomes.after (frame_modifyTracker_outcomes _) fun _ v => Emits.pure ?_
    rw [List.append_nil]
    exact hacc.trans (Nat.zero_add _)

theorem counts_then {α β : Type} {n : α → Nat} {x : Run (Traced κ Deed) α}
    (hx : CountsOutcomes n x) {g : α → Run (Traced κ Deed) β} {m : β → Nat}
    (hg : ∀ a, ReportsOutcomes (g a) fun es b => es = [] ∧ m b = n a) :
    CountsOutcomes m (x >>= g) := by
  intro v
  refine Emits.bind (hx v) fun es a hes => (hg a _).mono ?_
  rintro _ b ⟨rfl, hb⟩
  rw [hb, hes, List.append_nil]

theorem counts_fullScan (args : EngineArgs) (pid : Int) (pkg : String) :
    CountsOutcomes id (fullScanBy fnmatch env.watched (reporting env) args pid pkg) := by
  refine counts_then (counts_refreshProcessRules fnmatch env args pid pkg) fun scanned => ?_
  refine ReportsOutcomes.after (frame_modifyTracker_outcomes _) fun _ => ?_
  exact ReportsOutcomes.after (frame_modifyTracker_outcomes _) fun _ v => Emits.pure ⟨rfl, rfl⟩

theorem counts_settleTid (pid tid : Int) (policy : Policy) (outcome : ApplyOutcome) :
    ReportsOutcomes (settleTid pid tid policy outcome : Run (Traced κ Deed) Nat) fun es n =>
      es = [] ∧ n = [outcome].countP ApplyOutcome.counts := by
  have hinsert : Frame (outcomesSoFar (κ := κ)) (insertAppliedTid pid tid) :=
    frame_modifyTracker_outcomes _
  have hcounted : ReportsOutcomes (do
      insertAppliedTid pid tid
      modifyTracker fun t => t.registerDirs pid [policy.cpusetDir]
      pure 1 : Run (Traced κ Deed) Nat) fun es n => es = [] ∧ n = 1 :=
    ReportsOutcomes.after hinsert fun _ =>
      ReportsOutcomes.after (frame_modifyTracker_outcomes _) fun _ v => Emits.pure ⟨rfl, rfl⟩
  cases outcome with
  | exited => exact fun v => Emits.pure ⟨rfl, rfl⟩
  | skippedNoCpus => exact ReportsOutcomes.after hinsert fun _ v => Emits.pure ⟨rfl, rfl⟩
  | applied | blockedByCgroup | downgraded | blockedByPerm | einval | failed => exact hcounted

theorem counts_applySingleTid (args : EngineArgs) (pid : Int) (pkg : String) (tid : Int) :
    CountsOutcomes id (applySingleTidBy fnmatch env.watched (reporting env) args pid pkg tid) := by
  have hname := frame_threadNameFor (overlooksAll_outcomesSoFar env).toOverlooks
  refine ReportsOutcomes.after (frame_enter_outcomes env pid pkg args.now) fun state v => ?_
  refine Emits.ite (fun _ => Emits.pure rfl) fun _ => ?_
  refine ReportsOutcomes.after (hname _ _ _ _) (fun named => ?_) v
  refine ReportsOutcomes.after (frame_modifyTracker_outcomes _) fun _ => ?_
  cases args.cfg.rules.resolve fnmatch pkg named.1 with
  | none => exact ReportsOutcomes.after (frame_modifyTracker_outcomes _) fun _ v => Emits.pure rfl
  | some policy =>
      intro v
      refine Emits.bind (reports_reporting env _ _ _ _ _ v) fun es outcome hes => ?_
      refine (counts_settleTid pid tid policy outcome _).mono ?_
      rintro _ n ⟨rfl, hn⟩
      rw [hes, List.append_nil]
      exact hn

theorem counts_remove_pure (pid : Int) :
    CountsOutcomes id (do let _ ← remove env.watched pid; pure 0 : Run (Traced κ Deed) Nat) :=
  ReportsOutcomes.after (frame_remove_outcomes env pid) fun _ _ => Emits.pure rfl

theorem counts_handleWanted (args : EngineArgs) (ev : ProcessEvent) (pkg : String) :
    CountsOutcomes id (handleWantedBy fnmatch env.watched (reporting env) args ev pkg) := by
  have hscan := counts_fullScan fnmatch env args ev.pid pkg
  have hsingle := counts_applySingleTid fnmatch env args ev.pid pkg ev.tid
  unfold handleWantedBy
  cases ev.kind with
  | exec => exact ReportsOutcomes.after (frame_remove_outcomes env ev.pid) fun _ => hscan
  | fork => exact hscan
  | threadClone | cpuMigrate | exit =>
      exact fun v => Emits.get fun s _ => Emits.ite (fun _ => hscan v) fun _ => hsingle v

theorem counts_handleSpawn (args : EngineArgs) (ev : ProcessEvent) :
    CountsOutcomes id (handleSpawnBy fnmatch env.watched (reporting env) args ev) := by
  have hpkg : Frame outcomesSoFar (eventPkg env.watched ev) := by
    unfold eventPkg
    cases ev.pkg with
    | some pkg => exact Frame.pure
    | none => exact Frame.bind (fun _ => rfl) fun _ => Frame.pure
  refine ReportsOutcomes.after hpkg fun pkg v => Emits.ite (fun _ => Emits.pure rfl) fun _ => ?_
  refine Emits.ite (fun _ => Emits.get fun s _ => ?_) fun _ =>
    counts_handleWanted fnmatch env args ev pkg v
  exact Emits.ite (fun _ => counts_remove_pure env ev.pid v) fun _ => Emits.pure rfl

theorem counts_handleEvent (args : EngineArgs) (ev : ProcessEvent) :
    CountsOutcomes id (handleEventBy fnmatch env.watched (reporting env) args ev) := by
  have hspawn := counts_handleSpawn fnmatch env args ev
  unfold handleEventBy
  cases ev.kind with
  | exit =>
      refine fun v => Emits.ite (fun _ => ?_) fun _ => counts_remove_pure env ev.pid v
      refine ReportsOutcomes.after (frame_modifyTracker_outcomes _) (fun _ _ => Emits.pure ?_) v
      rfl
  | cpuMigrate => exact fun v => Emits.pure rfl
  | fork | exec | threadClone => exact hspawn

theorem counts_foldlM {γ : Type} {g : Nat → γ → Run (Traced κ Deed) Nat}
    (hg : ∀ n c, ReportsOutcomes (g n c) fun es m => m = n + es.countP ApplyOutcome.counts)
    (l : List γ) : CountsOutcomes id (l.foldlM g 0) := by
  intro v
  refine (Emits.foldlM (T := fun n es m => m = n + es.countP ApplyOutcome.counts) ?_ ?_
    (fun v n c => hg n c v) l 0).mono fun es m hm => hm.trans (Nat.zero_add _)
  · exact fun _ => rfl
  · intro a es b fs c hb hc
    rw [hc, hb, List.countP_append, Nat.add_assoc]

theorem counts_handleEvents (events : List ProcessEvent) (cfg : ConfigSnapshot)
    (topo : CpuTopology) (now : Int) :
    CountsOutcomes id
      (handleEventsBy fnmatch env.watched (reporting env) events cfg topo now) := by
  refine ReportsOutcomes.after (fun _ => rfl) fun rtAllowed =>
    counts_foldlM (fun n ev v => ?_) events
  refine Emits.bind (counts_handleEvent fnmatch env _ ev v) fun es m hm => Emits.pure ?_
  rw [List.append_nil, ← hm]
  rfl

theorem counts_relockPid (args : EngineArgs) (rctx : RelockContext) (decision : DecisionEngine)
    (applied : Nat) (pid : Int) :
    ReportsOutcomes
      (relockPidBy fnmatch env.watched (reporting env) args rctx decision applied pid)
      fun es m => m = applied + es.countP ApplyOutcome.counts := by
  refine fun v => Emits.get fun s _ => ?_
  cases s.tracker.procs.lookup pid with
  | none => exact Emits.pure rfl
  | some state =>
      refine ReportsOutcomes.after (fun _ => rfl) (fun alive v => ?_) v
      refine Emits.ite (fun _ => ?_) fun _ => ?_
      · refine ReportsOutcomes.after (frame_remove_outcomes env pid) (fun _ _ => Emits.pure ?_) v
        rfl
      · refine ReportsOutcomes.after (fun _ => rfl) (fun adj => ?_) v
        dsimp only
        have hbump : ∀ f, Frame (outcomesSoFar (κ := κ)) (bumpRelock f) := fun _ _ => rfl
        cases decision.decideCtx _ with
        | skip reason => exact ReportsOutcomes.after (hbump _) fun _ _ => Emits.pure rfl
        | degrade level reason => exact ReportsOutcomes.after (hbump _) fun _ _ => Emits.pure rfl
        | allow reason =>
            refine ReportsOutcomes.after (hbump _) fun _ v => ?_
            refine Emits.bind (counts_refreshProcessRules fnmatch env args pid state.pkg v) ?_
            intro es scanned hes
            refine ReportsOutcomes.after (R := fun fs m => m = applied +
              (es ++ fs).countP ApplyOutcome.counts) (frame_modifyTracker_outcomes _) ?_ _
            intro _ v
            refine Emits.pure ?_
            rw [List.append_nil, ← hes]

theorem counts_relockAll (cfg : ConfigSnapshot) (topo : CpuTopology) (now : Int)
    (rctx : RelockContext) (decision : DecisionEngine) :
    CountsOutcomes id
      (relockAllBy fnmatch env.watched (reporting env) cfg topo now rctx decision) := by
  refine ReportsOutcomes.after (fun _ => rfl) fun rtAllowed => ?_
  refine ReportsOutcomes.after (fun _ => rfl) fun all => ?_
  exact counts_foldlM (counts_relockPid fnmatch env _ rctx decision) all

end Engine

/-! ## The contract -/

/-- The thread was reached and the application failed. -/
def ApplyOutcome.isFailure : ApplyOutcome → Bool
  | .blockedByCgroup => true
  | .blockedByPerm => true
  | .einval => true
  | .failed => true
  | _ => false

theorem counts_iff (outcome : ApplyOutcome) :
    outcome.counts = (outcome.isSuccess || outcome.isFailure) := by
  cases outcome <;> rfl

theorem isSuccess_of_isFailure {outcome : ApplyOutcome} (h : outcome.isFailure = true) :
    outcome.isSuccess = false := by
  cases outcome <;> first | rfl | exact absurd h (by decide)

theorem countP_counts (os : List ApplyOutcome) :
    os.countP ApplyOutcome.counts =
      os.countP ApplyOutcome.isSuccess + os.countP ApplyOutcome.isFailure := by
  induction os with
  | nil => rfl
  | cons o os ih =>
      rw [List.countP_cons, List.countP_cons, List.countP_cons, ih, counts_iff]
      cases hfail : o.isFailure with
      | false =>
          rw [Bool.or_false]
          simp only [Bool.false_eq_true, if_false]
          omega
      | true =>
          rw [isSuccess_of_isFailure hfail]
          simp only [Bool.or_true, Bool.false_eq_true, if_true, if_false]
          omega

def CountTruthful (n : Nat) (os : List ApplyOutcome) : Prop := n = os.countP ApplyOutcome.isSuccess

theorem countTruthful_iff {α : Type} {n : α → Nat} {x : Run (Traced κ Deed) α} {y : Run κ α}
    (hx : CountsOutcomes n x) (hxy : Erases (System.under Traced.kernel) x y)
    (s : System (Traced κ Deed)) :
    CountTruthful (n (y.run (s.under Traced.kernel)).1) (outcomes x s) ↔
      ∀ o ∈ outcomes x s, o.isFailure = false := by
  have hcount := reportsOutcomes_outcomes hx s
  have hnone : (∀ o ∈ outcomes x s, o.isFailure = false) ↔
      (outcomes x s).countP ApplyOutcome.isFailure = 0 := by
    rw [List.countP_eq_zero]
    exact forall₂_congr fun o _ => Bool.not_eq_true _ ▸ Iff.rfl
  rw [hxy s, CountTruthful, hcount, countP_counts, hnone]
  omega

/-- The counts of the engine are those of the successful applications exactly when no
application fails on a thread that it has reached. -/
theorem applied_counts_truthful_iff (fnmatch : String → String → Bool) (env : Env κ)
    (s : System (Traced κ Deed)) :
    (∀ args pid pkg,
      let os := outcomes (refreshProcessRulesBy fnmatch env.watched (reporting env) args pid pkg) s
      CountTruthful
          ((refreshProcessRules fnmatch env args pid pkg).run (s.under Traced.kernel)).1.1 os ↔
        ∀ o ∈ os, o.isFailure = false) ∧
    (∀ args pid pkg tid,
      let os := outcomes
        (applySingleTidBy fnmatch env.watched (reporting env) args pid pkg tid) s
      CountTruthful
          ((applySingleTid fnmatch env args pid pkg tid).run (s.under Traced.kernel)).1 os ↔
        ∀ o ∈ os, o.isFailure = false) ∧
    (∀ cfg topo now rctx decision,
      let os := outcomes
        (relockAllBy fnmatch env.watched (reporting env) cfg topo now rctx decision) s
      CountTruthful
          ((relockAll fnmatch env cfg topo now rctx decision).run (s.under Traced.kernel)).1 os ↔
        ∀ o ∈ os, o.isFailure = false) ∧
    ∀ events cfg topo now,
      let os := outcomes
        (handleEventsBy fnmatch env.watched (reporting env) events cfg topo now) s
      CountTruthful
          ((handleEvents fnmatch env events cfg topo now).run (s.under Traced.kernel)).1 os ↔
        ∀ o ∈ os, o.isFailure = false := by
  have hreporting := erases_reporting env
  refine ⟨fun args pid pkg => ?_, fun args pid pkg tid => ?_, fun cfg topo now rctx decision => ?_,
    fun events cfg topo now => ?_⟩
  · exact countTruthful_iff (counts_refreshProcessRules fnmatch env args pid pkg)
      (erases_refreshProcessRulesBy env.watched_over hreporting fnmatch args pid pkg) s
  · exact countTruthful_iff (counts_applySingleTid fnmatch env args pid pkg tid)
      (erases_applySingleTidBy env.watched_over hreporting fnmatch args pid pkg tid) s
  · exact countTruthful_iff (counts_relockAll fnmatch env cfg topo now rctx decision)
      (relockAll_reported fnmatch env cfg topo now rctx decision) s
  · exact countTruthful_iff (counts_handleEvents fnmatch env events cfg topo now)
      (handleEvents_reported fnmatch env events cfg topo now) s

def cpuZeroConfig : ConfigSnapshot where
  version := 1
  rules := (compile [.ofCpus "com.a" "" "0"] (.flat 4)).rules

/-- Process 7 with one thread, which may not be moved. -/
def Env.refusing : Env Unit :=
  { Env.silent with
    listTids := fun _ => pure [7]
    setAffinity := fun _ _ => pure (.error EPERM) }

/-- A thread that is blocked by permission is counted as applied. -/
theorem blocked_thread_counted :
    let args : EngineArgs := ⟨cpuZeroConfig, .default, 0, true⟩
    ¬ CountTruthful
      ((refreshProcessRules glob Env.refusing args 7 "com.a").run (System.init ())).1.1
      (outcomes (refreshProcessRulesBy glob Env.refusing.watched (reporting Env.refusing) args 7
        "com.a") (System.init ⟨(), []⟩)) := by
  intro args
  have hcount : ((refreshProcessRules glob Env.refusing args 7 "com.a").run
      (System.init ())).1.1 = 1 := by decide +kernel
  have houtcomes : outcomes (refreshProcessRulesBy glob Env.refusing.watched
      (reporting Env.refusing) args 7 "com.a") (System.init ⟨(), []⟩) = [.blockedByPerm] := by
    decide +kernel
  rw [hcount, houtcomes]
  unfold CountTruthful
  decide

end Threadctl.Core

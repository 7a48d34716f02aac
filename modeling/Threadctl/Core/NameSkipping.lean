import Threadctl.Core.PackageMatch
import Threadctl.Core.ScanCalls
import Threadctl.Core.ThreadDeath

/-!
# Thread names that are not read

For a package without thread rules the engine does not read the names of the threads.  The
policies it applies are those of any names that it could have read.
-/

namespace Threadctl.Core

open Threadctl.Support Threadctl.Support.StateRun

variable {κ : Type}

/-! ## Requests -/

/-- What `apply_thread` is called with. -/
structure Request where
  tid : Int
  pkg : String
  policy : Policy

def requests (s : System κ) : List Request := s.applyCalls.map fun c => ⟨c.tid, c.pkg, c.policy⟩

theorem overlooksAll_requests (env : Env κ) : OverlooksAll env requests where
  auditLog _ _ := rfl
  ensuredDirs _ _ := rfl
  uclampSupport _ _ := rfl
  shortCircuitTotal _ _ := rfl
  calls _ _ := rfl
  appendTask _ _ _ := rfl

theorem frame_modifyTracker_requests (m : StateTracker → StateTracker) :
    Frame (requests (κ := κ)) (modifyTracker m) := fun _ => rfl

theorem frame_enter_requests (env : Env κ) (pid : Int) (pkg : String) (now : Int) :
    Frame requests (enter env pid pkg now) :=
  frame_enter_of (fun _ => rfl) frame_modifyTracker_requests
    (fun state => frame_releaseState env (fun _ _ => rfl) (fun _ _ => rfl) (fun _ _ => rfl)
      (fun _ _ => rfl) state) pkg now

theorem frame_settleTid_requests (pid tid : Int) (policy : Policy) (outcome : ApplyOutcome) :
    Frame (requests (κ := κ)) (settleTid pid tid policy outcome) := by
  have hinsert : Frame (requests (κ := κ)) (insertAppliedTid pid tid) :=
    frame_modifyTracker_requests _
  cases outcome with
  | exited => exact Frame.pure
  | skippedNoCpus => exact Frame.bind hinsert fun _ => Frame.pure
  | applied | blockedByCgroup | downgraded | blockedByPerm | einval | failed =>
      refine Frame.bind hinsert fun _ => ?_
      exact Frame.bind (frame_modifyTracker_requests _) fun _ => Frame.pure

theorem applyThread_requests (env : Env κ) (tid : Int) (pkg : String) (policy : Policy)
    (topo : CpuTopology) (rtAllowed : Bool) (v : List Request) :
    Triple (fun s => requests s = v) (applyThread env tid pkg policy topo rtAllowed)
      fun _ s => requests s = v ++ [⟨tid, pkg, policy⟩] := by
  rintro s rfl
  have happlied := applyThread_view tid pkg (overlooksAll_requests env) policy topo rtAllowed s
  have hnoted : requests (s.noteApply tid pkg policy) = requests s ++ [⟨tid, pkg, policy⟩] :=
    List.map_append
  exact happlied.trans hnoted

/-! ## The fast paths -/

section FastPath

variable (fnmatch : String → String → Bool) (rs : RuleSet) (pkg : String)

def requestFor (tid : Int) (name : String) : Option Request :=
  (rs.resolve fnmatch pkg name).map fun policy => ⟨tid, pkg, policy⟩

theorem requestFor_eq (hnone : rs.hasThreadRules fnmatch pkg = false) (tid : Int)
    (name name' : String) :
    requestFor fnmatch rs pkg tid name = requestFor fnmatch rs pkg tid name' := by
  rw [requestFor, requestFor, resolve_of_no_thread_rules fnmatch pkg hnone name,
    resolve_of_no_thread_rules fnmatch pkg hnone name']

theorem resolve_of_not_interested (h : rs.isInterested fnmatch pkg = false) (thread : String) :
    rs.resolve fnmatch pkg thread = none := by
  have hempty : (rs.collectPkgMatches fnmatch pkg).isEmpty = true := by
    simpa [RuleSet.isInterested] using h
  rw [RuleSet.resolve, if_pos hempty]

variable {rs pkg} (env : Env κ) {args : EngineArgs} (hrules : args.cfg.rules = rs)
  (hnone : rs.hasThreadRules fnmatch pkg = false) (name : Int → String)

include hrules hnone

theorem scanTid_requests (acc : ScanState) (tid : Int) (v : List Request) :
    Triple (fun s => requests s = v) (scanTid fnmatch env args pkg acc tid)
      fun _ s => requests s = v ++ (requestFor fnmatch rs pkg tid (name tid)).toList := by
  subst hrules
  rw [requestFor_eq fnmatch _ pkg hnone tid (name tid) ""]
  unfold scanTid threadNameFor requestFor
  dsimp only
  rw [hnone, if_neg Bool.false_ne_true, pure_bind]
  cases args.cfg.rules.resolve fnmatch pkg "" with
  | none => exact Triple.pure fun s hs => by simpa using hs
  | some policy =>
      exact Triple.bind (applyThread_requests env tid pkg policy _ _ v) fun outcome =>
        Triple.pure fun s hs => hs

theorem foldlM_scanTid_requests (tids : List Int) (acc : ScanState) (v : List Request) :
    Triple (fun s => requests s = v) (tids.foldlM (scanTid fnmatch env args pkg) acc)
      fun _ s => requests s =
        v ++ tids.filterMap fun tid => requestFor fnmatch rs pkg tid (name tid) := by
  induction tids generalizing acc v with
  | nil => exact Triple.pure fun s hs => by simpa using hs
  | cons tid tids ih =>
      rw [List.foldlM_cons]
      refine Triple.bind (scanTid_requests fnmatch env hrules hnone name acc tid v) fun acc' => ?_
      refine (ih acc' _).mono (fun s hs => hs) fun _ s hs => ?_
      rw [hs, List.filterMap_cons]
      cases requestFor fnmatch rs pkg tid (name tid) <;> simp

/-- A full scan requests for every listed thread what its name would have asked for. -/
theorem refreshProcessRules_requests (pid : Int) (s : System κ) :
    requests ((refreshProcessRules fnmatch env args pid pkg).run s).2 =
      requests s ++ ((env.listTids pid).run s.kernel).1.filterMap fun tid =>
        requestFor fnmatch rs pkg tid (name tid) := by
  have hlist : Triple (fun t => t = s) (ask (env.listTids pid)) fun tids t =>
      tids = ((env.listTids pid).run s.kernel).1 ∧ requests t = requests s := by
    rintro t rfl
    exact ⟨rfl, rfl⟩
  have hscan : Triple (fun t => t = s) (refreshProcessRules fnmatch env args pid pkg) fun _ t =>
      requests t = requests s ++ ((env.listTids pid).run s.kernel).1.filterMap fun tid =>
        requestFor fnmatch rs pkg tid (name tid) := by
    refine Triple.bind hlist fun tids => Triple.pre fun htids => ?_
    subst htids
    refine Triple.bind ((frame_enter_requests env pid pkg args.now).keeps (· = requests s))
      fun state => ?_
    refine Triple.bind ((frame_modifyTracker_requests _).keeps (· = requests s)) fun _ => ?_
    refine Triple.bind (foldlM_scanTid_requests fnmatch env hrules hnone name _ _ _) fun acc => ?_
    refine Triple.bind ((frame_enter_requests env pid pkg args.now).keeps (· = _)) fun _ => ?_
    exact Triple.bind ((frame_modifyTracker_requests _).keeps (· = _)) fun _ =>
      Triple.pure fun t ht => ht
  exact hscan s rfl

/-- The incremental path requests for a thread that is not recorded what its name would
have asked for. -/
theorem applySingleTid_requests (pid tid : Int) (s : System κ) :
    requests ((applySingleTid fnmatch env args pid pkg tid).run s).2 =
      requests s ++
        if tid ∈ ((enter env pid pkg args.now).run s).1.appliedTids then []
        else (requestFor fnmatch rs pkg tid (name tid)).toList := by
  have henter : Triple (fun t => t = s) (enter env pid pkg args.now) fun state t =>
      state = ((enter env pid pkg args.now).run s).1 ∧ requests t = requests s := by
    rintro t rfl
    exact ⟨rfl, frame_enter_requests env pid pkg args.now t⟩
  have hsingle : Triple (fun t => t = s) (applySingleTid fnmatch env args pid pkg tid) fun _ t =>
      requests t = requests s ++
        if tid ∈ ((enter env pid pkg args.now).run s).1.appliedTids then []
        else (requestFor fnmatch rs pkg tid (name tid)).toList := by
    refine Triple.bind henter fun state => Triple.pre fun hstate => ?_
    rw [← hstate]
    by_cases hmem : tid ∈ state.appliedTids
    · rw [if_pos hmem, if_pos hmem, List.append_nil]
      exact Triple.pure fun t ht => ht
    · rw [if_neg hmem, if_neg hmem]
      subst hrules
      rw [requestFor_eq fnmatch _ pkg hnone tid (name tid) ""]
      unfold threadNameFor requestFor
      dsimp only
      rw [hnone, if_neg Bool.false_ne_true, pure_bind]
      refine Triple.bind ((frame_modifyTracker_requests _).keeps (· = requests s)) fun _ => ?_
      cases args.cfg.rules.resolve fnmatch pkg "" with
      | none =>
          rw [Option.map_none, Option.toList_none, List.append_nil]
          refine Triple.bind ((frame_modifyTracker_requests _).keeps (· = requests s)) fun _ => ?_
          exact Keeps.pure
      | some policy =>
          refine Triple.bind (applyThread_requests env tid pkg policy _ _ _) fun outcome => ?_
          exact (frame_settleTid_requests pid tid policy outcome).keeps (· = _)
  exact hsingle s rfl

end FastPath

/-- Without thread rules every name resolves alike, without any rule to nothing, and both
ways to visit threads request what the names would have asked for, whatever they are. -/
theorem name_skipping_sound (fnmatch : String → String → Bool) (rs : RuleSet) (q : String) :
    (rs.hasThreadRules fnmatch q = false →
      ∀ t, rs.resolve fnmatch q t = rs.resolve fnmatch q "") ∧
    (rs.isInterested fnmatch q = false → ∀ t, rs.resolve fnmatch q t = none) ∧
    ∀ (env : Env κ) (args : EngineArgs) (pid : Int) (s : System κ) (name : Int → String),
      args.cfg.rules = rs → rs.hasThreadRules fnmatch q = false →
        requests ((refreshProcessRules fnmatch env args pid q).run s).2 =
          requests s ++ ((env.listTids pid).run s.kernel).1.filterMap (fun tid =>
            requestFor fnmatch rs q tid (name tid)) ∧
        ∀ tid, requests ((applySingleTid fnmatch env args pid q tid).run s).2 =
          requests s ++
            if tid ∈ ((enter env pid q args.now).run s).1.appliedTids then []
            else (requestFor fnmatch rs q tid (name tid)).toList := by
  refine ⟨resolve_of_no_thread_rules fnmatch q, resolve_of_not_interested fnmatch rs q, ?_⟩
  intro env args pid s name hrules hnone
  exact ⟨refreshProcessRules_requests fnmatch env hrules hnone name pid s,
    fun tid => applySingleTid_requests fnmatch env hrules hnone name pid tid s⟩

/-- One rule for every thread of `com.a`. -/
def pkgOnlyRules : RuleSet := (compile [.ofCpus "com.a" "" "0-1"] (.flat 4)).rules

theorem name_skipping_at_com_a :
    pkgOnlyRules.resolve glob "com.a" "RenderThread" = pkgOnlyRules.resolve glob "com.a" "" ∧
      pkgOnlyRules.resolve glob "com.b" "RenderThread" = none ∧
      requests ((applySingleTid (κ := Unit) glob Env.silent
        ⟨⟨1, pkgOnlyRules, .default⟩, .flat 4, 0, true⟩ 7 "com.a" 8).run (System.init ())).2 =
          (requestFor glob pkgOnlyRules "com.a" 8 "RenderThread").toList := by
  have hnone : pkgOnlyRules.hasThreadRules glob "com.a" = false := by decide +kernel
  refine ⟨(name_skipping_sound (κ := Unit) glob pkgOnlyRules "com.a").1 hnone "RenderThread",
    (name_skipping_sound (κ := Unit) glob pkgOnlyRules "com.b").2.1 (by decide +kernel) _, ?_⟩
  exact ((name_skipping_sound (κ := Unit) glob pkgOnlyRules "com.a").2.2 Env.silent
    ⟨⟨1, pkgOnlyRules, .default⟩, .flat 4, 0, true⟩ 7 (System.init ()) (fun _ => "RenderThread")
    rfl hnone).2 8

end Threadctl.Core

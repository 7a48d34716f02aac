import Threadctl.Core.Coverage
import Threadctl.Core.EnterContract
import Threadctl.Core.OrphanDirs
import Threadctl.Core.ThreadNames

/-!
# Threads that a visit records

A process is scanned whole or a thread at a time.  Either way a thread gives the process the
directory of its policy.  The scan records all its threads at the end, while a single thread
that turns out to be gone is left out.
-/

namespace Threadctl.Core

open Threadctl.Support Threadctl.Support.StateRun

variable {κ : Type}

theorem mem_registerDir_dirs (acc : ProcessState × RefCount.Table String) (d e : String) :
    e ∈ (registerDir acc d).1.dirs ↔ e ∈ acc.1.dirs ∨ e = d ∧ e ≠ "" := by
  unfold registerDir
  split
  · rename_i hempty
    have hd : d = "" := by simpa using hempty
    subst hd
    tauto
  · rename_i hd
    have hd : d ≠ "" := by simpa using hd
    split
    · rename_i hmem
      constructor
      · exact Or.inl
      · rintro (he | ⟨rfl, -⟩)
        · exact he
        · exact hmem
    · rw [show e ∈ (acc.1.appliedDirs.insert d).names ↔ _ from DirSet.mem_insert]
      constructor
      · rintro (rfl | he)
        · exact Or.inr ⟨rfl, hd⟩
        · exact Or.inl he
      · exact fun h => h.symm.imp_left And.left

theorem mem_foldl_registerDir_dirs (ds : List String)
    (acc : ProcessState × RefCount.Table String) (e : String) :
    e ∈ (ds.foldl registerDir acc).1.dirs ↔ e ∈ acc.1.dirs ∨ e ∈ ds ∧ e ≠ "" := by
  induction ds generalizing acc with
  | nil => simp
  | cons d ds ih =>
      rw [List.foldl_cons, ih, mem_registerDir_dirs, List.mem_cons]
      tauto

theorem procMap_registerDirs_of_lookup (t : StateTracker) {pid : Int} {p : ProcessState}
    (hp : t.procMap pid = some p) (ds : List String) :
    ∃ q, (t.registerDirs pid ds).procMap = Function.update t.procMap pid (some q) ∧
      q.appliedTids = p.appliedTids ∧ ∀ e, e ∈ q.dirs ↔ e ∈ p.dirs ∨ e ∈ ds ∧ e ≠ "" := by
  refine ⟨(ds.foldl registerDir (p, t.cpusetRefs)).1, ?_, ?_, ?_⟩
  · have hknown : t.procs.lookup pid = some p := hp
    rw [StateTracker.registerDirs, hknown]
    exact StateTracker.procMap_insert ..
  · obtain ⟨dirs, hdirs⟩ := foldl_registerDir_fst ds (p, t.cpusetRefs)
    rw [hdirs]
  · exact mem_foldl_registerDir_dirs ds (p, t.cpusetRefs)

theorem procs_of_sight {α : Type} {x : Run κ α} {P P' : Int → Option ProcessState} {R : α → Prop}
    (h : ∀ calls, Triple (fun s => sight s = (P, calls)) x fun a s =>
      R a ∧ sight s = (P', calls)) :
    Triple (fun s => procsOf s = P) x fun a s => R a ∧ procsOf s = P' := by
  refine Triple.fix fun s hs => (h s.applyCalls).mono ?_ fun a t ht =>
    ⟨ht.1, (Prod.mk.inj ht.2).1⟩
  rintro t rfl
  exact Prod.ext hs rfl

theorem update_procs (pid : Int) (f : ProcessState → ProcessState)
    (P : Int → Option ProcessState) :
    Triple (fun s => procsOf s = P) (modifyTracker (κ := κ) fun t => t.update pid f) fun _ s =>
      procsOf s = Function.update P pid ((P pid).map f) := by
  rintro s rfl
  exact s.tracker.procMap_update pid f

/-- The outcomes of an application are given, and it leaves the tracker alone. -/
structure Settles (apply : Applier κ) (args : EngineArgs) (pkg : String)
    (outcome : Int → Policy → ApplyOutcome) : Prop where
  result : ∀ tid policy (s : System κ),
    ((apply tid pkg policy args.topo args.rtAllowed).run s).1 = outcome tid policy
  tracker : ∀ tid policy,
    Frame System.tracker (apply tid pkg policy args.topo args.rtAllowed)

theorem settles_applyThread {env : Env κ} {args : EngineArgs} {pkg : String}
    {outcome : Int → Policy → ApplyOutcome}
    (h : ∀ tid policy (s : System κ),
      ((applyThread env tid pkg policy args.topo args.rtAllowed).run s).1 = outcome tid policy) :
    Settles (applyThread env) args pkg outcome where
  result := h
  tracker tid policy s := congrArg Prod.fst
    (applyThread_noted pkg env tid policy args.topo args.rtAllowed s.tracker s.applyCalls s rfl)

theorem Settles.triple {apply : Applier κ} {args : EngineArgs} {pkg : String}
    {outcome : Int → Policy → ApplyOutcome} (h : Settles apply args pkg outcome) (tid : Int)
    (policy : Policy) {τ : Type} (f : StateTracker → τ) (v : τ) :
    Triple (fun s => f s.tracker = v) (apply tid pkg policy args.topo args.rtAllowed)
      fun o s => o = outcome tid policy ∧ f s.tracker = v := by
  intro s hs
  refine ⟨h.result tid policy s, ?_⟩
  rw [h.tracker tid policy s]
  exact hs

/-- A scan, and the registration that follows it on an event as in a relock pass. -/
def refreshAndRegisterBy (fnmatch : String → String → Bool) (env : Env κ) (apply : Applier κ)
    (args : EngineArgs) (pid : Int) (pkg : String) : Run κ Unit := do
  let scanned ← refreshProcessRulesBy fnmatch env apply args pid pkg
  modifyTracker fun t => t.registerDirs pid scanned.2

/-- The policy of a thread is applied with success, or with a failure that counts, and has the
directory `d`. -/
def UsesDir (policies : Int → Option Policy) (outcome : Int → Policy → ApplyOutcome) (tid : Int)
    (d : String) : Prop :=
  ∃ policy, policies tid = some policy ∧ (outcome tid policy).counts = true ∧
    policy.cpusetDir = d

def FoundGone (policies : Int → Option Policy) (outcome : Int → Policy → ApplyOutcome)
    (tid : Int) : Prop :=
  ∃ policy, policies tid = some policy ∧ outcome tid policy = .exited

theorem mem_countOutcome_iff {policies : Int → Option Policy}
    {outcome : Int → Policy → ApplyOutcome} {tid : Int} {policy : Policy}
    (hpolicy : policies tid = some policy) (acc : ScanState) (d : String) :
    d ∈ (countOutcome acc policy (outcome tid policy)).dirs ↔
      d ∈ acc.dirs ∨ UsesDir policies outcome tid d := by
  have huses : UsesDir policies outcome tid d ↔
      (outcome tid policy).counts = true ∧ policy.cpusetDir = d := by
    constructor
    · rintro ⟨policy', hpolicy', huses⟩
      rw [hpolicy] at hpolicy'
      obtain rfl := Option.some.inj hpolicy'
      exact huses
    · exact fun huses => ⟨policy, hpolicy, huses⟩
  rw [huses, mem_countOutcome_dirs]
  split
  · rename_i hcounts
    rw [List.mem_cons, hcounts]
    tauto
  · rename_i hcounts
    simp [hcounts]

/-! ## One thread that was applied -/

theorem insertAppliedTid_at (pid tid : Int) (p : ProcessState) :
    Triple (fun s => procsOf s pid = some p) (insertAppliedTid (κ := κ) pid tid) fun _ s =>
      procsOf s pid = some { p with appliedTids := insert tid p.appliedTids } := by
  refine Triple.modify fun s hs => ?_
  have hupdate := s.tracker.procMap_update pid fun p =>
    { p with appliedTids := insert tid p.appliedTids }
  have hp : s.tracker.procMap pid = some p := hs
  rw [procsOf, hupdate, Function.update_self, hp]
  rfl

/-- What becomes of the entry `p` of a process when a thread of it had the outcome `o`. -/
structure SettledEntry (tid : Int) (policy : Policy) (o : ApplyOutcome) (p q : ProcessState) :
    Prop where
  tids : tid ∈ q.appliedTids ↔ o ≠ .exited ∨ tid ∈ p.appliedTids
  dirs : ∀ d, d ∈ q.dirs ↔ d ∈ p.dirs ∨ (o.counts = true ∧ policy.cpusetDir = d) ∧ d ≠ ""

theorem settleTid_at (pid tid : Int) (policy : Policy) (o : ApplyOutcome) (p : ProcessState) :
    Triple (fun s => procsOf s pid = some p) (settleTid (κ := κ) pid tid policy o) fun _ s =>
      ∃ q, procsOf s pid = some q ∧ SettledEntry tid policy o p q := by
  have hcounted : o ≠ .exited → o.counts = true →
      Triple (fun s => procsOf s pid = some p) (do
        insertAppliedTid pid tid
        modifyTracker fun t => t.registerDirs pid [policy.cpusetDir]
        pure 1 : Run κ Nat) fun _ s =>
          ∃ q, procsOf s pid = some q ∧ SettledEntry tid policy o p q := by
    intro hgone hcounts
    refine Triple.bind (insertAppliedTid_at pid tid p) fun _ => ?_
    refine Triple.bind ?_ fun _ => Triple.pure fun _ h => h
    refine Triple.modify fun s hs => ?_
    obtain ⟨q, hq, htids, hdirs⟩ :=
      procMap_registerDirs_of_lookup s.tracker hs [policy.cpusetDir]
    refine ⟨q, (congrFun hq pid).trans (Function.update_self ..), ?_, fun d => ?_⟩
    · rw [htids]
      simp [hgone]
    · rw [hdirs d, List.mem_singleton, hcounts]
      simp [eq_comm]
  cases o with
  | exited => exact Triple.pure fun s hs => ⟨p, hs, by simp, fun d => by simp [ApplyOutcome.counts]⟩
  | skippedNoCpus =>
      refine Triple.bind (insertAppliedTid_at pid tid p) fun _ => Triple.pure fun s hs => ?_
      exact ⟨_, hs, by simp, fun d => by simp [ApplyOutcome.counts]⟩
  | applied | blockedByCgroup | downgraded | blockedByPerm | einval | failed =>
      exact hcounted (by decide) rfl

section Visits

variable (fnmatch : String → String → Bool) {env : Env κ} {view : ProcView}
  (hshows : env.Shows view) {apply : Applier κ} (args : EngineArgs) (pkg : String)
  {outcome : Int → Policy → ApplyOutcome} (hsettles : Settles apply args pkg outcome)

include hshows

omit hsettles in
theorem enter_procs (pid : Int) (P : Int → Option ProcessState) :
    Triple (fun s => procsOf s = P) (enter env pid pkg args.now) fun p s =>
      p = entered view (P pid) pid pkg args.now ∧
        procsOf s = Function.update P pid (some (entered view (P pid) pid pkg args.now)) :=
  procs_of_sight fun calls => enter_sight hshows pid pkg args.now P calls

omit hsettles in
theorem threadNameFor_procs (cache : ThreadNameCache) (tid : Int)
    (P : Int → Option ProcessState) :
    Triple (fun s => procsOf s = P)
      (threadNameFor env (args.cfg.rules.hasThreadRules fnmatch pkg) cache tid args.now)
      fun r s =>
        args.cfg.rules.resolve fnmatch pkg r.1 = policyFor fnmatch view args pkg cache tid ∧
          procsOf s = P :=
  procs_of_sight fun calls => threadNameFor_sight fnmatch hshows args pkg cache tid P calls

include hsettles

theorem scanTidBy_spec (acc : ScanState) (tid : Int) (tracker : StateTracker) :
    Triple (fun s => s.tracker = tracker) (scanTidBy fnmatch env apply args pkg acc tid)
      fun acc' s =>
        ((∀ t, policyFor fnmatch view args pkg acc'.tidNames t =
            policyFor fnmatch view args pkg acc.tidNames t) ∧
          ∀ d, d ∈ acc'.dirs ↔ d ∈ acc.dirs ∨
            UsesDir (policyFor fnmatch view args pkg acc.tidNames) outcome tid d) ∧
        s.tracker = tracker := by
  refine Triple.fix fun s hs => ?_
  have hname := threadNameFor_spec fnmatch args pkg hshows acc.tidNames tid (noted s)
  refine Triple.bind (hname.mono (fun t ht => ht ▸ rfl) fun _ _ h => h) fun named => ?_
  refine Triple.pre fun ⟨hpolicy, hnames⟩ => ?_
  dsimp only
  rw [hpolicy]
  cases hfor : policyFor fnmatch view args pkg acc.tidNames tid with
  | none =>
      refine Triple.pure fun t ht => ⟨⟨hnames, fun d => ?_⟩, (congrArg Prod.fst ht).trans hs⟩
      refine (or_iff_left ?_).symm
      rintro ⟨policy, hpolicy', -⟩
      exact absurd (hfor.symm.trans hpolicy') (by simp)
  | some policy =>
      have happly := hsettles.triple tid policy id tracker
      refine Triple.bind (happly.mono (fun t ht => (congrArg Prod.fst ht).trans hs)
        fun _ _ h => h) fun o => Triple.pre fun ho => Triple.pure fun t ht => ?_
      subst ho
      refine ⟨⟨fun u => ?_, mem_countOutcome_iff hfor _⟩, ht⟩
      rw [← hnames u]
      cases outcome tid policy <;> rfl

theorem foldlM_scanTidBy (tids : List Int) (acc : ScanState) (tracker : StateTracker) :
    Triple (fun s => s.tracker = tracker)
      (tids.foldlM (scanTidBy fnmatch env apply args pkg) acc) fun acc' s =>
        (∀ d, d ∈ acc'.dirs ↔ d ∈ acc.dirs ∨ ∃ tid ∈ tids,
          UsesDir (policyFor fnmatch view args pkg acc.tidNames) outcome tid d) ∧
        s.tracker = tracker := by
  induction tids generalizing acc with
  | nil => exact Triple.pure fun s hs => ⟨fun d => by simp, hs⟩
  | cons tid tids ih =>
      rw [List.foldlM_cons]
      refine Triple.bind (scanTidBy_spec fnmatch hshows args pkg hsettles acc tid tracker)
        fun acc' => Triple.pre fun ⟨hnames, hdirs⟩ => ?_
      have hpolicies : policyFor fnmatch view args pkg acc'.tidNames =
          policyFor fnmatch view args pkg acc.tidNames := funext hnames
      refine (ih acc').mono (fun _ hs => hs) fun acc'' s ⟨hdirs', hs⟩ => ⟨fun d => ?_, hs⟩
      rw [hdirs' d, hdirs d, hpolicies, List.exists_mem_cons_iff, or_assoc]

/-- The scan records the threads it listed, and collects the directories they use. -/
theorem refreshProcessRulesBy_spec (pid : Int) (P : Int → Option ProcessState) :
    Triple (fun s => procsOf s = P) (refreshProcessRulesBy fnmatch env apply args pid pkg)
      fun scanned s =>
        ∃ q, procsOf s pid = some q ∧ q.appliedTids = (view.tids pid).toFinset ∧
          q.dirs = (entered view (P pid) pid pkg args.now).dirs ∧
          ∀ d, d ∈ scanned.2 ↔ ∃ tid ∈ view.tids pid, UsesDir (policyFor fnmatch view args pkg
            (entered view (P pid) pid pkg args.now).tidNames) outcome tid d := by
  generalize hp : entered view (P pid) pid pkg args.now = p
  have hpkg : p.pkg = pkg ∨ p.startTime = 0 := hp ▸ entered_pkg view (P pid) pid pkg args.now
  refine Triple.bind (ask_answers (hshows.tids pid) (f := procsOf) (fun _ _ => rfl) P)
    fun tids => Triple.pre fun htids => ?_
  subst htids
  refine Triple.bind (enter_procs hshows args pkg pid P) fun state => Triple.pre fun hstate => ?_
  obtain rfl : state = p := hstate.trans hp
  rw [hp]
  refine Triple.bind (update_procs pid _ _) fun _ => ?_
  rw [Function.update_self, Function.update_idem]
  -- the loop leaves the tracker of this moment alone
  refine Triple.fix fun t ht => ?_
  have hloop := foldlM_scanTidBy fnmatch hshows args pkg hsettles (view.tids pid)
    ⟨state.tidNames, 0, []⟩ t.tracker
  refine Triple.bind (hloop.mono (fun u hu => congrArg System.tracker hu) fun _ _ h => h)
    fun acc => Triple.pre fun hdirs => ?_
  have hprocs : ∀ u : System κ, u.tracker = t.tracker → procsOf u = Function.update P pid
      (some { state with tidNames := .new args.now }) := fun u hu => by
    rw [procsOf, hu]
    exact ht
  refine Triple.bind ((enter_procs hshows args pkg pid _).mono hprocs fun _ _ h => h)
    fun _ => Triple.pre fun _ => ?_
  rw [Function.update_self, entered_same view (by exact hpkg)]
  refine Triple.bind (update_procs pid _ _) fun _ => Triple.pure fun u hu => ?_
  rw [Function.update_self] at hu
  refine ⟨_, (congrFun hu pid).trans (Function.update_self ..), rfl, rfl, fun d => ?_⟩
  rw [hdirs d]
  exact or_iff_right List.not_mem_nil

theorem refreshAndRegisterBy_spec (pid : Int) (P : Int → Option ProcessState) :
    Triple (fun s => procsOf s = P) (refreshAndRegisterBy fnmatch env apply args pid pkg)
      fun _ s =>
        ∃ q, procsOf s pid = some q ∧ q.appliedTids = (view.tids pid).toFinset ∧
          ∀ d, d ∈ q.dirs ↔ d ∈ (entered view (P pid) pid pkg args.now).dirs ∨
            (∃ tid ∈ view.tids pid, UsesDir (policyFor fnmatch view args pkg
              (entered view (P pid) pid pkg args.now).tidNames) outcome tid d) ∧ d ≠ "" := by
  have hscan := refreshProcessRulesBy_spec fnmatch hshows args pkg hsettles pid P
  refine Triple.bind hscan fun scanned => Triple.exists fun q => ?_
  refine Triple.modify fun s ⟨hq, htids, hdirs, hscanned⟩ => ?_
  obtain ⟨q', hq', htids', hdirs'⟩ := procMap_registerDirs_of_lookup s.tracker hq scanned.2
  refine ⟨q', ?_, htids'.trans htids, fun d => ?_⟩
  · exact (congrFun hq' pid).trans (Function.update_self ..)
  · rw [hdirs' d, hdirs, hscanned d]

/-- A single thread is recorded unless it is found gone. -/
theorem applySingleTidBy_spec (pid tid : Int) (P : Int → Option ProcessState)
    (hnew : tid ∉ (entered view (P pid) pid pkg args.now).appliedTids) :
    Triple (fun s => procsOf s = P) (applySingleTidBy fnmatch env apply args pid pkg tid)
      fun _ s =>
        ∃ q, procsOf s pid = some q ∧
          (tid ∈ q.appliedTids ↔ ¬ FoundGone (policyFor fnmatch view args pkg
            (entered view (P pid) pid pkg args.now).tidNames) outcome tid) ∧
          ∀ d, d ∈ q.dirs ↔ d ∈ (entered view (P pid) pid pkg args.now).dirs ∨
            UsesDir (policyFor fnmatch view args pkg
              (entered view (P pid) pid pkg args.now).tidNames) outcome tid d ∧ d ≠ "" := by
  generalize hp : entered view (P pid) pid pkg args.now = p at hnew ⊢
  refine Triple.bind (enter_procs hshows args pkg pid P) fun state => Triple.pre fun hstate => ?_
  obtain rfl : state = p := hstate.trans hp
  rw [hp, if_neg hnew]
  refine Triple.bind (threadNameFor_procs fnmatch hshows args pkg state.tidNames tid _)
    fun named => Triple.pre fun hpolicy => ?_
  refine Triple.bind (update_procs pid _ _) fun _ => ?_
  rw [hpolicy, Function.update_self, Function.update_idem, Option.map_some]
  cases hfor : policyFor fnmatch view args pkg state.tidNames tid with
  | none =>
      have hinsert := insertAppliedTid_at (κ := κ) pid tid { state with tidNames := named.2 }
      refine Triple.bind (hinsert.mono (fun s hs => ?_) fun _ _ h => h) fun _ =>
        Triple.pure fun s hs => ⟨_, hs, ?_, fun d => ?_⟩
      · rw [hs, Function.update_self]
      · simp [FoundGone, hfor]
      · simp [UsesDir, hfor]
  | some policy =>
      refine Triple.bind (hsettles.triple tid policy _ _) fun o => Triple.pre fun ho => ?_
      subst ho
      have hentry := settleTid_at (κ := κ) pid tid policy (outcome tid policy)
        { state with tidNames := named.2 }
      refine hentry.mono (fun s hs => ?_) fun _ s ⟨q, hq, hsettled⟩ => ⟨q, hq, ?_, fun d => ?_⟩
      · rw [procsOf, hs, Function.update_self]
      · rw [hsettled.tids]
        simp [FoundGone, hfor, hnew]
      · rw [hsettled.dirs d]
        simp [UsesDir, hfor]

end Visits

/-! ## Alike -/

/-- What the two ways to visit a thread make of the entry `before`: `full` after a scan of the
threads `tids`, `single` after a visit of `tid` alone. -/
structure RecordedAlike (tids : List Int) (policies : Int → Option Policy)
    (outcome : Int → Policy → ApplyOutcome) (tid : Int) (before full single : ProcessState) :
    Prop where
  recorded : tid ∈ full.appliedTids ↔ tid ∈ single.appliedTids
  gone : FoundGone policies outcome tid → tid ∉ full.appliedTids ∧ tid ∉ single.appliedTids
  fullDirs : ∀ d, d ∈ full.dirs ↔
    d ∈ before.dirs ∨ (∃ t ∈ tids, UsesDir policies outcome t d) ∧ d ≠ ""
  singleDirs : ∀ d, d ∈ single.dirs ↔
    d ∈ before.dirs ∨ UsesDir policies outcome tid d ∧ d ≠ ""

/-- While `/proc` stands still and whatever the outcomes of the applications are, a scan and a
visit of a listed thread that is not recorded yet leave it and its directory alike, unless it
is found gone: the scan records it all the same. -/
theorem recorded_alike_iff (fnmatch : String → String → Bool) {env : Env κ} {view : ProcView}
    (hshows : env.Shows view) {apply : Applier κ} (args : EngineArgs) (pid : Int) (pkg : String)
    {outcome : Int → Policy → ApplyOutcome} (hsettles : Settles apply args pkg outcome)
    (s : System κ) (tid : Int) (htid : tid ∈ view.tids pid)
    (hnew : ∀ p, s.tracker.procs.lookup pid = some p → tid ∉ p.appliedTids) :
    let before := entered view (s.tracker.procs.lookup pid) pid pkg args.now
    let policies := policyFor fnmatch view args pkg before.tidNames
    ∃ full single,
      ((refreshAndRegisterBy fnmatch env apply args pid pkg).run s).2.tracker.procs.lookup pid =
        some full ∧
      ((applySingleTidBy fnmatch env apply args pid pkg tid).run s).2.tracker.procs.lookup pid =
        some single ∧
      (RecordedAlike (view.tids pid) policies outcome tid before full single ↔
        ∀ policy, policies tid = some policy → outcome tid policy ≠ .exited) := by
  intro before policies
  have hnew' : tid ∉ before.appliedTids := by
    intro hmem
    obtain ⟨p, hp, happlied⟩ := entered_applied hmem
    exact hnew p hp happlied
  obtain ⟨full, hfull, htids, hfullDirs⟩ :=
    refreshAndRegisterBy_spec fnmatch hshows args pkg hsettles pid s.tracker.procMap s rfl
  obtain ⟨single, hsingle, hrecorded, hsingleDirs⟩ :=
    applySingleTidBy_spec fnmatch hshows args pkg hsettles pid tid s.tracker.procMap hnew' s rfl
  have hgone : (∀ policy, policies tid = some policy → outcome tid policy ≠ .exited) ↔
      ¬ FoundGone policies outcome tid := by
    simp [FoundGone]
  have hscanned : tid ∈ full.appliedTids := by
    rw [htids]
    exact List.mem_toFinset.mpr htid
  refine ⟨full, single, hfull, hsingle, ?_⟩
  rw [hgone]
  constructor
  · exact fun h => hrecorded.mp (h.recorded.mp hscanned)
  · exact fun h => ⟨iff_of_true hscanned (hrecorded.mpr h), fun hfound => absurd hfound h,
      hfullDirs, hsingleDirs⟩

theorem recorded_alike_at_com_a :
    let args : EngineArgs := ⟨cpuZeroConfig, .flat 4, 1, true⟩
    ∃ full single, RecordedAlike [7] (policyFor glob oneThreadView args "com.a" (.new 1))
      (fun _ _ => .applied) 7 (.new 7 5 "com.a" 1) full single := by
  intro args
  have hsettles : Settles (κ := Unit) (fun _ _ _ _ _ => pure .applied) args "com.a"
      fun _ _ => .applied := ⟨fun _ _ _ => rfl, fun _ _ _ => rfl⟩
  have huntracked : ∀ p, (System.init ()).tracker.procs.lookup 7 = some p → 7 ∉ p.appliedTids := by
    intro p hp
    cases hp
  obtain ⟨full, single, -, -, halike⟩ := recorded_alike_iff glob oneThreadView.env_shows args 7
    "com.a" hsettles (System.init ()) 7 (by decide) huntracked
  refine ⟨full, single, halike.mpr fun policy _ => ?_⟩
  decide

/-- Process 7 of `com.a` with one thread that is gone when its affinity is set. -/
def Env.departing : Env Unit :=
  { oneThreadView.env with setAffinity := fun _ _ => pure (.error ESRCH) }

/-- The scan records a thread that is gone. -/
theorem departed_thread_recorded :
    let args : EngineArgs := ⟨cpuZeroConfig, .default, 1, true⟩
    let scanned := ((refreshAndRegisterBy glob Env.departing (applyThread Env.departing) args 7
      "com.a").run (System.init ())).2
    let visited := ((applySingleTid glob Env.departing args 7 "com.a" 7).run (System.init ())).2
    ((scanned.tracker.procs.lookup 7).map (·.appliedTids) = some {7}) ∧
      (visited.tracker.procs.lookup 7).map (·.appliedTids) = some ∅ := by
  decide +kernel

end Threadctl.Core

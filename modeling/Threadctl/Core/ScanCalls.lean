import Mathlib.Logic.Function.Basic
import Threadctl.Core.EngineRuns

/-!
# What a scan applies

While `/proc` stands still, the calls of `apply_thread` that a scan makes can be read
off the tracker before it: every listed thread gets the policy of the name that the
cache has for it, or else of the name it shows.
-/

namespace Threadctl.Core

open Threadctl.Support Threadctl.Support.StateRun

variable {κ : Type}

/-! ## What `/proc` shows -/

/-- The answers of `/proc` and of `kill(pid, 0)` at one moment. -/
structure ProcView where
  tids : Int → List Int
  comm : Int → Option String
  cmdline : Int → Option String
  startTime : Int → Option Nat
  alive : Int → Bool
  oomAdj : Int → Int

/-- A question with a fixed answer, whatever it does to the kernel. -/
def Answers {α : Type} (x : StateM κ α) (a : α) : Prop := ∀ k, (x.run k).1 = a

structure Env.Shows (env : Env κ) (view : ProcView) : Prop where
  tids : ∀ pid, Answers (env.listTids pid) (view.tids pid)
  comm : ∀ tid, Answers (env.readThreadName tid) (view.comm tid)
  cmdline : ∀ pid, Answers (env.readCmdline pid) (view.cmdline pid)
  startTime : ∀ pid, Answers (env.readStartTime pid) (view.startTime pid)
  alive : ∀ pid, Answers (env.isAlive pid) (view.alive pid)
  oomAdj : ∀ pid, Answers (env.readOomAdj pid) (view.oomAdj pid)

def newCalls (s s' : System κ) : List ApplyCall := s'.applyCalls.drop s.applyCalls.length

/-- The kernel that answers from a view and accepts every call. -/
def ProcView.env (view : ProcView) : Env κ :=
  { Env.silent with
    listTids := fun pid => pure (view.tids pid)
    readThreadName := fun tid => pure (view.comm tid)
    readCmdline := fun pid => pure (view.cmdline pid)
    readStartTime := fun pid => pure (view.startTime pid)
    isAlive := fun pid => pure (view.alive pid)
    readOomAdj := fun pid => pure (view.oomAdj pid) }

theorem ProcView.env_shows (view : ProcView) : (view.env (κ := κ)).Shows view where
  tids _ _ := rfl
  comm _ _ := rfl
  cmdline _ _ := rfl
  startTime _ _ := rfl
  alive _ _ := rfl
  oomAdj _ _ := rfl

def noted (s : System κ) : StateTracker × List ApplyCall := (s.tracker, s.applyCalls)

theorem overlooksAll_noted (env : Env κ) : OverlooksAll env noted where
  auditLog _ _ := rfl
  ensuredDirs _ _ := rfl
  uclampSupport _ _ := rfl
  shortCircuitTotal _ _ := rfl
  calls _ _ := rfl
  appendTask _ _ _ := rfl

theorem ask_answers {α τ : Type} {x : StateM κ α} {a : α} (hx : Answers x a) {f : System κ → τ}
    (hf : ∀ s kernel, f { s with kernel := kernel } = f s) (v : τ) :
    Triple (fun s => f s = v) (ask x) fun b s => b = a ∧ f s = v :=
  fun s hs => ⟨hx s.kernel, (hf s _).trans hs⟩

theorem noted_ask {α : Type} {x : StateM κ α} {a : α} (hx : Answers x a)
    (v : StateTracker × List ApplyCall) :
    Triple (fun s => noted s = v) (ask x) fun b s => b = a ∧ noted s = v :=
  ask_answers hx (fun _ _ => rfl) v

/-! ## The names a scan works with -/

/-- The name that the cache has for a thread at time `now`, if it has one. -/
def ThreadNameCache.known (cache : ThreadNameCache) (now tid : Int) : Option String :=
  (cache.expire now).names.lookup tid

def ThreadNameCache.nameOf (cache : ThreadNameCache) (comm : Int → Option String)
    (now tid : Int) : String :=
  (cache.known now tid).getD ((comm tid).getD "")

theorem ThreadNameCache.expire_expire (cache : ThreadNameCache) (now : Int) :
    (cache.expire now).expire now = cache.expire now := by
  by_cases h : threadNameCacheTtlSecs ≤ now - cache.lastFullRefresh
  · have hnew : cache.expire now = .new now := if_pos h
    rw [hnew, ThreadNameCache.expire, ThreadNameCache.new, sub_self]
    exact if_neg (by decide)
  · have hold : cache.expire now = cache := if_neg h
    rw [hold, hold]

theorem ThreadNameCache.nameOf_insert (cache : ThreadNameCache) (comm : Int → Option String)
    (now tid t : Int) (hnone : cache.known now tid = none) :
    ThreadNameCache.nameOf { cache.expire now with
        names := (cache.expire now).names.insert tid ((comm tid).getD "") } comm now t =
      cache.nameOf comm now t := by
  have hexpire : ThreadNameCache.expire { cache.expire now with
      names := (cache.expire now).names.insert tid ((comm tid).getD "") } now =
        { cache.expire now with
          names := (cache.expire now).names.insert tid ((comm tid).getD "") } := by
    have hfresh : ¬ threadNameCacheTtlSecs ≤ now - (cache.expire now).lastFullRefresh := by
      intro hold
      have hlast := congrArg ThreadNameCache.lastFullRefresh (cache.expire_expire now)
      rw [ThreadNameCache.expire, if_pos hold] at hlast
      simp only [ThreadNameCache.new] at hlast
      unfold threadNameCacheTtlSecs at hold
      omega
    exact if_neg hfresh
  rw [ThreadNameCache.nameOf, ThreadNameCache.known, hexpire]
  by_cases ht : t = tid
  · subst ht
    rw [AList.lookup_insert, ThreadNameCache.nameOf, hnone]
    rfl
  · rw [AList.lookup_insert_ne ht]
    rfl

theorem getOrRead_spec {env : Env κ} {view : ProcView} (hshows : env.Shows view)
    (cache : ThreadNameCache) (tid now : Int) (v : StateTracker × List ApplyCall) :
    Triple (fun s => noted s = v) (getOrRead env cache tid now) fun r s =>
      (r.1 = cache.nameOf view.comm now tid ∧
        ∀ t, r.2.nameOf view.comm now t = cache.nameOf view.comm now t) ∧ noted s = v := by
  unfold getOrRead
  dsimp only
  cases hknown : (cache.expire now).names.lookup tid with
  | some name =>
      apply Triple.pure
      intro s hs
      refine ⟨⟨?_, ?_⟩, hs⟩
      · rw [ThreadNameCache.nameOf, ThreadNameCache.known, hknown]
        rfl
      · intro t
        rw [ThreadNameCache.nameOf, ThreadNameCache.known, cache.expire_expire]
        rfl
  | none =>
      refine Triple.bind (noted_ask (hshows.comm tid) v) fun read => Triple.pure fun s hs => ?_
      obtain ⟨rfl, hs⟩ := hs
      refine ⟨⟨?_, ?_⟩, hs⟩
      · rw [ThreadNameCache.nameOf, ThreadNameCache.known, hknown]
        rfl
      · exact fun t => cache.nameOf_insert view.comm now tid t hknown

/-! ## The calls of a scan -/

section Scans

variable (fnmatch : String → String → Bool) (view : ProcView) (args : EngineArgs) (pkg : String)

/-- The policy that a scan has for a thread. -/
def policyFor (cache : ThreadNameCache) (tid : Int) : Option Policy :=
  args.cfg.rules.resolve fnmatch pkg
    (if args.cfg.rules.hasThreadRules fnmatch pkg then cache.nameOf view.comm args.now tid else "")

theorem resolve_of_no_thread_rules {rs : RuleSet}
    (hnone : rs.hasThreadRules fnmatch pkg = false) (thread : String) :
    rs.resolve fnmatch pkg thread = rs.resolve fnmatch pkg "" := by
  have hmiss : ∀ m ∈ rs.collectPkgMatches fnmatch pkg, ∀ t,
      rs.rules[m.index]!.hitsThread fnmatch t = false := by
    intro m hm t
    have hempty : (!rs.rules[m.index]!.thread.isEmpty) = false := by
      have hall := List.any_eq_false.mp hnone m hm
      simpa using hall
    rw [CompiledRule.hitsThread, hempty, Bool.false_and]
  have hhits : (rs.collectPkgMatches fnmatch pkg).filter
      (fun m => rs.rules[m.index]!.hitsThread fnmatch thread) =
        (rs.collectPkgMatches fnmatch pkg).filter
          fun m => rs.rules[m.index]!.hitsThread fnmatch "" :=
    List.filter_congr fun m hm => by rw [hmiss m hm, hmiss m hm]
  simp only [RuleSet.resolve, hhits]

/-- The policy is that of the shown name unless the cache has a name for another one. -/
theorem policyFor_eq_iff (cache : ThreadNameCache) (tid : Int) :
    policyFor fnmatch view args pkg cache tid =
        args.cfg.rules.resolve fnmatch pkg ((view.comm tid).getD "") ↔
      (args.cfg.rules.hasThreadRules fnmatch pkg = true →
        ∀ name, cache.known args.now tid = some name →
          args.cfg.rules.resolve fnmatch pkg name =
            args.cfg.rules.resolve fnmatch pkg ((view.comm tid).getD "")) := by
  unfold policyFor ThreadNameCache.nameOf
  cases hrules : args.cfg.rules.hasThreadRules fnmatch pkg with
  | false =>
      have hsame := resolve_of_no_thread_rules fnmatch pkg hrules ((view.comm tid).getD "")
      exact ⟨fun _ h => absurd h Bool.false_ne_true, fun _ => hsame.symm⟩
  | true =>
      rw [if_pos rfl]
      cases cache.known args.now tid with
      | none => exact ⟨fun _ _ _ h => absurd h (by simp), fun _ => rfl⟩
      | some name =>
          constructor
          · intro heq _ name' hname
            rw [← Option.some.inj hname]
            exact heq
          · exact fun hall => hall rfl name rfl

def callFor (cache : ThreadNameCache) (tracker : StateTracker) (tid : Int) : Option ApplyCall :=
  (policyFor fnmatch view args pkg cache tid).map fun policy => ⟨tid, pkg, policy, tracker⟩

variable {view} {env : Env κ} (hshows : env.Shows view)

include hshows in
theorem threadNameFor_spec (cache : ThreadNameCache) (tid : Int)
    (v : StateTracker × List ApplyCall) :
    Triple (fun s => noted s = v)
      (threadNameFor env (args.cfg.rules.hasThreadRules fnmatch pkg) cache tid args.now)
      fun r s =>
        (args.cfg.rules.resolve fnmatch pkg r.1 = policyFor fnmatch view args pkg cache tid ∧
          ∀ t, policyFor fnmatch view args pkg r.2 t = policyFor fnmatch view args pkg cache t) ∧
        noted s = v := by
  unfold threadNameFor policyFor
  cases args.cfg.rules.hasThreadRules fnmatch pkg with
  | false => exact Triple.pure fun s hs => ⟨⟨rfl, fun _ => rfl⟩, hs⟩
  | true =>
      refine (getOrRead_spec hshows cache tid args.now v).mono (fun s hs => hs) ?_
      intro r s ⟨⟨hname, hcache⟩, hs⟩
      refine ⟨⟨?_, fun t => ?_⟩, hs⟩
      · rw [hname]
        rfl
      · rw [if_pos rfl, hcache t]
        rfl

theorem applyThread_noted (env : Env κ) (tid : Int) (policy : Policy) (topo : CpuTopology)
    (rtAllowed : Bool) (tracker : StateTracker) (calls : List ApplyCall) :
    Triple (fun s => noted s = (tracker, calls)) (applyThread env tid pkg policy topo rtAllowed)
      fun _ s => noted s = (tracker, calls ++ [⟨tid, pkg, policy, tracker⟩]) := by
  intro s hs
  obtain ⟨rfl, rfl⟩ := Prod.mk.inj hs
  exact applyThread_view tid pkg (overlooksAll_noted env) policy topo rtAllowed s

include hshows in
theorem scanTid_spec (acc : ScanState) (tid : Int) (tracker : StateTracker)
    (calls : List ApplyCall) :
    Triple (fun s => noted s = (tracker, calls)) (scanTid fnmatch env args pkg acc tid)
      fun acc' s =>
        (∀ t, policyFor fnmatch view args pkg acc'.tidNames t =
          policyFor fnmatch view args pkg acc.tidNames t) ∧
        noted s =
          (tracker, calls ++ (callFor fnmatch view args pkg acc.tidNames tracker tid).toList) := by
  refine Triple.bind (threadNameFor_spec fnmatch args pkg hshows acc.tidNames tid _) fun named => ?_
  refine Triple.pre fun ⟨hpolicy, hnames⟩ => ?_
  dsimp only
  rw [hpolicy]
  unfold callFor
  cases policyFor fnmatch view args pkg acc.tidNames tid with
  | none => exact Triple.pure fun s hs => ⟨hnames, by simpa using hs⟩
  | some policy =>
      refine Triple.bind (applyThread_noted pkg env tid policy _ _ tracker calls) fun outcome => ?_
      apply Triple.pure
      intro s hs
      refine ⟨fun t => ?_, hs⟩
      rw [← hnames t]
      cases outcome <;> rfl

include hshows in
theorem foldlM_scanTid (tids : List Int) (acc : ScanState) (tracker : StateTracker)
    (calls : List ApplyCall) :
    Triple (fun s => noted s = (tracker, calls)) (tids.foldlM (scanTid fnmatch env args pkg) acc)
      fun _ s => noted s =
        (tracker,
          calls ++ tids.filterMap (callFor fnmatch view args pkg acc.tidNames tracker)) := by
  induction tids generalizing acc calls with
  | nil => exact Triple.pure fun s hs => by simpa using hs
  | cons tid tids ih =>
      rw [List.foldlM_cons]
      refine Triple.bind (scanTid_spec fnmatch args pkg hshows acc tid tracker calls) fun acc' => ?_
      refine Triple.pre fun hnames => ?_
      have hcalls : callFor fnmatch view args pkg acc'.tidNames tracker =
          callFor fnmatch view args pkg acc.tidNames tracker := by
        funext t
        rw [callFor, callFor, hnames t]
      refine (ih acc' _).mono (fun s hs => hs) fun _ s hs => ?_
      rw [hs, hcalls, List.filterMap_cons]
      cases callFor fnmatch view args pkg acc.tidNames tracker tid <;> simp

end Scans

/-! ## What a scan makes of the tracker -/

def StateTracker.procMap (t : StateTracker) (pid : Int) : Option ProcessState := t.procs.lookup pid

def sight (s : System κ) : (Int → Option ProcessState) × List ApplyCall :=
  (s.tracker.procMap, s.applyCalls)

theorem lookup_of_sight {s : System κ} {P : Int → Option ProcessState} {calls : List ApplyCall}
    (hs : sight s = (P, calls)) (pid : Int) : s.tracker.procs.lookup pid = P pid :=
  congrFun (Prod.mk.inj hs).1 pid

theorem sight_ask {α : Type} {x : StateM κ α} {a : α} (hx : Answers x a)
    (v : (Int → Option ProcessState) × List ApplyCall) :
    Triple (fun s => sight s = v) (ask x) fun b s => b = a ∧ sight s = v :=
  ask_answers hx (fun _ _ => rfl) v

theorem mem_order_keys (env : Env κ) (s : System κ) (pid : Int) :
    pid ∈ env.order s.kernel s.tracker.procs.keys ↔ (s.tracker.procMap pid).isSome = true := by
  rw [(env.order_perm _ _).mem_iff]
  exact AList.lookup_isSome.symm

theorem StateTracker.procMap_insert (t : StateTracker) (pid : Int) (p : ProcessState)
    (refs : RefCount.Table String) :
    StateTracker.procMap ⟨t.procs.insert pid p, refs⟩ =
      Function.update t.procMap pid (some p) := by
  funext q
  by_cases hq : q = pid
  · subst hq
    rw [Function.update_self, StateTracker.procMap, AList.lookup_insert]
  · rw [Function.update_of_ne hq, StateTracker.procMap, AList.lookup_insert_ne hq]
    rfl

theorem StateTracker.procMap_erase (t : StateTracker) (pid : Int) :
    StateTracker.procMap { t with procs := t.procs.erase pid } =
      Function.update t.procMap pid none := by
  funext q
  by_cases hq : q = pid
  · subst hq
    rw [Function.update_self, StateTracker.procMap, AList.lookup_erase]
  · rw [Function.update_of_ne hq, StateTracker.procMap, AList.lookup_erase_ne hq]
    rfl

theorem StateTracker.procMap_update (t : StateTracker) (pid : Int)
    (f : ProcessState → ProcessState) :
    (t.update pid f).procMap = Function.update t.procMap pid ((t.procMap pid).map f) := by
  unfold StateTracker.update
  cases h : t.procs.lookup pid with
  | none =>
      have hnone : (t.procMap pid).map f = t.procMap pid := by
        rw [StateTracker.procMap, h]
        rfl
      rw [hnone, Function.update_eq_self]
  | some p =>
      dsimp only
      rw [StateTracker.procMap_insert, StateTracker.procMap, h]
      rfl

theorem registerDir_fst (acc : ProcessState × RefCount.Table String) (d : String) :
    ∃ dirs, (registerDir acc d).1 = { acc.1 with appliedDirs := dirs } := by
  unfold registerDir
  split
  · exact ⟨acc.1.appliedDirs, rfl⟩
  · split
    · exact ⟨acc.1.appliedDirs, rfl⟩
    · exact ⟨_, rfl⟩

theorem foldl_registerDir_fst (ds : List String) (acc : ProcessState × RefCount.Table String) :
    ∃ dirs, (ds.foldl registerDir acc).1 = { acc.1 with appliedDirs := dirs } := by
  induction ds generalizing acc with
  | nil => exact ⟨acc.1.appliedDirs, rfl⟩
  | cons d ds ih =>
      obtain ⟨dirs, hdirs⟩ := ih (registerDir acc d)
      obtain ⟨dirs', hdirs'⟩ := registerDir_fst acc d
      exact ⟨dirs, by rw [List.foldl_cons, hdirs, hdirs']⟩

theorem StateTracker.procMap_registerDirs (t : StateTracker) (pid : Int) (ds : List String) :
    ∃ dirs, (t.registerDirs pid ds).procMap =
      Function.update t.procMap pid
        ((t.procMap pid).map fun p => { p with appliedDirs := dirs }) := by
  unfold StateTracker.registerDirs
  cases h : t.procs.lookup pid with
  | none =>
      refine ⟨.empty, ?_⟩
      rw [StateTracker.procMap, h]
      exact (Function.update_eq_self_iff.mpr h.symm).symm
  | some p =>
      obtain ⟨dirs, hdirs⟩ := foldl_registerDir_fst ds (p, t.cpusetRefs)
      refine ⟨dirs, ?_⟩
      dsimp only
      rw [StateTracker.procMap_insert, hdirs, StateTracker.procMap, h]
      rfl

theorem sight_modifyTracker {f : StateTracker → StateTracker} {P P' : Int → Option ProcessState}
    (hf : ∀ t, t.procMap = P → (f t).procMap = P') (calls : List ApplyCall) :
    Triple (fun s => sight s = (P, calls)) (modifyTracker (κ := κ) f) fun _ s =>
      sight s = (P', calls) := by
  intro s hs
  obtain ⟨hprocs, hcalls⟩ := Prod.mk.inj hs
  exact Prod.ext (hf s.tracker hprocs) hcalls

theorem update_sight (pid : Int) (f : ProcessState → ProcessState)
    (P : Int → Option ProcessState) (calls : List ApplyCall) :
    Triple (fun s => sight s = (P, calls)) (modifyTracker (κ := κ) fun t => t.update pid f)
      fun _ s => sight s = (Function.update P pid ((P pid).map f), calls) :=
  sight_modifyTracker (fun t ht => by rw [t.procMap_update, ht]) calls

theorem registerDirs_sight (pid : Int) (ds : List String) (P : Int → Option ProcessState)
    (calls : List ApplyCall) :
    Triple (fun s => sight s = (P, calls)) (modifyTracker (κ := κ) fun t => t.registerDirs pid ds)
      fun _ s => ∃ dirs, sight s =
        (Function.update P pid ((P pid).map fun p => { p with appliedDirs := dirs }), calls) := by
  intro s hs
  obtain ⟨rfl, rfl⟩ := Prod.mk.inj hs
  obtain ⟨dirs, hdirs⟩ := s.tracker.procMap_registerDirs pid ds
  exact ⟨dirs, Prod.ext hdirs rfl⟩

theorem frame_releaseState_sight (env : Env κ) (state : ProcessState) :
    Frame sight (releaseState env state) :=
  frame_releaseState env (fun _ _ => rfl) (fun _ _ => rfl) (fun _ _ => rfl) (fun _ _ => rfl) state

theorem erase_sight (pid : Int) (P : Int → Option ProcessState) (calls : List ApplyCall) :
    Triple (fun s => sight s = (P, calls))
      (modifyTracker (κ := κ) fun t => { t with procs := t.procs.erase pid }) fun _ s =>
        sight s = (Function.update P pid none, calls) := by
  refine sight_modifyTracker (fun t ht => ?_) calls
  rw [StateTracker.procMap_erase, ht]

theorem releaseState_sight (env : Env κ) (state : ProcessState)
    (v : (Int → Option ProcessState) × List ApplyCall) :
    Keeps (fun s => sight s = v) (releaseState env state) :=
  (frame_releaseState_sight env state).keeps fun w => w = v

theorem remove_sight (env : Env κ) (pid : Int) (P : Int → Option ProcessState)
    (calls : List ApplyCall) :
    Triple (fun s => sight s = (P, calls)) (remove env pid) fun _ s =>
      sight s = (Function.update P pid none, calls) := by
  refine Triple.peek fun s hs => ?_
  rw [lookup_of_sight hs pid]
  cases hknown : P pid with
  | none =>
      refine Triple.pure fun t ht => ?_
      rw [ht, Function.update_eq_self_iff.mpr hknown.symm]
  | some state =>
      refine Triple.bind (erase_sight pid P calls) fun _ => ?_
      exact Triple.bind (releaseState_sight env state _) fun _ => Keeps.pure

/-- The entry of a process once `enter` is done with it. -/
def entered (view : ProcView) (known : Option ProcessState) (pid : Int) (pkg : String)
    (now : Int) : ProcessState :=
  match known with
  | none => .new pid ((view.startTime pid).getD 0) pkg now
  | some ex =>
      if ex.pkg = pkg ∨ ex.startTime = 0 then ex
      else if (view.startTime pid).getD 0 = 0 ∨ (view.startTime pid).getD 0 = ex.startTime then
        { ex with pkg := pkg }
      else .new pid ((view.startTime pid).getD 0) pkg now

theorem entered_same (view : ProcView) {p : ProcessState} {pid : Int} {pkg : String} {now : Int}
    (h : p.pkg = pkg ∨ p.startTime = 0) : entered view (some p) pid pkg now = p := if_pos h

theorem entered_pkg (view : ProcView) (known : Option ProcessState) (pid : Int) (pkg : String)
    (now : Int) :
    (entered view known pid pkg now).pkg = pkg ∨
      (entered view known pid pkg now).startTime = 0 := by
  unfold entered
  cases known with
  | none => exact Or.inl rfl
  | some ex =>
      dsimp only
      split
      · assumption
      · split
        · exact Or.inl rfl
        · exact Or.inl rfl

section Entering

variable {env : Env κ} {view : ProcView} (hshows : env.Shows view)

include hshows

theorem insertNew_sight (pid : Int) (pkg : String) (now : Int) (P : Int → Option ProcessState)
    (calls : List ApplyCall) :
    Triple (fun s => sight s = (P, calls)) (insertNew env pid pkg now) fun r s =>
      r = ProcessState.new pid ((view.startTime pid).getD 0) pkg now ∧
        sight s = (Function.update P pid
          (some (ProcessState.new pid ((view.startTime pid).getD 0) pkg now)), calls) := by
  refine Triple.bind (sight_ask (hshows.startTime pid) (P, calls)) fun st => ?_
  refine Triple.pre fun hst => ?_
  subst hst
  refine Triple.bind (sight_modifyTracker (fun t ht => ?_) calls) fun _ =>
    Triple.pure fun s hs => ⟨rfl, hs⟩
  rw [StateTracker.procMap_insert, ht]

theorem enter_sight (pid : Int) (pkg : String) (now : Int) (P : Int → Option ProcessState)
    (calls : List ApplyCall) :
    Triple (fun s => sight s = (P, calls)) (enter env pid pkg now) fun r s =>
      r = entered view (P pid) pid pkg now ∧
        sight s = (Function.update P pid (some (entered view (P pid) pid pkg now)), calls) := by
  refine Triple.peek fun s hs => ?_
  rw [lookup_of_sight hs pid]
  unfold entered
  cases hknown : P pid with
  | none => exact insertNew_sight hshows pid pkg now P calls
  | some ex =>
      dsimp only
      by_cases hfast : ex.pkg = pkg ∨ ex.startTime = 0
      · rw [if_pos hfast, if_pos hfast]
        refine Triple.pure fun t ht => ⟨rfl, ?_⟩
        rw [ht, Function.update_eq_self_iff.mpr hknown.symm]
      · rw [if_neg hfast, if_neg hfast]
        refine Triple.bind (sight_ask (hshows.startTime pid) _) fun read => ?_
        refine Triple.pre fun hread => ?_
        subst hread
        by_cases hsame : (view.startTime pid).getD 0 = 0 ∨
            (view.startTime pid).getD 0 = ex.startTime
        · rw [if_pos hsame, if_pos hsame]
          refine Triple.bind (sight_modifyTracker (fun t ht => ?_) _) fun _ =>
            Triple.pure fun t ht => ⟨rfl, ht⟩
          rw [StateTracker.procMap_insert, ht]
        · rw [if_neg hsame, if_neg hsame]
          refine Triple.bind (erase_sight pid P calls) fun _ => ?_
          refine Triple.bind (releaseState_sight env ex _) fun _ => ?_
          refine (insertNew_sight hshows pid pkg now _ calls).mono (fun _ h => h) ?_
          intro r t ⟨hr, ht⟩
          rw [Function.update_idem] at ht
          exact ⟨hr, ht⟩

end Entering

/-! ## Whole scans -/

section Refresh

variable (fnmatch : String → String → Bool) {env : Env κ} {view : ProcView}
  (hshows : env.Shows view)

def scanCalls (view : ProcView) (args : EngineArgs) (pid : Int) (pkg : String) (p : ProcessState)
    (tracker : StateTracker) : List ApplyCall :=
  (view.tids pid).filterMap (callFor fnmatch view args pkg p.tidNames tracker)

theorem mem_scanCalls {view : ProcView} {args : EngineArgs} {pid : Int} {pkg : String}
    {p : ProcessState} {tracker : StateTracker} {c : ApplyCall} :
    c ∈ scanCalls fnmatch view args pid pkg p tracker ↔
      (c.tid ∈ view.tids pid ∧
        policyFor fnmatch view args pkg p.tidNames c.tid = some c.policy) ∧
      c.pkg = pkg ∧ c.tracker = tracker := by
  unfold scanCalls callFor
  rw [List.mem_filterMap]
  constructor
  · intro ⟨tid, htid, hc⟩
    obtain ⟨policy, hpolicy, rfl⟩ := Option.map_eq_some_iff.mp hc
    exact ⟨⟨htid, hpolicy⟩, rfl, rfl⟩
  · intro ⟨⟨htid, hpolicy⟩, hpkg, htracker⟩
    refine ⟨c.tid, htid, ?_⟩
    rw [hpolicy, ← hpkg, ← htracker]
    rfl

/-- Which policies a scan applies to a thread. -/
theorem exists_scanCalls {view : ProcView} {args : EngineArgs} {pid : Int} {pkg : String}
    {p : ProcessState} (tracker : StateTracker) (tid : Int) (policy : Policy) :
    (∃ c ∈ scanCalls fnmatch view args pid pkg p tracker, c.tid = tid ∧ c.policy = policy) ↔
      tid ∈ view.tids pid ∧ policyFor fnmatch view args pkg p.tidNames tid = some policy := by
  constructor
  · intro ⟨c, hc, htid, hpolicy⟩
    rw [← htid, ← hpolicy]
    exact (mem_scanCalls fnmatch).mp hc |>.1
  · intro h
    exact ⟨⟨tid, pkg, policy, tracker⟩, (mem_scanCalls fnmatch).mpr ⟨h, rfl, rfl⟩, rfl, rfl⟩

/-- A tracker in which `pid` has the entry `p`, short of its name cache. -/
def Holds (pid : Int) (p : ProcessState) (P : Int → Option ProcessState) : Prop :=
  ∃ names, P pid = some { p with tidNames := names }

include hshows

/-- A scan enters the process and makes the calls for its threads; other processes stay
as they were. -/
theorem refreshProcessRules_sight (args : EngineArgs) (pid : Int) (pkg : String)
    (P : Int → Option ProcessState) (calls : List ApplyCall) :
    Triple (fun s => sight s = (P, calls)) (refreshProcessRules fnmatch env args pid pkg)
      fun _ s => ∃ tracker names,
        Holds pid (entered view (P pid) pid pkg args.now) tracker.procMap ∧
        sight s =
          (Function.update P pid (some { entered view (P pid) pid pkg args.now with
              tidNames := names, appliedTids := (view.tids pid).toFinset }),
            calls ++ scanCalls fnmatch view args pid pkg
              (entered view (P pid) pid pkg args.now) tracker) := by
  generalize hp : entered view (P pid) pid pkg args.now = p
  have hpkg : p.pkg = pkg ∨ p.startTime = 0 := hp ▸ entered_pkg view (P pid) pid pkg args.now
  refine Triple.bind (sight_ask (hshows.tids pid) _) fun tids => ?_
  refine Triple.pre fun htids => ?_
  subst htids
  refine Triple.bind (enter_sight hshows pid pkg args.now P calls) fun state => ?_
  refine Triple.pre fun hstate => ?_
  rw [hp] at hstate ⊢
  subst hstate
  refine Triple.bind (update_sight pid _ _ calls) fun _ => ?_
  rw [Function.update_self, Function.update_idem, Option.map_some]
  -- the loop runs with the tracker of this moment
  refine Triple.fix fun s hs => ?_
  obtain ⟨hprocs, hcalls⟩ := Prod.mk.inj hs
  have hholds : Holds pid state s.tracker.procMap :=
    ⟨.new args.now, by rw [hprocs, Function.update_self]⟩
  have hloop := foldlM_scanTid fnmatch args pkg hshows (view.tids pid) ⟨state.tidNames, 0, []⟩
    s.tracker s.applyCalls
  refine Triple.bind (hloop.mono (fun t ht => congrArg noted ht) fun _ _ h => h) fun acc => ?_
  have hsight : ∀ t : System κ, noted t = (s.tracker, s.applyCalls ++
      scanCalls fnmatch view args pid pkg state s.tracker) →
        sight t = (Function.update P pid (some { state with tidNames := .new args.now }),
          calls ++ scanCalls fnmatch view args pid pkg state s.tracker) := by
    intro t ht
    obtain ⟨htracker, htcalls⟩ := Prod.mk.inj ht
    rw [sight, htracker, hprocs, htcalls, hcalls]
  refine Triple.bind ((enter_sight hshows pid pkg args.now _ _).mono hsight fun _ _ h => h)
    fun _ => ?_
  refine Triple.pre fun _ => ?_
  rw [Function.update_self, entered_same view (by exact hpkg), Function.update_idem]
  refine Triple.bind (update_sight pid _ _ _) fun _ => ?_
  rw [Function.update_self, Function.update_idem]
  exact Triple.pure fun u hu => ⟨s.tracker, _, hholds, hu⟩

end Refresh

end Threadctl.Core

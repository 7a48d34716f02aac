import Threadctl.Core.ScanCalls
import Threadctl.Support.Runs

/-!
# Names of reused thread ids

The exit of a thread takes its tid out of the applied set but leaves its name in the
cache.  A new thread with that tid is visited again, under the name that the cache
still has: it gets its own policy exactly when that name is as good as its own.
-/

namespace Threadctl.Core

open Threadctl.Support Threadctl.Support.StateRun Threadctl.Support.Runs

variable {κ : Type}

section Visits

variable (fnmatch : String → String → Bool) {env : Env κ} {view : ProcView}
  (hshows : env.Shows view)

include hshows

theorem fullScan_sight (args : EngineArgs) (pid : Int) (pkg : String)
    (P : Int → Option ProcessState) (calls : List ApplyCall) :
    Triple (fun s => sight s = (P, calls)) (fullScan fnmatch env args pid pkg)
      fun _ s => ∃ tracker p, p.appliedTids = (view.tids pid).toFinset ∧
        sight s = (Function.update P pid (some p),
          calls ++ scanCalls fnmatch view args pid pkg
            (entered view (P pid) pid pkg args.now) tracker) := by
  have hscan := refreshProcessRules_sight fnmatch hshows args pid pkg P calls
  refine Triple.bind hscan fun scanned => ?_
  refine Triple.exists fun tracker => Triple.exists fun names => Triple.pre fun _ => ?_
  refine Triple.bind (registerDirs_sight pid scanned.2 _ _) fun _ => Triple.exists fun dirs => ?_
  rw [Function.update_self, Function.update_idem, Option.map_some]
  refine Triple.bind (update_sight pid _ _ _) fun _ => ?_
  rw [Function.update_self, Function.update_idem]
  exact Triple.pure fun s hs => ⟨tracker, _, rfl, hs⟩

theorem threadNameFor_sight (args : EngineArgs) (pkg : String) (cache : ThreadNameCache) (tid : Int)
    (P : Int → Option ProcessState) (calls : List ApplyCall) :
    Triple (fun s => sight s = (P, calls))
      (threadNameFor env (args.cfg.rules.hasThreadRules fnmatch pkg) cache tid args.now)
      fun r s =>
        args.cfg.rules.resolve fnmatch pkg r.1 = policyFor fnmatch view args pkg cache tid ∧
          sight s = (P, calls) := by
  refine Triple.fix fun s hs => ?_
  have hnamed := threadNameFor_spec fnmatch args pkg hshows cache tid (noted s)
  refine hnamed.mono (fun t ht => congrArg noted ht) ?_
  intro r t ⟨⟨hpolicy, _⟩, ht⟩
  obtain ⟨htracker, hcalls⟩ := Prod.mk.inj ht
  exact ⟨hpolicy, by rw [sight, htracker, hcalls]; exact hs⟩

omit hshows in
theorem applyThread_sight (tid : Int) (pkg : String) (policy : Policy) (topo : CpuTopology)
    (rtAllowed : Bool) (P : Int → Option ProcessState) (calls : List ApplyCall) :
    Triple (fun s => sight s = (P, calls)) (applyThread env tid pkg policy topo rtAllowed)
      fun _ s => ∃ tracker, sight s = (P, calls ++ [⟨tid, pkg, policy, tracker⟩]) := by
  refine Triple.fix fun s hs => ?_
  obtain ⟨rfl, rfl⟩ := Prod.mk.inj hs
  have happlied := applyThread_noted pkg env tid policy topo rtAllowed s.tracker s.applyCalls
  refine happlied.mono (fun t ht => congrArg noted ht) ?_
  intro _ t ht
  obtain ⟨htracker, hcalls⟩ := Prod.mk.inj ht
  exact ⟨s.tracker, by rw [sight, htracker, hcalls]⟩

theorem applySingleTid_sight (args : EngineArgs) (pid : Int) (pkg : String) (tid : Int)
    (P : Int → Option ProcessState) (calls : List ApplyCall) :
    Triple (fun s => sight s = (P, calls)) (applySingleTid fnmatch env args pid pkg tid)
      fun _ s => ∃ tracker p,
        p.appliedTids ⊆ insert tid (entered view (P pid) pid pkg args.now).appliedTids ∧
        sight s = (Function.update P pid (some p),
          calls ++ if tid ∈ (entered view (P pid) pid pkg args.now).appliedTids then []
            else (callFor fnmatch view args pkg
              (entered view (P pid) pid pkg args.now).tidNames tracker tid).toList) := by
  refine Triple.bind (enter_sight hshows pid pkg args.now P calls) fun state => ?_
  refine Triple.pre fun hstate => ?_
  rw [← hstate]
  by_cases happlied : tid ∈ state.appliedTids
  · rw [if_pos happlied]
    refine Triple.pure fun s hs => ⟨.new, state, Finset.subset_insert _ _, ?_⟩
    rw [if_pos happlied, List.append_nil]
    exact hs
  · rw [if_neg happlied]
    refine Triple.bind (threadNameFor_sight fnmatch hshows args pkg state.tidNames tid _ _)
      fun named => Triple.pre fun hpolicy => ?_
    refine Triple.bind (update_sight pid _ _ _) fun _ => ?_
    rw [hpolicy, Function.update_self, Function.update_idem, Option.map_some]
    simp only [if_neg happlied]
    have hinsert : ∀ calls', Triple (fun s => sight s = (Function.update P pid
        (some { state with tidNames := named.2 }), calls')) (insertAppliedTid (κ := κ) pid tid)
          fun _ s => sight s = (Function.update P pid (some { state with
            tidNames := named.2, appliedTids := insert tid state.appliedTids }), calls') := by
      intro calls'
      refine (update_sight pid _ _ calls').mono (fun _ h => h) fun _ s hs => ?_
      rw [Function.update_self, Function.update_idem] at hs
      exact hs
    unfold callFor
    cases policyFor fnmatch view args pkg state.tidNames tid with
    | none =>
        refine Triple.bind (hinsert _) fun _ => Triple.pure fun s hs => ?_
        refine ⟨.new, { state with
          tidNames := named.2, appliedTids := insert tid state.appliedTids },
          Finset.Subset.refl _, ?_⟩
        rw [hs, Option.map_none, Option.toList_none, List.append_nil]
    | some policy =>
        refine Triple.bind (applyThread_sight tid pkg policy _ _ _ calls) fun outcome => ?_
        refine Triple.exists fun tracker => ?_
        have hcounted : Triple (fun s => sight s = (Function.update P pid
            (some { state with tidNames := named.2 }), calls ++ [⟨tid, pkg, policy, tracker⟩]))
              (do
                insertAppliedTid pid tid
                modifyTracker fun t => t.registerDirs pid [policy.cpusetDir]
                pure 1 : Run κ Nat) fun _ s => ∃ tracker p,
                  p.appliedTids ⊆ insert tid state.appliedTids ∧
                    sight s = (Function.update P pid (some p),
                      calls ++ [⟨tid, pkg, policy, tracker⟩]) := by
          refine Triple.bind (hinsert _) fun _ => ?_
          refine Triple.bind (registerDirs_sight pid _ _ _) fun _ => Triple.exists fun dirs => ?_
          rw [Function.update_self, Function.update_idem]
          exact Triple.pure fun s hs => ⟨tracker, _, Finset.Subset.refl _, hs⟩
        cases outcome with
        | exited =>
            exact Triple.pure fun s hs =>
              ⟨tracker, { state with tidNames := named.2 }, Finset.subset_insert _ _, hs⟩
        | skippedNoCpus =>
            exact Triple.bind (hinsert _) fun _ =>
              Triple.pure fun s hs => ⟨tracker, _, Finset.Subset.refl _, hs⟩
        | applied | blockedByCgroup | downgraded | blockedByPerm | einval | failed =>
            exact hcounted

end Visits

/-! ## One event -/

/-- An event, what it is handled with, and what `/proc` shows meanwhile. -/
structure Handled (κ : Type) where
  env : Env κ
  view : ProcView
  shows : env.Shows view
  args : EngineArgs
  ev : ProcessEvent

def Handled.pkg (h : Handled κ) : String := h.ev.pkg.getD ((h.view.cmdline h.ev.pid).getD "")

def EventKind.spawns : EventKind → Bool
  | .fork | .exec | .threadClone => true
  | .cpuMigrate | .exit => false

/-- All threads of the process are scanned, not only that of the event. -/
def Handled.scansAll (h : Handled κ) (P : Int → Option ProcessState) : Bool :=
  match h.ev.kind with
  | .exec | .fork => true
  | _ => match P h.ev.pid with
    | some p => !p.initialScanDone || decide (threadScanTtlSecs ≤ h.args.now - p.lastScanTime)
    | none => true

/-- The entry the event works with; an exec forgets the old one. -/
def Handled.entry (h : Handled κ) (P : Int → Option ProcessState) : ProcessState :=
  entered h.view (if h.ev.kind = .exec then none else P h.ev.pid) h.ev.pid h.pkg h.args.now

def IsApplied (P : Int → Option ProcessState) (pid tid : Int) : Prop :=
  ∃ p, P pid = some p ∧ tid ∈ p.appliedTids

section Events

variable (fnmatch : String → String → Bool)

def Handled.Wanted (h : Handled κ) : Prop :=
  h.ev.kind.spawns = true ∧ h.pkg.isEmpty = false ∧
    h.args.cfg.rules.isInterested fnmatch h.pkg = true

/-- The event has a name and a policy looked up for the thread. -/
def Handled.Visits (h : Handled κ) (P : Int → Option ProcessState) (tid : Int) : Prop :=
  h.Wanted fnmatch ∧
    if h.scansAll P then tid ∈ h.view.tids h.ev.pid
    else h.ev.tid = tid ∧ tid ∉ (h.entry P).appliedTids

/-- What an event does: the entries `P` become `P'`, with the calls `new`. -/
structure Handled.Effect (h : Handled κ) (P P' : Int → Option ProcessState)
    (new : List ApplyCall) : Prop where
  calls : ∀ tid policy, (∃ c ∈ new, c.tid = tid ∧ c.policy = policy) ↔
    h.Visits fnmatch P tid ∧
      policyFor fnmatch h.view h.args h.pkg (h.entry P).tidNames tid = some policy
  others : ∀ pid, pid ≠ h.ev.pid → P' pid = P pid
  /-- Only a visit makes a thread count as applied. -/
  applied : ∀ tid, IsApplied P' h.ev.pid tid → IsApplied P h.ev.pid tid ∨ h.Visits fnmatch P tid
  exited : h.ev.kind = .exit → ¬ IsApplied P' h.ev.pid h.ev.tid

variable {fnmatch} {h : Handled κ} {P : Int → Option ProcessState}

theorem entered_applied {view : ProcView} {known : Option ProcessState} {pid : Int} {pkg : String}
    {now tid : Int} (hmem : tid ∈ (entered view known pid pkg now).appliedTids) :
    ∃ p, known = some p ∧ tid ∈ p.appliedTids := by
  unfold entered at hmem
  cases known with
  | none => exact absurd hmem (Finset.notMem_empty tid)
  | some ex =>
      refine ⟨ex, rfl, ?_⟩
      dsimp only at hmem
      split at hmem
      · exact hmem
      · split at hmem
        · exact hmem
        · exact absurd hmem (Finset.notMem_empty tid)

theorem isApplied_update {pid tid : Int} {p : ProcessState} :
    IsApplied (Function.update P pid (some p)) pid tid ↔ tid ∈ p.appliedTids := by
  unfold IsApplied
  rw [Function.update_self]
  constructor
  · intro ⟨q, hq, hmem⟩
    rw [Option.some.inj hq]
    exact hmem
  · exact fun hmem => ⟨p, rfl, hmem⟩

/-- An event whose package is not wanted only takes threads out of the applied set. -/
theorem effect_quiet (hquiet : ¬ h.Wanted fnmatch) {q : Option ProcessState}
    (happlied : ∀ p, q = some p → ∃ p', P h.ev.pid = some p' ∧ p.appliedTids ⊆ p'.appliedTids)
    (hexit : h.ev.kind = .exit → ∀ p, q = some p → h.ev.tid ∉ p.appliedTids) :
    h.Effect fnmatch P (Function.update P h.ev.pid q) [] where
  calls tid policy := by
    constructor
    · intro ⟨c, hc, _⟩
      exact absurd hc List.not_mem_nil
    · exact fun hv => absurd hv.1.1 hquiet
  others pid hpid := Function.update_of_ne hpid _ _
  applied tid := by
    intro ⟨p, hp, hmem⟩
    rw [Function.update_self] at hp
    obtain ⟨p', hp', hsub⟩ := happlied p hp
    exact Or.inl ⟨p', hp', hsub hmem⟩
  exited hkind := by
    intro ⟨p, hp, hmem⟩
    rw [Function.update_self] at hp
    exact hexit hkind p hp hmem

theorem spawns_of_wanted (hwanted : h.Wanted fnmatch) {kind : EventKind}
    (hkind : h.ev.kind = kind) :
    kind.spawns = true := hkind ▸ hwanted.1

theorem not_exit_of_wanted (hwanted : h.Wanted fnmatch) : h.ev.kind ≠ .exit := by
  intro hkind
  exact absurd (spawns_of_wanted hwanted hkind) (by decide)

theorem visits_of_scansAll (hall : h.scansAll P = true) (tid : Int) :
    h.Visits fnmatch P tid ↔ h.Wanted fnmatch ∧ tid ∈ h.view.tids h.ev.pid := by
  rw [Handled.Visits, hall, if_pos rfl]

theorem visits_of_single (hall : h.scansAll P = false) (tid : Int) :
    h.Visits fnmatch P tid ↔
      h.Wanted fnmatch ∧ h.ev.tid = tid ∧ tid ∉ (h.entry P).appliedTids := by
  rw [Handled.Visits, hall, if_neg Bool.false_ne_true]

theorem effect_scan (hwanted : h.Wanted fnmatch) (hall : h.scansAll P = true) {p : ProcessState}
    (hp : p.appliedTids = (h.view.tids h.ev.pid).toFinset) (tracker : StateTracker) :
    h.Effect fnmatch P (Function.update P h.ev.pid (some p))
      (scanCalls fnmatch h.view h.args h.ev.pid h.pkg (h.entry P) tracker) where
  calls tid policy := by
    rw [exists_scanCalls, visits_of_scansAll hall]
    constructor
    · exact fun ⟨hmem, hpolicy⟩ => ⟨⟨hwanted, hmem⟩, hpolicy⟩
    · exact fun ⟨⟨_, hmem⟩, hpolicy⟩ => ⟨hmem, hpolicy⟩
  others pid hpid := Function.update_of_ne hpid _ _
  applied tid happlied := by
    rw [isApplied_update, hp, List.mem_toFinset] at happlied
    rw [visits_of_scansAll hall]
    exact Or.inr ⟨hwanted, happlied⟩
  exited hkind := absurd hkind (not_exit_of_wanted hwanted)

theorem effect_single (hwanted : h.Wanted fnmatch) (hall : h.scansAll P = false)
    (hkind : h.ev.kind = .threadClone) {p : ProcessState}
    (hp : p.appliedTids ⊆ insert h.ev.tid (h.entry P).appliedTids) (tracker : StateTracker) :
    h.Effect fnmatch P (Function.update P h.ev.pid (some p))
      (if h.ev.tid ∈ (h.entry P).appliedTids then []
        else (callFor fnmatch h.view h.args h.pkg (h.entry P).tidNames tracker
          h.ev.tid).toList) where
  calls tid policy := by
    rw [visits_of_single hall]
    by_cases happlied : h.ev.tid ∈ (h.entry P).appliedTids
    · rw [if_pos happlied]
      constructor
      · rintro ⟨c, hc, _⟩
        exact absurd hc List.not_mem_nil
      · rintro ⟨⟨_, htid, hnot⟩, _⟩
        exact absurd (htid ▸ happlied) hnot
    · rw [if_neg happlied, callFor]
      constructor
      · rintro ⟨c, hc, htid, hpolicy⟩
        obtain ⟨policy', hpolicy', rfl⟩ := Option.map_eq_some_iff.mp (Option.mem_toList.mp hc)
        dsimp only at htid hpolicy
        subst htid hpolicy
        exact ⟨⟨hwanted, rfl, happlied⟩, hpolicy'⟩
      · rintro ⟨⟨_, htid, _⟩, hpolicy⟩
        subst htid
        refine ⟨⟨h.ev.tid, h.pkg, policy, tracker⟩, ?_, rfl, rfl⟩
        rw [hpolicy]
        exact List.mem_singleton_self _
  others pid hpid := Function.update_of_ne hpid _ _
  applied tid hin := by
    rw [isApplied_update] at hin
    rw [visits_of_single hall]
    by_cases happlied : tid ∈ (h.entry P).appliedTids
    · have hentry : h.entry P = entered h.view (P h.ev.pid) h.ev.pid h.pkg h.args.now := by
        rw [Handled.entry, hkind]
        rfl
      rw [hentry] at happlied
      exact Or.inl (entered_applied happlied)
    · rcases Finset.mem_insert.mp (hp hin) with rfl | hold
      · exact Or.inr ⟨hwanted, rfl, happlied⟩
      · exact absurd hold happlied
  exited hexit := absurd hexit (not_exit_of_wanted hwanted)

end Events

/-! ## Handling an event -/

section Handling

variable (fnmatch : String → String → Bool) (h : Handled κ) (P : Int → Option ProcessState)
  (calls : List ApplyCall)

/-- The system sees an effect of the event. -/
def Handled.Done (s : System κ) : Prop :=
  ∃ P' new, h.Effect fnmatch P P' new ∧ sight s = (P', calls ++ new)

variable {fnmatch h P calls}

theorem done_quiet (hquiet : ¬ h.Wanted fnmatch) {q : Option ProcessState}
    (happlied : ∀ p, q = some p → ∃ p', P h.ev.pid = some p' ∧ p.appliedTids ⊆ p'.appliedTids)
    (hexit : h.ev.kind = .exit → ∀ p, q = some p → h.ev.tid ∉ p.appliedTids) {s : System κ}
    (hs : sight s = (Function.update P h.ev.pid q, calls)) : h.Done fnmatch P calls s :=
  ⟨_, [], effect_quiet hquiet happlied hexit, by rw [hs, List.append_nil]⟩

theorem done_removed (hquiet : ¬ h.Wanted fnmatch) :
    Triple (fun s => sight s = (P, calls)) (remove h.env h.ev.pid) fun _ s =>
      h.Done fnmatch P calls s := by
  refine (remove_sight h.env h.ev.pid P calls).mono (fun _ hs => hs) fun _ s hs => ?_
  exact done_quiet (q := none) hquiet (fun _ hp => nomatch hp) (fun _ _ hp => nomatch hp) hs

theorem done_same (hquiet : ¬ h.Wanted fnmatch) (hkind : h.ev.kind ≠ .exit) {s : System κ}
    (hs : sight s = (P, calls)) : h.Done fnmatch P calls s := by
  refine done_quiet (q := P h.ev.pid) hquiet (fun p hp => ⟨p, hp, Finset.Subset.refl _⟩)
    (fun hexit => absurd hexit hkind) ?_
  rw [hs, Function.update_eq_self]

theorem fullScan_done (hwanted : h.Wanted fnmatch) (hall : h.scansAll P = true)
    {P₁ : Int → Option ProcessState} (hP₁ : ∀ p, Function.update P₁ h.ev.pid (some p) =
      Function.update P h.ev.pid (some p))
    (hentry : entered h.view (P₁ h.ev.pid) h.ev.pid h.pkg h.args.now = h.entry P) :
    Triple (fun s => sight s = (P₁, calls)) (fullScan fnmatch h.env h.args h.ev.pid h.pkg)
      fun _ s => h.Done fnmatch P calls s := by
  refine (fullScan_sight fnmatch h.shows h.args h.ev.pid h.pkg P₁ calls).mono (fun _ hs => hs) ?_
  intro _ s ⟨tracker, p, hp, hs⟩
  rw [hentry, hP₁] at hs
  exact ⟨_, _, effect_scan hwanted hall hp tracker, hs⟩

theorem handleWanted_done (hwanted : h.Wanted fnmatch) :
    Triple (fun s => sight s = (P, calls)) (handleWanted fnmatch h.env h.args h.ev h.pkg)
      fun _ s => h.Done fnmatch P calls s := by
  unfold handleWanted
  cases hkind : h.ev.kind with
  | exec =>
      refine Triple.bind (remove_sight h.env h.ev.pid P calls) fun _ => ?_
      apply fullScan_done hwanted
      · rw [Handled.scansAll, hkind]
      · exact fun p => Function.update_idem ..
      · rw [Handled.entry, hkind, Function.update_self]
        rfl
  | fork =>
      apply fullScan_done hwanted
      · rw [Handled.scansAll, hkind]
      · exact fun p => rfl
      · rw [Handled.entry, hkind]
        rfl
  | threadClone =>
      have hentry : entered h.view (P h.ev.pid) h.ev.pid h.pkg h.args.now = h.entry P := by
        rw [Handled.entry, hkind]
        rfl
      refine Triple.peek fun s hs => ?_
      have hfull : (match s.tracker.procs.lookup h.ev.pid with
          | some p => !p.initialScanDone || decide (threadScanTtlSecs ≤ h.args.now - p.lastScanTime)
          | none => true) = h.scansAll P := by
        rw [Handled.scansAll, hkind, lookup_of_sight hs]
      refine Triple.ite_of (fun hneed => ?_) fun hneed => ?_
      · exact fullScan_done hwanted (hfull.symm.trans hneed) (fun _ => rfl) hentry
      · have hall : h.scansAll P = false := hfull.symm.trans (Bool.eq_false_iff.mpr hneed)
        have hsingle := applySingleTid_sight fnmatch h.shows h.args h.ev.pid h.pkg h.ev.tid P calls
        refine hsingle.mono (fun _ ht => ht) fun _ t ⟨tracker, p, hp, ht⟩ => ?_
        rw [hentry] at hp ht
        exact ⟨_, _, effect_single hwanted hall hkind hp tracker, ht⟩
  | cpuMigrate | exit => exact absurd (spawns_of_wanted hwanted hkind) (by decide)

theorem eventPkg_sight :
    Triple (fun s => sight s = (P, calls)) (eventPkg h.env h.ev) fun pkg s =>
      pkg = h.pkg ∧ sight s = (P, calls) := by
  unfold eventPkg Handled.pkg
  cases h.ev.pkg with
  | some pkg => exact Triple.pure fun s hs => ⟨rfl, hs⟩
  | none =>
      refine Triple.bind (sight_ask (h.shows.cmdline h.ev.pid) _) fun read => ?_
      exact Triple.pure fun s ⟨hread, hs⟩ => ⟨by rw [hread]; rfl, hs⟩

theorem handleSpawn_done (hspawns : h.ev.kind.spawns = true) :
    Triple (fun s => sight s = (P, calls)) (handleSpawn fnmatch h.env h.args h.ev)
      fun _ s => h.Done fnmatch P calls s := by
  have hkind : h.ev.kind ≠ .exit := by
    intro hexit
    rw [hexit] at hspawns
    exact absurd hspawns (by decide)
  refine Triple.bind eventPkg_sight fun pkg => Triple.pre fun hpkg => ?_
  subst hpkg
  by_cases hempty : h.pkg.isEmpty = true
  · rw [if_pos hempty]
    refine Triple.pure fun s hs => done_same (fun hw => ?_) hkind hs
    rw [hw.2.1] at hempty
    exact absurd hempty (by decide)
  rw [if_neg hempty]
  by_cases hint : h.args.cfg.rules.isInterested fnmatch h.pkg = true
  · rw [if_neg (by rw [hint]; decide)]
    exact handleWanted_done ⟨hspawns, Bool.eq_false_iff.mpr hempty, hint⟩
  · have hquiet : ¬ h.Wanted fnmatch := fun hw => hint hw.2.2
    rw [if_pos (by rw [Bool.eq_false_iff.mpr hint]; rfl)]
    refine Triple.peek fun s _ => ?_
    refine Triple.ite ?_ (Triple.pure fun t ht => done_same hquiet hkind ht)
    exact Triple.bind (done_removed hquiet) fun _ => Triple.pure fun t ht => ht

variable (fnmatch h P calls) in
theorem handleEvent_done :
    Triple (fun s => sight s = (P, calls)) (handleEvent fnmatch h.env h.args h.ev)
      fun _ s => h.Done fnmatch P calls s := by
  unfold handleEvent
  cases hkind : h.ev.kind with
  | exit =>
      have hquiet : ¬ h.Wanted fnmatch := fun hw => absurd hkind (not_exit_of_wanted hw)
      refine Triple.ite ?_ (Triple.bind (done_removed hquiet) fun _ => Triple.pure fun _ ht => ht)
      refine Triple.bind (update_sight h.ev.pid _ P calls) fun _ => Triple.pure fun s hs => ?_
      refine done_quiet hquiet (fun p hp => ?_) (fun _ p hp => ?_) hs
      · obtain ⟨p', hp', rfl⟩ := Option.map_eq_some_iff.mp hp
        exact ⟨p', hp', Finset.erase_subset _ _⟩
      · obtain ⟨p', hp', rfl⟩ := Option.map_eq_some_iff.mp hp
        exact Finset.notMem_erase _ _
  | cpuMigrate =>
      have hquiet : ¬ h.Wanted fnmatch :=
        fun hw => absurd (spawns_of_wanted hw hkind) (by decide)
      exact Triple.pure fun s hs => done_same hquiet (by rw [hkind]; decide) hs
  | fork | exec | threadClone =>
      exact handleSpawn_done (by rw [hkind]; rfl)

end Handling

/-! ## Runs -/

section Runs

variable (fnmatch : String → String → Bool)

def Handled.step (s : System κ) (h : Handled κ) : System κ :=
  ((handleEvent fnmatch h.env h.args h.ev).run s).2

/-- The event applies to the thread exactly the policy of the name the thread shows. -/
def Handled.AppliesShown (h : Handled κ) (s : System κ) (tid : Int) : Prop :=
  ∀ policy, (∃ c ∈ newCalls s (Handled.step fnmatch s h), c.tid = tid ∧ c.policy = policy) ↔
    h.args.cfg.rules.resolve fnmatch h.pkg ((h.view.comm tid).getD "") = some policy

/-- A name that the cache still has for the thread means the same policy as the name the
thread shows; without thread rules no name matters. -/
def Handled.NameCurrent (h : Handled κ) (s : System κ) (tid : Int) : Prop :=
  h.args.cfg.rules.hasThreadRules fnmatch h.pkg = true →
    ∀ name, (h.entry s.tracker.procMap).tidNames.known h.args.now tid = some name →
      h.args.cfg.rules.resolve fnmatch h.pkg name =
        h.args.cfg.rules.resolve fnmatch h.pkg ((h.view.comm tid).getD "")

/-- The event is about the process and visits the thread. -/
def Handled.VisitsIn (h : Handled κ) (pid tid : Int) (s : System κ) : Prop :=
  h.ev.pid = pid ∧ h.Visits fnmatch s.tracker.procMap tid

variable {fnmatch}

variable (fnmatch) in
theorem step_effect (s : System κ) (h : Handled κ) :
    h.Effect fnmatch s.tracker.procMap (Handled.step fnmatch s h).tracker.procMap
      (newCalls s (Handled.step fnmatch s h)) := by
  obtain ⟨P', new, heffect, hs⟩ :=
    handleEvent_done fnmatch h s.tracker.procMap s.applyCalls s rfl
  obtain ⟨hprocs, hcalls⟩ := Prod.mk.inj hs
  have hnew : newCalls s (Handled.step fnmatch s h) = new := by
    unfold newCalls Handled.step
    rw [hcalls, List.drop_left]
  rw [hnew]
  exact hprocs ▸ heffect

/-- One visit: the policy is that of the shown name exactly when the cache has no other. -/
theorem appliesShown_iff {s : System κ} {h : Handled κ} {tid : Int}
    (hvisit : h.Visits fnmatch s.tracker.procMap tid) :
    h.AppliesShown fnmatch s tid ↔ h.NameCurrent fnmatch s tid := by
  have hcalls := (step_effect fnmatch s h).calls tid
  have hseen : (∀ policy, policyFor fnmatch h.view h.args h.pkg
      (h.entry s.tracker.procMap).tidNames tid = some policy ↔
        h.args.cfg.rules.resolve fnmatch h.pkg ((h.view.comm tid).getD "") = some policy) ↔
      policyFor fnmatch h.view h.args h.pkg (h.entry s.tracker.procMap).tidNames tid =
        h.args.cfg.rules.resolve fnmatch h.pkg ((h.view.comm tid).getD "") := by
    constructor
    · exact fun hall => Option.ext hall
    · exact fun heq policy => by rw [heq]
  unfold Handled.AppliesShown Handled.NameCurrent
  rw [← policyFor_eq_iff, ← hseen]
  constructor
  · intro happlies policy
    rw [← happlies policy, hcalls policy]
    exact ⟨fun hpolicy => ⟨hvisit, hpolicy⟩, fun hpolicy => hpolicy.2⟩
  · intro hall policy
    rw [← hall policy, hcalls policy]
    exact ⟨fun hpolicy => hpolicy.2, fun hpolicy => ⟨hvisit, hpolicy⟩⟩

/-- A thread that is not applied stays so until it is visited. -/
theorem not_applied_until_visited {pid tid : Int} {s : System κ} {hs : List (Handled κ)}
    (hnot : ¬ IsApplied s.tracker.procMap pid tid)
    (hunseen : ¬ AtSome (Handled.step fnmatch) (fun s h => h.VisitsIn fnmatch pid tid s) s hs) :
    ¬ IsApplied (run (Handled.step fnmatch) s hs).tracker.procMap pid tid := by
  induction hs using List.reverseRecOn with
  | nil => exact hnot
  | append_singleton hs h ih =>
      have hbefore := ih fun hv => hunseen ((atSome_concat_iff _).mpr (Or.inl hv))
      have heffect := step_effect fnmatch (run (Handled.step fnmatch) s hs) h
      rw [run_concat]
      by_cases hpid : h.ev.pid = pid
      · subst hpid
        intro happlied
        rcases heffect.applied tid happlied with hold | hvisit
        · exact hbefore hold
        · exact hunseen ((atSome_concat_iff _).mpr (Or.inr ⟨rfl, hvisit⟩))
      · intro happlied
        unfold IsApplied at happlied
        rw [heffect.others pid (Ne.symm hpid)] at happlied
        exact hbefore happlied

theorem visits_of_not_applied {P : Int → Option ProcessState} {h : Handled κ}
    (hkind : h.ev.kind = .threadClone) (hwanted : h.Wanted fnmatch)
    (hlisted : h.ev.tid ∈ h.view.tids h.ev.pid) (hnot : ¬ IsApplied P h.ev.pid h.ev.tid) :
    h.Visits fnmatch P h.ev.tid := by
  cases hall : h.scansAll P with
  | true => exact (visits_of_scansAll hall _).mpr ⟨hwanted, hlisted⟩
  | false =>
      refine (visits_of_single hall _).mpr ⟨hwanted, rfl, fun happlied => hnot ?_⟩
      rw [Handled.entry, hkind] at happlied
      exact entered_applied happlied

/-- After the exit of a thread, up to the clone of a new thread with its tid: the tid is
visited, and every visit applies the policy of the name that the thread shows exactly
when no visit finds another name in the cache. -/
theorem reused_tid_policy_iff (s : System κ) (exit clone : Handled κ) (between : List (Handled κ))
    (pid tid : Int) (hexit : exit.ev.kind = .exit ∧ exit.ev.pid = pid ∧ exit.ev.tid = tid)
    (hclone : clone.ev.kind = .threadClone ∧ clone.ev.pid = pid ∧ clone.ev.tid = tid)
    (hwanted : clone.Wanted fnmatch) (hlisted : tid ∈ clone.view.tids pid) :
    AtSome (Handled.step fnmatch) (fun s h => h.VisitsIn fnmatch pid tid s)
        (Handled.step fnmatch s exit) (between ++ [clone]) ∧
      (AtEach (Handled.step fnmatch)
          (fun s h => h.VisitsIn fnmatch pid tid s → h.AppliesShown fnmatch s tid)
          (Handled.step fnmatch s exit) (between ++ [clone]) ↔
        AtEach (Handled.step fnmatch)
          (fun s h => h.VisitsIn fnmatch pid tid s → h.NameCurrent fnmatch s tid)
          (Handled.step fnmatch s exit) (between ++ [clone])) := by
  constructor
  · by_contra hunseen
    obtain ⟨hexitKind, rfl, rfl⟩ := hexit
    obtain ⟨hcloneKind, hpid, htid⟩ := hclone
    have hgone := (step_effect fnmatch s exit).exited hexitKind
    have hnot := not_applied_until_visited hgone fun hv =>
      hunseen ((atSome_concat_iff _).mpr (Or.inl hv))
    rw [← hpid, ← htid] at hnot
    rw [← hpid, ← htid] at hlisted
    have hvisit := visits_of_not_applied hcloneKind hwanted hlisted hnot
    rw [htid] at hvisit
    exact hunseen ((atSome_concat_iff _).mpr (Or.inr ⟨hpid, hvisit⟩))
  · apply atEach_congr
    intro s h
    exact imp_congr_right fun hvisit => appliesShown_iff hvisit.2

end Runs

/-! ## A thread that is replaced -/

/-- Real-time scheduling for the threads of `com.a` named `R`. -/
def renderConfig : ConfigSnapshot where
  version := 1
  rules := (compile [⟨"com.a", "R", "", some "rr", none, none, none⟩] (.flat 4)).rules

/-- `com.a` with the threads 7 and 8, thread 8 having the given name. -/
def comAView (name : String) : ProcView where
  tids pid := if pid = 7 then [7, 8] else []
  comm tid := if tid = 8 then some name else some "com.a"
  cmdline pid := if pid = 7 then some "com.a" else none
  startTime pid := if pid = 7 then some 5 else none
  alive pid := pid = 7
  oomAdj _ := 0

/-- An event about a thread of `com.a`, its thread 8 having the given name. -/
def comAEvent (name : String) (now : Int) (kind : EventKind) (tid : Int) : Handled Unit where
  env := (comAView name).env
  view := comAView name
  shows := (comAView name).env_shows
  args := ⟨renderConfig, .flat 4, now, true⟩
  ev := ⟨7, tid, kind, none, some "com.a"⟩

/-- `com.a` has been scanned while its thread 8 was named `R`. -/
def scannedR : System Unit := Handled.step glob (.init ()) (comAEvent "R" 1 .fork 7)

theorem comAEvent_wanted (name : String) (now tid : Int) :
    (comAEvent name now .threadClone tid).Wanted glob := by
  have hinterested : renderConfig.rules.isInterested glob "com.a" = true := by decide +kernel
  exact ⟨rfl, rfl, hinterested⟩

theorem reused_tid_policy_at_com_a :
    AtSome (Handled.step glob) (fun s h => h.VisitsIn glob 7 8 s)
        (Handled.step glob scannedR (comAEvent "R" 1 .exit 8))
        ([] ++ [comAEvent "W" 2 .threadClone 8]) ∧
      (AtEach (Handled.step glob) (fun s h => h.VisitsIn glob 7 8 s → h.AppliesShown glob s 8)
          (Handled.step glob scannedR (comAEvent "R" 1 .exit 8))
          ([] ++ [comAEvent "W" 2 .threadClone 8]) ↔
        AtEach (Handled.step glob) (fun s h => h.VisitsIn glob 7 8 s → h.NameCurrent glob s 8)
          (Handled.step glob scannedR (comAEvent "R" 1 .exit 8))
          ([] ++ [comAEvent "W" 2 .threadClone 8])) :=
  reused_tid_policy_iff scannedR (comAEvent "R" 1 .exit 8) (comAEvent "W" 2 .threadClone 8) [] 7 8
    ⟨rfl, rfl, rfl⟩ ⟨rfl, rfl, rfl⟩ (comAEvent_wanted "W" 2 8) (by decide)

/-- The new thread `W` gets the policy of the exited thread `R`. -/
theorem reused_tid_gets_old_policy :
    ¬∀ (before between : List (Handled Unit)) (exit clone : Handled Unit) (pid tid : Int),
      let s := run (Handled.step glob) (System.init ()) before
      (s.tracker.procMap pid).isSome = true → tid ≠ pid →
      (exit.ev.kind = .exit ∧ exit.ev.pid = pid ∧ exit.ev.tid = tid) →
      (clone.ev.kind = .threadClone ∧ clone.ev.pid = pid ∧ clone.ev.tid = tid) →
      clone.Wanted glob → tid ∈ clone.view.tids pid → clone.view.comm tid ≠ exit.view.comm tid →
      clone.args.now < exit.args.now + threadNameCacheTtlSecs →
        AtEach (Handled.step glob)
          (fun s h => h.VisitsIn glob pid tid s → h.AppliesShown glob s tid)
          (Handled.step glob s exit) (between ++ [clone]) := by
  intro h
  have hall := h [comAEvent "R" 1 .fork 7] [] (comAEvent "R" 1 .exit 8)
    (comAEvent "W" 2 .threadClone 8) 7 8 (by decide +kernel) (by decide) ⟨rfl, rfl, rfl⟩
    ⟨rfl, rfl, rfl⟩ (comAEvent_wanted "W" 2 8) (by decide) (by decide) (by decide)
  have hvisit : (comAEvent "W" 2 .threadClone 8).Visits glob
      (Handled.step glob scannedR (comAEvent "R" 1 .exit 8)).tracker.procMap 8 :=
    (visits_of_single (by decide +kernel) 8).mpr
      ⟨comAEvent_wanted "W" 2 8, rfl, by decide +kernel⟩
  have hscanned : run (Handled.step glob) (System.init ()) [comAEvent "R" 1 .fork 7] =
      scannedR := rfl
  have happlies := hall [] (comAEvent "W" 2 .threadClone 8) [] rfl
  rw [run_nil, hscanned] at happlies
  have hcurrent := (appliesShown_iff hvisit).mp (happlies ⟨rfl, hvisit⟩)
  have hsame := hcurrent (by decide +kernel) "R" (by decide +kernel)
  exact absurd hsame (by decide +kernel)

end Threadctl.Core

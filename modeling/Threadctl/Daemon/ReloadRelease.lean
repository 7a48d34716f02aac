import Threadctl.Core.Coverage
import Threadctl.Core.OrphanDirs
import Threadctl.Core.ScanCalls
import Threadctl.Daemon.MainLoop

/-!
# What a reload gives back

A reload gives back the directories of the processes that it drops.  The relock pass after
it registers what the new rules resolve to and gives nothing back, so whatever a process
that stays held before is counted still.
-/

namespace Threadctl.Daemon

open Threadctl.Core Threadctl.Support Threadctl.Support.StateRun

variable {κ : Type}

/-! ## References given back -/

theorem releaseDir_refs (env : Env κ) (d : String) (n : String → Nat) :
    Triple (fun s => s.tracker.refs = n) (releaseDir env d) fun _ s =>
      s.tracker.refs = fun e => n e - if e = d ∧ e ≠ "" then 1 else 0 := by
  by_cases hempty : d.isEmpty
  · rw [releaseDir, if_pos hempty]
    have hd : d = "" := by simpa using hempty
    refine Triple.pure fun s hs => ?_
    rw [hs]
    funext e
    rw [if_neg fun hboth => hboth.2 (hboth.1.trans hd), Nat.sub_zero]
  · rw [releaseDir, if_neg hempty]
    have hd : d ≠ "" := by simpa using hempty
    refine Triple.get fun s hs => Triple.modify_bind ?_
    have hreleased : StateTracker.refs { s.tracker with
        cpusetRefs := (RefCount.release s.tracker.cpusetRefs d).1 } =
          fun e => n e - if e = d ∧ e ≠ "" then 1 else 0 := by
      funext e
      rw [StateTracker.refs, RefCount.getD_release, ← hs]
      by_cases he : e = d
      · subst he
        rw [if_pos rfl, if_pos ⟨rfl, hd⟩]
        rfl
      · rw [if_neg he, if_neg fun hboth => he hboth.1]
        rfl
    have hframe : ∀ r : Bool, Frame (fun s : System κ => s.tracker.refs)
        (if r then do
          let reclaimed ← removeCpusetDir env d
          if reclaimed then forgetCpusetDir d else pure ()
        else pure ()) := by
      intro r
      refine Frame.ite (Frame.bind (fun _ => rfl) fun reclaimed => ?_) Frame.pure
      exact Frame.ite (fun _ => rfl) Frame.pure
    rintro t rfl
    exact (hframe _ _).trans hreleased

theorem releaseState_refs (env : Env κ) (state : ProcessState) (n : String → Nat) :
    Triple (fun s => s.tracker.refs = n) (releaseState env state) fun _ s =>
      s.tracker.refs = fun e => n e - if e ∈ state.dirs ∧ e ≠ "" then 1 else 0 := by
  have hloop : ∀ (l : List String) (n : String → Nat), l.Nodup →
      Triple (fun s : System κ => s.tracker.refs = n) (l.forM (releaseDir env)) fun _ s =>
        s.tracker.refs = fun e => n e - if e ∈ l ∧ e ≠ "" then 1 else 0 := by
    intro l
    induction l with
    | nil =>
        intro n _
        refine Triple.pure fun s hs => ?_
        simpa using hs
    | cons d l ih =>
        intro n hnodup
        obtain ⟨hd, hl⟩ := List.nodup_cons.mp hnodup
        refine (Triple.bind (releaseDir_refs env d n) fun _ => ih _ hl).mono (fun _ hs => hs) ?_
        intro _ s hs
        rw [hs]
        funext e
        by_cases he : e = d
        · subst he
          simp [hd]
        · simp [he]
  refine Triple.get fun s hs => ?_
  have hperm := env.order_perm s.kernel state.dirs
  have hnodup := hperm.nodup_iff.mpr state.appliedDirs.nodup
  refine (hloop _ n hnodup).mono (fun t ht => ht ▸ hs) fun _ t ht => ?_
  rw [ht]
  funext e
  simp only [hperm.mem_iff]

theorem remove_refs (env : Env κ) {pid : Int} {p : ProcessState} {s : System κ}
    (hp : s.tracker.procs.lookup pid = some p) :
    ((remove env pid).run s).2.tracker.refs =
      fun e => s.tracker.refs e - if e ∈ p.dirs ∧ e ≠ "" then 1 else 0 := by
  have hspec : Triple (fun t => t = s) (remove env pid) fun _ t =>
      t.tracker.refs = fun e => s.tracker.refs e - if e ∈ p.dirs ∧ e ≠ "" then 1 else 0 := by
    refine Triple.get fun t ht => ?_
    subst ht
    rw [hp]
    refine Triple.modify_bind ?_
    refine Triple.bind ?_ fun _ => Triple.pure fun _ h => h
    exact (releaseState_refs env p t.tracker.refs).mono (fun u hu => hu ▸ rfl) fun _ _ h => h
  exact hspec s rfl

theorem removeAll_refs (env : Env κ) (l : List (Sigma fun _ : Int => ProcessState))
    (hnodup : (l.map (·.1)).Nodup) (s : System κ)
    (hknown : ∀ e ∈ l, s.tracker.procs.lookup e.1 = some e.2) (d : String) :
    (((l.map (·.1)).forM fun pid => (do let _ ← remove env pid; pure () : Run κ Unit)).run
        s).2.tracker.refs d =
      s.tracker.refs d - l.countP fun e => d ∈ e.2.dirs ∧ d ≠ "" := by
  induction l generalizing s with
  | nil => rfl
  | cons e l ih =>
      rw [List.map_cons, List.nodup_cons] at hnodup
      have hrest : ∀ e' ∈ l,
          ((remove env e.1).run s).2.tracker.procs.lookup e'.1 = some e'.2 := by
        intro e' he'
        have hne : e'.1 ≠ e.1 := fun h => hnodup.1 (h ▸ List.mem_map_of_mem he')
        rw [remove_procs, AList.lookup_erase_ne hne]
        exact hknown e' (List.mem_cons_of_mem e he')
      have hstep := ih hnodup.2 ((remove env e.1).run s).2 hrest
      refine hstep.trans ?_
      rw [remove_refs env (hknown e List.mem_cons_self), List.countP_cons]
      simp only [decide_eq_true_eq]
      omega

/-- The count of a directory once the processes outside the set have given theirs back. -/
def keptRefs (t : StateTracker) (set : List String) (d : String) : Nat :=
  t.refs d - t.procs.entries.countP fun e => e.2.pkg ∉ set ∧ d ∈ e.2.dirs ∧ d ≠ ""

theorem retainInterested_refs (env : Env κ) (set : List String) (s : System κ) :
    ((retainInterested env set).run s).2.tracker.refs = keptRefs s.tracker set := by
  funext d
  have hperm := env.order_perm s.kernel s.tracker.procs.entries
  have hkeys : ((env.order s.kernel s.tracker.procs.entries).map (·.1)).Nodup :=
    (hperm.map _).nodup_iff.mpr s.tracker.procs.nodupKeys
  have hstale := List.filter_sublist (p := fun e : Sigma fun _ : Int => ProcessState =>
    decide (e.2.pkg ∉ set)) (l := env.order s.kernel s.tracker.procs.entries)
  have hrefs := removeAll_refs env _ (hkeys.sublist (hstale.map _)) s
    (fun e he => AList.mem_lookup_iff.mpr (hperm.mem_iff.mp (hstale.subset he))) d
  refine hrefs.trans ?_
  rw [List.countP_filter, hperm.countP_eq, keptRefs]
  congr 2
  funext e
  rw [Bool.eq_iff_iff]
  simp [and_comm, and_left_comm]

/-- In a tracker whose counts are exact, the directories left are those of the processes that
stay. -/
theorem keptRefs_pos_iff {t : StateTracker} (ht : Balanced t) (set : List String) {d : String} :
    0 < keptRefs t set d ↔
      ∃ pid p, t.procs.lookup pid = some p ∧ p.pkg ∈ set ∧ d ∈ p.dirs := by
  have hsplit : t.refs d = t.holders d := ht.counts.getD d
  have hname : ∀ e ∈ t.procs.entries, d ∈ e.2.dirs → d ≠ "" := by
    rintro e he hd rfl
    exact ht.named e.1 e.2 (AList.mem_lookup_iff.mpr he) hd
  have hstale : (t.procs.entries.countP fun e => e.2.pkg ∉ set ∧ d ∈ e.2.dirs ∧ d ≠ "") =
      t.procs.entries.countP fun e => e.2.pkg ∉ set ∧ d ∈ e.2.dirs := by
    refine List.countP_congr fun e he => ?_
    simp only [decide_eq_true_eq]
    exact and_congr_right fun _ => and_iff_left_of_imp (hname e he)
  have hkept : t.holders d = (t.procs.entries.countP fun e => e.2.pkg ∉ set ∧ d ∈ e.2.dirs) +
      t.procs.entries.countP fun e => e.2.pkg ∈ set ∧ d ∈ e.2.dirs := by
    rw [StateTracker.holders, RefCount.holders]
    generalize t.procs.entries = l
    induction l with
    | nil => rfl
    | cons e l ih =>
        simp only [List.countP_cons, ih, decide_eq_true_eq]
        by_cases hset : e.2.pkg ∈ set <;> by_cases hd : d ∈ e.2.dirs <;> simp [hset, hd] <;> omega
  rw [keptRefs, hsplit, hstale, hkept, Nat.add_sub_cancel_left, List.countP_pos_iff]
  constructor
  · rintro ⟨e, he, hboth⟩
    exact ⟨e.1, e.2, AList.mem_lookup_iff.mpr he, of_decide_eq_true hboth⟩
  · rintro ⟨pid, p, hp, hboth⟩
    exact ⟨⟨pid, p⟩, AList.mem_lookup_iff.mp hp, decide_eq_true hboth⟩

theorem lookup_retain (c : ThreadNameCache) {tids : Finset Int} {tid : Int} (h : tid ∈ tids) :
    (c.retain tids).names.lookup tid = c.names.lookup tid := by
  have hfold : ∀ (l : List Int) (m : HashMap Int String),
      (l.foldl (fun m t => if t ∈ tids then m else m.erase t) m).lookup tid = m.lookup tid := by
    intro l
    induction l with
    | nil => exact fun m => rfl
    | cons t l ih =>
        intro m
        rw [List.foldl_cons, ih]
        split
        · rfl
        · rename_i hgone
          exact AList.lookup_erase_ne fun heq => hgone (heq ▸ h)
  exact hfold c.names.keys c.names

theorem known_retain (c : ThreadNameCache) (now : Int) {tids : Finset Int} {tid : Int}
    (h : tid ∈ tids) : (c.retain tids).known now tid = c.known now tid := by
  have hage : (c.retain tids).lastFullRefresh = c.lastFullRefresh := rfl
  unfold ThreadNameCache.known ThreadNameCache.expire
  rw [hage]
  split
  · rfl
  · exact lookup_retain c h

theorem policyFor_retain (fnmatch : String → String → Bool) {view : ProcView} (args : EngineArgs)
    (pkg : String) (c : ThreadNameCache) {pid tid : Int} (h : tid ∈ view.tids pid) :
    policyFor fnmatch view args pkg (c.retain (view.tids pid).toFinset) tid =
      policyFor fnmatch view args pkg c tid := by
  rw [policyFor, policyFor, ThreadNameCache.nameOf, ThreadNameCache.nameOf,
    known_retain c args.now (List.mem_toFinset.mpr h)]

/-! ## The directories that are wanted -/

section Wanted

variable (fnmatch : String → String → Bool) (view : ProcView) (cfg : ConfigSnapshot) (now : Int)

/-- The policy of a thread of the process, under the name that a scan has for it. -/
def policyOf (p : ProcessState) (tid : Int) : Option Policy :=
  cfg.rules.resolve fnmatch p.pkg
    (if cfg.rules.hasThreadRules fnmatch p.pkg then p.tidNames.nameOf view.comm now tid else "")

/-- The configuration resolves to a policy with the directory `d` for a thread of the process. -/
def Resolves (pid : Int) (p : ProcessState) (d : String) : Prop :=
  ∃ tid ∈ view.tids pid, ∃ policy,
    policyOf fnmatch view cfg now p tid = some policy ∧ policy.cpusetDir = d

/-- It does so for a thread of one of the processes. -/
def DirWanted (P : Int → Option ProcessState) (d : String) : Prop :=
  ∃ pid p, P pid = some p ∧ Resolves fnmatch view cfg now pid p d

/-- The same process as far as the rules can tell: its threads have the same policies. -/
structure Alike (pid : Int) (p q : ProcessState) : Prop where
  pkg : q.pkg = p.pkg
  policies : ∀ tid ∈ view.tids pid,
    policyOf fnmatch view cfg now q tid = policyOf fnmatch view cfg now p tid

/-- After some processes of a pass that began with the processes `P` and the counts `n`: the
processes are the same, no count is gone, and what is new a policy asked for. -/
structure Relocked (P : Int → Option ProcessState) (n : String → Nat) (s : System κ) : Prop where
  procs : ∀ pid, Option.Rel (Alike fnmatch view cfg now pid) (P pid) (s.tracker.procMap pid)
  kept : ∀ d, 0 < n d → 0 < s.tracker.refs d
  counted : ∀ d, 0 < s.tracker.refs d → 0 < n d ∨ DirWanted fnmatch view cfg now P d

variable {fnmatch view cfg now} {pid : Int} {p q : ProcessState}

theorem Alike.refl : Alike fnmatch view cfg now pid p p := ⟨rfl, fun _ _ => rfl⟩

theorem Alike.trans {r : ProcessState} (h : Alike fnmatch view cfg now pid p q)
    (h' : Alike fnmatch view cfg now pid q r) : Alike fnmatch view cfg now pid p r where
  pkg := h'.pkg.trans h.pkg
  policies tid htid := (h'.policies tid htid).trans (h.policies tid htid)

theorem Alike.resolves_iff (h : Alike fnmatch view cfg now pid p q) (d : String) :
    Resolves fnmatch view cfg now pid q d ↔ Resolves fnmatch view cfg now pid p d := by
  unfold Resolves
  refine exists_congr fun tid => and_congr_right fun htid => ?_
  rw [h.policies tid htid]

theorem relocked_refl (s : System κ) :
    Relocked fnmatch view cfg now s.tracker.procMap s.tracker.refs s where
  procs pid := by
    cases s.tracker.procMap pid with
    | none => exact .none
    | some p => exact .some Alike.refl
  kept _ h := h
  counted _ h := Or.inl h

variable {P : Int → Option ProcessState} {n : String → Nat} {s t : System κ}

theorem Relocked.of_tracker (h : Relocked fnmatch view cfg now P n s)
    (htracker : t.tracker = s.tracker) : Relocked fnmatch view cfg now P n t := by
  constructor
  · rw [htracker]
    exact h.procs
  · rw [htracker]
    exact h.kept
  · rw [htracker]
    exact h.counted

theorem Relocked.known (h : Relocked fnmatch view cfg now P n s)
    (hp : s.tracker.procs.lookup pid = some p) :
    ∃ p₀, P pid = some p₀ ∧ Alike fnmatch view cfg now pid p₀ p := by
  have hrel := h.procs pid
  rw [StateTracker.procMap, hp] at hrel
  cases hP : P pid with
  | none =>
      rw [hP] at hrel
      cases hrel
  | some p₀ =>
      rw [hP] at hrel
      cases hrel with
      | some hlike => exact ⟨p₀, rfl, hlike⟩

/-- What the tracker has is wanted exactly when it was wanted at the beginning. -/
theorem Relocked.wanted_iff (h : Relocked fnmatch view cfg now P n s) (d : String) :
    DirWanted fnmatch view cfg now s.tracker.procMap d ↔ DirWanted fnmatch view cfg now P d := by
  constructor
  · rintro ⟨pid, p, hp, hd⟩
    obtain ⟨p₀, hp₀, hlike⟩ := h.known hp
    exact ⟨pid, p₀, hp₀, (hlike.resolves_iff d).mp hd⟩
  · rintro ⟨pid, p₀, hp₀, hd⟩
    have hrel := h.procs pid
    rw [hp₀] at hrel
    cases hp : s.tracker.procMap pid with
    | none =>
        rw [hp] at hrel
        cases hrel
    | some p =>
        rw [hp] at hrel
        cases hrel with
        | some hlike => exact ⟨pid, p, hp, (hlike.resolves_iff d).mpr hd⟩

theorem foldl_registerDir_pos (ds : List String) (acc : ProcessState × RefCount.Table String)
    (e : String) :
    (0 < (acc.2.lookup e).getD 0 → 0 < ((ds.foldl registerDir acc).2.lookup e).getD 0) ∧
      (0 < ((ds.foldl registerDir acc).2.lookup e).getD 0 →
        0 < (acc.2.lookup e).getD 0 ∨ e ∈ ds) := by
  induction ds generalizing acc with
  | nil => exact ⟨id, Or.inl⟩
  | cons d ds ih =>
      have hstep : (0 < (acc.2.lookup e).getD 0 →
          0 < ((registerDir acc d).2.lookup e).getD 0) ∧
            (0 < ((registerDir acc d).2.lookup e).getD 0 →
              e = d ∨ 0 < (acc.2.lookup e).getD 0) := by
        unfold registerDir
        split
        · exact ⟨id, Or.inr⟩
        · split
          · exact ⟨id, Or.inr⟩
          · rw [RefCount.pos_retain_iff]
            exact ⟨Or.inr, id⟩
      obtain ⟨hkeep, hnew⟩ := ih (registerDir acc d)
      refine ⟨fun h => hkeep (hstep.1 h), fun h => ?_⟩
      rcases hnew h with h | h
      · rcases hstep.2 h with rfl | h
        · exact Or.inr List.mem_cons_self
        · exact Or.inl h
      · exact Or.inr (List.mem_cons_of_mem d h)

theorem registerDirs_pos (t : StateTracker) (pid : Int) (ds : List String) (d : String) :
    (0 < t.refs d → 0 < (t.registerDirs pid ds).refs d) ∧
      (0 < (t.registerDirs pid ds).refs d → 0 < t.refs d ∨ d ∈ ds) := by
  unfold StateTracker.registerDirs
  split
  · exact ⟨id, Or.inl⟩
  · rename_i state _
    exact foldl_registerDir_pos ds (state, t.cpusetRefs) d

theorem refs_update (t : StateTracker) (pid : Int) (f : ProcessState → ProcessState) :
    (t.update pid f).refs = t.refs := by
  unfold StateTracker.update
  split
  · rfl
  · rfl

theorem Relocked.scanned (h : Relocked fnmatch view cfg now P n s) {ds : List String}
    (hp : s.tracker.procs.lookup pid = some p) (hq : Alike fnmatch view cfg now pid p q)
    (hprocs : t.tracker.procMap = Function.update s.tracker.procMap pid (some q))
    (hrefs : t.tracker.refs = s.tracker.refs)
    (hds : ∀ d ∈ ds, Resolves fnmatch view cfg now pid p d) :
    Relocked fnmatch view cfg now P n
      { t with tracker := t.tracker.registerDirs pid ds } := by
  obtain ⟨p₀, hp₀, hlike⟩ := h.known hp
  constructor
  · intro pid'
    obtain ⟨dirs, hdirs⟩ := t.tracker.procMap_registerDirs pid ds
    change Option.Rel _ _ ((t.tracker.registerDirs pid ds).procMap pid')
    rw [hdirs, hprocs, Function.update_idem, Function.update_self]
    by_cases hsame : pid' = pid
    · subst hsame
      rw [Function.update_self, hp₀]
      exact .some (hlike.trans (hq.trans ⟨rfl, fun _ _ => rfl⟩))
    · rw [Function.update_of_ne hsame]
      exact h.procs pid'
  · intro d hd
    refine (registerDirs_pos t.tracker pid ds d).1 ?_
    rw [hrefs]
    exact h.kept d hd
  · intro d hd
    rcases (registerDirs_pos t.tracker pid ds d).2 hd with hold | hnew
    · rw [hrefs] at hold
      exact h.counted d hold
    · exact Or.inr ⟨pid, p₀, hp₀, (hlike.resolves_iff d).mp (hds d hnew)⟩

end Wanted

/-! ## Directories of a relock pass -/

section Scans

variable (fnmatch : String → String → Bool) {view : ProcView} (args : EngineArgs)
variable {env : Env κ} (hshows : env.Shows view)

include hshows

theorem scanTid_dirs (pkg : String) (acc : ScanState) (tid : Int) (tracker : StateTracker) :
    Triple (fun s => s.tracker = tracker) (scanTid fnmatch env args pkg acc tid) fun acc' s =>
      ((∀ t, policyFor fnmatch view args pkg acc'.tidNames t =
          policyFor fnmatch view args pkg acc.tidNames t) ∧
        ∀ d ∈ acc'.dirs, d ∈ acc.dirs ∨ ∃ policy,
          policyFor fnmatch view args pkg acc.tidNames tid = some policy ∧
            policy.cpusetDir = d) ∧
      s.tracker = tracker := by
  refine Triple.fix fun s hs => ?_
  have hname := threadNameFor_spec fnmatch args pkg hshows acc.tidNames tid (noted s)
  refine Triple.bind (hname.mono (fun t ht => ht ▸ rfl) fun _ _ h => h) fun named => ?_
  refine Triple.pre fun ⟨hpolicy, hnames⟩ => ?_
  dsimp only
  rw [hpolicy]
  cases hfor : policyFor fnmatch view args pkg acc.tidNames tid with
  | none =>
      refine Triple.pure fun t ht => ⟨⟨hnames, fun d hd => Or.inl hd⟩, ?_⟩
      exact (congrArg Prod.fst ht).trans hs
  | some policy =>
      have happly := applyThread_noted pkg env tid policy args.topo args.rtAllowed s.tracker
        s.applyCalls
      refine Triple.bind happly fun outcome => Triple.pure fun t ht => ?_
      refine ⟨⟨fun u => ?_, fun d hd => ?_⟩, (congrArg Prod.fst ht).trans hs⟩
      · rw [← hnames u]
        cases outcome <;> rfl
      · rw [mem_countOutcome_dirs] at hd
        split at hd
        · rcases List.mem_cons.mp hd with rfl | hd
          · exact Or.inr ⟨policy, rfl, rfl⟩
          · exact Or.inl hd
        · exact Or.inl hd

theorem foldlM_scanTid_dirs (pkg : String) (tids : List Int) (acc : ScanState)
    (tracker : StateTracker) :
    Triple (fun s => s.tracker = tracker) (tids.foldlM (scanTid fnmatch env args pkg) acc)
      fun acc' s =>
        ((∀ t, policyFor fnmatch view args pkg acc'.tidNames t =
            policyFor fnmatch view args pkg acc.tidNames t) ∧
          ∀ d ∈ acc'.dirs, d ∈ acc.dirs ∨ ∃ tid ∈ tids, ∃ policy,
            policyFor fnmatch view args pkg acc.tidNames tid = some policy ∧
              policy.cpusetDir = d) ∧
        s.tracker = tracker := by
  induction tids generalizing acc with
  | nil => exact Triple.pure fun s hs => ⟨⟨fun _ => rfl, fun d hd => Or.inl hd⟩, hs⟩
  | cons tid tids ih =>
      rw [List.foldlM_cons]
      refine Triple.bind (scanTid_dirs fnmatch args hshows pkg acc tid tracker) fun acc' => ?_
      refine Triple.pre fun ⟨hnames, hdirs⟩ => ?_
      refine (ih acc').mono (fun _ hs => hs) fun acc'' s ⟨⟨hnames', hdirs'⟩, hs⟩ => ?_
      refine ⟨⟨fun t => (hnames' t).trans (hnames t), fun d hd => ?_⟩, hs⟩
      rcases hdirs' d hd with hd | ⟨t, ht, policy, hpolicy, hdir⟩
      · rcases hdirs d hd with hd | hthis
        · exact Or.inl hd
        · exact Or.inr ⟨tid, List.mem_cons_self, hthis⟩
      · refine Or.inr ⟨t, List.mem_cons_of_mem tid ht, policy, ?_, hdir⟩
        rw [← hnames t]
        exact hpolicy

/-- A scan of a process under its own package counts nothing, and asks for directories that
its policies name. -/
theorem refreshProcessRules_dirs {pid : Int} {p : ProcessState} {s : System κ}
    (hp : s.tracker.procs.lookup pid = some p) :
    Triple (fun t => t = s) (refreshProcessRules fnmatch env args pid p.pkg) fun r t =>
      (∃ q, Alike fnmatch view args.cfg args.now pid p q ∧
        t.tracker.procMap = Function.update s.tracker.procMap pid (some q)) ∧
      t.tracker.refs = s.tracker.refs ∧
      ∀ d ∈ r.2, Resolves fnmatch view args.cfg args.now pid p d := by
  have hlist := ask_answers (hshows.tids pid) (f := System.tracker) (fun _ _ => rfl) s.tracker
  refine Triple.bind (hlist.mono (fun t ht => congrArg System.tracker ht) fun _ _ h => h)
    fun tids => Triple.pre fun htids => ?_
  subst htids
  refine Triple.bind (Q := fun state t => state = p ∧ t.tracker = s.tracker) ?_ fun state => ?_
  · intro t ht
    have hknown : t.tracker.procs.lookup pid = some p := by rw [ht, hp]
    rw [enter_known env args.now hknown (Or.inl rfl)]
    exact ⟨rfl, ht⟩
  refine Triple.pre fun hstate => ?_
  subst hstate
  generalize htaken : s.tracker.update pid (fun p => { p with tidNames := .new args.now }) = taken
  refine Triple.bind (Q := fun _ t => t.tracker = taken) ?_ fun _ => ?_
  · refine Triple.modify fun t ht => ?_
    dsimp only
    rw [ht, htaken]
  have htakenAt : taken.procs.lookup pid = some { state with tidNames := .new args.now } := by
    rw [← htaken, StateTracker.update, hp]
    exact AList.lookup_insert s.tracker.procs
  refine Triple.bind (foldlM_scanTid_dirs fnmatch args hshows state.pkg _ _ taken) fun acc => ?_
  refine Triple.pre ?_
  rintro ⟨hnames, hdirs⟩
  refine Triple.bind (Q := fun _ t => t.tracker = taken) ?_ fun _ => ?_
  · intro t ht
    have hknown : t.tracker.procs.lookup pid = some { state with tidNames := .new args.now } := by
      rw [ht, htakenAt]
    rw [enter_known env args.now hknown (Or.inl rfl)]
    exact ht
  refine Triple.bind (Q := fun _ t => t.tracker = taken.update pid fun p =>
    { p with tidNames := acc.tidNames.retain (view.tids pid).toFinset,
             appliedTids := (view.tids pid).toFinset }) ?_ fun _ => Triple.pure fun t ht => ?_
  · refine Triple.modify fun t ht => ?_
    dsimp only
    rw [ht]
  · refine ⟨⟨{ state with
        tidNames := acc.tidNames.retain (view.tids pid).toFinset,
        appliedTids := (view.tids pid).toFinset }, ⟨rfl, fun tid htid => ?_⟩, ?_⟩, ?_, ?_⟩
    · exact (policyFor_retain fnmatch args state.pkg acc.tidNames htid).trans (hnames tid)
    · have hat : taken.procMap pid = some { state with tidNames := .new args.now } := htakenAt
      rw [ht, StateTracker.procMap_update, hat, ← htaken, StateTracker.procMap_update,
        Function.update_idem]
      rfl
    · rw [ht, refs_update, ← htaken, refs_update]
    · intro d hd
      rcases hdirs d hd with hd | hresolved
      · exact absurd hd List.not_mem_nil
      · exact hresolved

/-- While every process of the pass is alive, a step of it gives nothing back. -/
theorem relockPid_relocked {P : Int → Option ProcessState} {n : String → Nat}
    (halive : ∀ pid p, P pid = some p → view.alive pid = true) (rctx : RelockContext)
    (decision : DecisionEngine) (applied : Nat) (pid : Int) :
    Keeps (Relocked fnmatch view args.cfg args.now P n)
      (relockPid fnmatch env args rctx decision applied pid) := by
  refine Triple.get fun s hs => ?_
  cases hp : s.tracker.procs.lookup pid with
  | none => exact Triple.pure fun t ht => ht ▸ hs
  | some p =>
      obtain ⟨p₀, hp₀, -⟩ := hs.known hp
      have halivePid := halive pid p₀ hp₀
      have hasked := ask_answers (hshows.alive pid) (f := System.tracker) (fun _ _ => rfl) s.tracker
      refine Triple.bind (hasked.mono (fun t ht => congrArg System.tracker ht) fun _ _ h => h)
        fun alive => Triple.pre fun hanswer => ?_
      rw [hanswer, halivePid, Bool.not_true, if_neg Bool.false_ne_true]
      refine Triple.bind (Q := fun _ t => t.tracker = s.tracker) (fun t ht => ht) fun adj => ?_
      dsimp only
      have hbump : ∀ f, Triple (fun t : System κ => t.tracker = s.tracker) (bumpRelock f)
          fun _ t => t.tracker = s.tracker := fun f t ht => ht
      have hquiet : ∀ f, Triple (fun t : System κ => t.tracker = s.tracker)
          (do bumpRelock f; pure applied) fun _ =>
            Relocked fnmatch view args.cfg args.now P n := fun f =>
        Triple.bind (hbump f) fun _ => Triple.pure fun t ht => hs.of_tracker ht
      cases decision.decideCtx _ with
      | skip reason => exact hquiet _
      | degrade level reason => exact hquiet _
      | allow reason =>
          refine Triple.bind (hbump _) fun _ => Triple.fix fun t ht => ?_
          have hknown : t.tracker.procs.lookup pid = some p := by rw [ht, hp]
          refine Triple.bind (refreshProcessRules_dirs fnmatch args hshows hknown) fun scanned => ?_
          refine Triple.bind (Q := fun _ => Relocked fnmatch view args.cfg args.now P n) ?_ fun _ =>
            Triple.pure fun _ h => h
          refine Triple.modify fun u ⟨⟨q, hq, hprocs⟩, hrefs, hds⟩ => ?_
          exact (hs.of_tracker ht).scanned hknown hq hprocs hrefs hds

theorem relockAll_relocked {P : Int → Option ProcessState} {n : String → Nat}
    (halive : ∀ pid p, P pid = some p → view.alive pid = true) (cfg : ConfigSnapshot)
    (topo : CpuTopology) (now : Int) (rctx : RelockContext) (decision : DecisionEngine) :
    Keeps (Relocked fnmatch view cfg now P n)
      (relockAll fnmatch env cfg topo now rctx decision) := by
  have hquiet : ∀ {α : Type} {x : Run κ α}, Frame System.tracker x →
      Keeps (Relocked fnmatch view cfg now P n) x := fun hx s hs => hs.of_tracker (hx s)
  refine Keeps.bind (hquiet fun _ => rfl) fun rtAllowed => ?_
  refine Keeps.bind (hquiet fun _ => rfl) fun all => ?_
  exact Keeps.foldlM all (fun n' pid =>
    relockPid_relocked fnmatch ⟨cfg, topo, now, rtAllowed⟩ hshows halive rctx decision n' pid) 0

end Scans

/-- The processes that a reload keeps. -/
def keptProcs (t : StateTracker) (cfg : ConfigSnapshot) (pid : Int) : Option ProcessState :=
  (t.procMap pid).filter fun p => p.pkg ∈ pkgSet cfg

theorem reloadTracker_relocked (b : Boot κ) (cfg : ConfigSnapshot) (rctx : RelockContext)
    (s : System κ) {view : ProcView} {now : Nat} (hshows : b.env.Shows view)
    (hnow : Core.Answers b.env.nowSecs now)
    (halive : ∀ pid p, s.tracker.procs.lookup pid = some p → view.alive pid = true) :
    Relocked b.fnmatch view cfg now (keptProcs s.tracker cfg) (keptRefs s.tracker (pkgSet cfg))
      ((b.reloadTracker cfg rctx).run s).2 := by
  have hprocs : ((retainConfigured b.env cfg).run s).2.tracker.procMap =
      keptProcs s.tracker cfg := by
    funext pid
    exact lookup_retainInterested b.env (pkgSet cfg) s pid
  have hrefs : ((retainConfigured b.env cfg).run s).2.tracker.refs =
      keptRefs s.tracker (pkgSet cfg) := retainInterested_refs b.env (pkgSet cfg) s
  have hretained : Relocked b.fnmatch view cfg now (keptProcs s.tracker cfg)
      (keptRefs s.tracker (pkgSet cfg)) ((retainConfigured b.env cfg).run s).2 := by
    rw [← hprocs, ← hrefs]
    exact relocked_refl _
  have hkept : ∀ pid p, keptProcs s.tracker cfg pid = some p → view.alive pid = true := by
    intro pid p hp
    exact halive pid p (Option.filter_eq_some_iff.mp hp).1
  have hpass := relockAll_relocked b.fnmatch hshows hkept (n := keptRefs s.tracker (pkgSet cfg))
    cfg b.topo now rctx b.decision
  have hspec : Triple (fun t => t = s) (b.reloadTracker cfg rctx) fun _ =>
      Relocked b.fnmatch view cfg now (keptProcs s.tracker cfg)
        (keptRefs s.tracker (pkgSet cfg)) := by
    refine Triple.bind (Q := fun _ => Relocked b.fnmatch view cfg now (keptProcs s.tracker cfg)
      (keptRefs s.tracker (pkgSet cfg))) ?_ fun _ => ?_
    · rintro t rfl
      exact hretained
    · refine Triple.bind (Q := fun n t => n = now ∧ Relocked b.fnmatch view cfg now
        (keptProcs s.tracker cfg) (keptRefs s.tracker (pkgSet cfg)) t) ?_ fun n => ?_
      · exact fun t ht => ⟨hnow t.kernel, ht.of_tracker rfl⟩
      · refine Triple.pre ?_
        rintro rfl
        exact hpass
  exact hspec s rfl

/-- After a reload that finds every tracked process alive, each counted directory is one that
the new configuration resolves to for a current thread of a tracked process, exactly when this
is so of each directory that is still counted once the dropped processes have given theirs back.
What the gate decides and how the applications end does not matter. -/
theorem reload_releases_iff (b : Boot κ) (a : Answers) (next : Station) (d : DaemonState κ)
    (view : ProcView) (now : Nat) (hshows : b.env.Shows view)
    (hnow : Core.Answers b.env.nowSecs now)
    (halive : ∀ pid p, d.sys.tracker.procs.lookup pid = some p → view.alive pid = true) :
    let cfg := d.shared.store
    let t := (b.doReload a next d).sys.tracker
    (∀ dir, 0 < t.refs dir → DirWanted b.fnmatch view cfg now t.procMap dir) ↔
      ∀ dir, 0 < keptRefs d.sys.tracker (pkgSet cfg) dir →
        DirWanted b.fnmatch view cfg now (keptProcs d.sys.tracker cfg) dir := by
  intro cfg t
  have hpass := reloadTracker_relocked b cfg a.rctx d.sys hshows hnow halive
  constructor
  · intro h dir hdir
    exact (hpass.wanted_iff dir).mp (h dir (hpass.kept dir hdir))
  · intro h dir hdir
    refine (hpass.wanted_iff dir).mpr ?_
    rcases hpass.counted dir hdir with hkept | hwanted
    · exact h dir hkept
    · exact hwanted

/-! ## A rule that moves to another CPU -/

def cpuOneRules : Compiled where
  rules := (compile [.ofCpus "com.a" "" "1"] (.flat 4)).rules
  engine := { EngineConfig.default with migrateAction := .force }

def cpuOneBoot : Boot Unit where
  fnmatch := glob
  env := oneThreadView.env
  topo := .default
  scanInterval := 2
  initial := cpuOneRules
  source := .proc .new

/-- The daemon that has scanned `com.a` on CPU 1, when the configuration puts it on CPU 0. -/
def movedDaemon : DaemonState Unit :=
  let d := cpuOneBoot.start ()
  let scan := handleEvents glob cpuOneBoot.env [(ProcessEvent.fork 7 7).withPkg "com.a"] d.cfg
    cpuOneBoot.topo 0
  { d with sys := (scan.run d.sys).2, shared := ⟨cpuZeroConfig, []⟩ }

theorem movedDaemon_alive (pid : Int) (p : ProcessState)
    (hp : movedDaemon.sys.tracker.procs.lookup pid = some p) : oneThreadView.alive pid = true := by
  have hkeys : movedDaemon.sys.tracker.procs.keys = [7] := by decide +kernel
  have hmem : pid ∈ movedDaemon.sys.tracker.procs.keys :=
    AList.lookup_isSome.mp (by rw [hp, Option.isSome_some])
  rw [hkeys, List.mem_singleton] at hmem
  rw [hmem]
  rfl

theorem reload_releases_at_com_a :
    let t := (cpuOneBoot.doReload {} .ipc movedDaemon).sys.tracker
    (∀ dir, 0 < t.refs dir → DirWanted glob oneThreadView cpuZeroConfig 0 t.procMap dir) ↔
      ∀ dir, 0 < keptRefs movedDaemon.sys.tracker (pkgSet cpuZeroConfig) dir →
        DirWanted glob oneThreadView cpuZeroConfig 0
          (keptProcs movedDaemon.sys.tracker cpuZeroConfig) dir :=
  reload_releases_iff cpuOneBoot {} .ipc movedDaemon oneThreadView 0 oneThreadView.env_shows
    (fun _ => rfl) movedDaemon_alive

/-- The directory of CPU 1 keeps its count, and no rule names it any more. -/
theorem reload_keeps_old_directory :
    let t := (cpuOneBoot.doReload {} .ipc movedDaemon).sys.tracker
    ¬∀ dir, 0 < t.refs dir → DirWanted glob oneThreadView cpuZeroConfig 0 t.procMap dir := by
  intro t h
  have hcount : t.refs "1" = 1 := by decide +kernel
  have htracked : (t.procs.entries.map fun e => (e.1, e.2.pkg)) = [(7, "com.a")] := by
    decide +kernel
  have hthreads : cpuZeroConfig.rules.hasThreadRules glob "com.a" = false := by decide +kernel
  have hdir : (cpuZeroConfig.rules.resolve glob "com.a" "").map Policy.cpusetDir = some "0" := by
    decide +kernel
  obtain ⟨pid, p, hp, tid, -, policy, hpolicy, hname⟩ := h "1" (by omega)
  have hentry : (pid, p.pkg) ∈ t.procs.entries.map fun e => (e.1, e.2.pkg) :=
    List.mem_map_of_mem (AList.mem_lookup_iff.mp hp)
  rw [htracked, List.mem_singleton] at hentry
  have hpkg : p.pkg = "com.a" := congrArg Prod.snd hentry
  rw [policyOf, hpkg, hthreads] at hpolicy
  rw [if_neg Bool.false_ne_true] at hpolicy
  rw [hpolicy, Option.map_some, hname] at hdir
  exact absurd hdir (by decide)

end Threadctl.Daemon

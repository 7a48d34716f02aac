import Mathlib.Data.Finset.Card
import Threadctl.Core.TrackedPids

/-!
# What a relock counts

A relock pass walks the tracked processes once.  A process that is found dead in its turn is
removed; about one that is found alive the gate decides once, and the decision is counted:
allowed, skipped or degraded.
-/

namespace Threadctl.Core

open Threadctl.Support Threadctl.Support.Runs Threadctl.Support.StateRun

variable {κ : Type}

/-! ## The tally -/

def RelockStats.total (r : RelockStats) : Nat := r.allow + r.skip + r.degrade

def RelockStats.count (r : RelockStats) : Decision → RelockStats
  | .allow _ => { r with allow := r.allow + 1 }
  | .skip _ => { r with skip := r.skip + 1 }
  | .degrade _ _ => { r with degrade := r.degrade + 1 }

theorem total_count (r : RelockStats) (d : Decision) : (r.count d).total = r.total + 1 := by
  cases d with
  | allow reason =>
      show r.allow + 1 + r.skip + r.degrade = r.allow + r.skip + r.degrade + 1
      omega
  | skip reason =>
      show r.allow + (r.skip + 1) + r.degrade = r.allow + r.skip + r.degrade + 1
      omega
  | degrade level reason => rfl

theorem total_foldl_count (ds : List Decision) (r : RelockStats) :
    (ds.foldl RelockStats.count r).total = r.total + ds.length := by
  induction ds generalizing r with
  | nil => rfl
  | cons d ds ih =>
      calc (ds.foldl RelockStats.count (r.count d)).total
        _ = (r.count d).total + ds.length := ih (r.count d)
        _ = r.total + (ds.length + 1) := by rw [total_count, Nat.add_assoc, Nat.add_comm 1]

def System.trackedPids (s : System κ) : Finset Int := s.tracker.procs.keys.toFinset

theorem mem_trackedPids {s : System κ} {pid : Int} :
    pid ∈ s.trackedPids ↔ s.tracker.contains pid = true := by
  rw [System.trackedPids, List.mem_toFinset, ← AList.mem_keys, StateTracker.contains,
    AList.lookup_isSome]

/-- What a pass is counted by. -/
def tally (s : System κ) : Finset Int × RelockStats := (s.trackedPids, s.relockStats)

theorem overlooksAll_tally (env : Env κ) : OverlooksAll env (tally (κ := κ)) where
  auditLog _ _ := rfl
  ensuredDirs _ _ := rfl
  uclampSupport _ _ := rfl
  shortCircuitTotal _ _ := rfl
  calls _ _ := rfl
  appendTask _ _ _ := rfl

theorem frame_tally_tracker {f : StateTracker → StateTracker}
    (hf : ∀ t q, (f t).contains q = t.contains q) :
    Frame (tally (κ := κ)) (modifyTracker f) := by
  intro s
  refine Prod.ext (Finset.ext fun q => ?_) rfl
  exact (mem_trackedPids.trans (by rw [← hf s.tracker q]; rfl)).trans mem_trackedPids.symm

theorem frame_tally_update (pid : Int) (f : ProcessState → ProcessState) :
    Frame (tally (κ := κ)) (modifyTracker fun t => t.update pid f) :=
  frame_tally_tracker fun t q => contains_update t pid q f

theorem frame_tally_registerDirs (pid : Int) (dirs : List String) :
    Frame (tally (κ := κ)) (modifyTracker fun t => t.registerDirs pid dirs) :=
  frame_tally_tracker fun t q => contains_registerDirs t pid q dirs

theorem frame_tally_releaseState (env : Env κ) (state : ProcessState) :
    Frame tally (releaseState env state) :=
  frame_releaseState env (fun _ _ => rfl) (fun _ _ => rfl) (fun _ _ => rfl) (fun _ _ => rfl) state

theorem tally_erase (pid : Int) (T : Finset Int) (n : RelockStats) :
    Triple (fun s => tally s = (T, n))
      (modifyTracker (κ := κ) fun t => { t with procs := t.procs.erase pid }) fun _ s =>
        tally s = (T.erase pid, n) := by
  intro s hs
  obtain ⟨rfl, rfl⟩ := Prod.mk.inj hs
  refine Prod.ext (Finset.ext fun q => ?_) rfl
  rw [Finset.mem_erase, mem_trackedPids]
  exact mem_trackedPids.trans (contains_erase s.tracker pid q)

theorem tally_insert (pid : Int) (p : ProcessState) (T : Finset Int) (n : RelockStats) :
    Triple (fun s => tally s = (T, n))
      (modifyTracker (κ := κ) fun t => { t with procs := t.procs.insert pid p }) fun _ s =>
        tally s = (insert pid T, n) := by
  intro s hs
  obtain ⟨rfl, rfl⟩ := Prod.mk.inj hs
  refine Prod.ext (Finset.ext fun q => ?_) rfl
  rw [Finset.mem_insert, mem_trackedPids]
  exact mem_trackedPids.trans (contains_insert s.tracker pid q p)

section Operations

variable (env : Env κ) {T : Finset Int} {n : RelockStats} {pid : Int}

theorem remove_tally (pid : Int) :
    Triple (fun s => tally s = (T, n)) (remove env pid) fun removed s =>
      tally s = (T.erase pid, n) ∧ (removed = true ↔ pid ∈ T) := by
  apply Triple.get
  intro s hs
  obtain ⟨rfl, rfl⟩ := Prod.mk.inj hs
  have hmem : pid ∈ s.trackedPids ↔ (s.tracker.procs.lookup pid).isSome = true := mem_trackedPids
  cases hp : s.tracker.procs.lookup pid with
  | none =>
      rw [hp] at hmem
      have hnot : pid ∉ s.trackedPids := fun h => absurd (hmem.mp h) (by decide)
      refine Triple.pure fun t ht => ⟨?_, by simp [hnot]⟩
      rw [ht, Finset.erase_eq_of_notMem hnot]
      rfl
  | some state =>
      rw [hp] at hmem
      have hin : pid ∈ s.trackedPids := hmem.mpr rfl
      refine Triple.bind (Q := fun _ t =>
        tally t = (s.trackedPids.erase pid, s.relockStats)) ?_ fun _ => ?_
      · exact (tally_erase pid _ _).mono (fun t ht => by rw [ht]; rfl) fun _ _ h => h
      · refine Triple.bind ((frame_tally_releaseState env state).keeps (· = _)) fun _ => ?_
        exact Triple.pure fun t ht => ⟨ht, by simp [hin]⟩

theorem enter_tally (hpid : pid ∈ T) (pkg : String) (now : Int) :
    Keeps (fun s => tally s = (T, n)) (enter env pid pkg now) := by
  have hsame : insert pid T = T := Finset.insert_eq_of_mem hpid
  have hback : insert pid (T.erase pid) = T := Finset.insert_erase hpid
  refine Triple.peek fun s hs => ?_
  have hin : (s.tracker.procs.lookup pid).isSome = true := by
    obtain ⟨rfl, -⟩ := Prod.mk.inj hs
    exact mem_trackedPids.mp hpid
  cases hp : s.tracker.procs.lookup pid with
  | none =>
      rw [hp] at hin
      exact absurd hin Bool.false_ne_true
  | some ex =>
      refine Keeps.ite Keeps.pure (Keeps.bind (fun t ht => ht) fun read => Keeps.ite ?_ ?_)
      · refine Triple.bind (tally_insert pid _ T n) fun _ => Triple.pure fun t ht => ?_
        rw [ht, hsame]
      · refine Triple.bind (tally_erase pid T n) fun _ => ?_
        refine Triple.bind ((frame_tally_releaseState env ex).keeps (· = (T.erase pid, n))) ?_
        refine fun _ => Triple.bind (Q := fun _ s => tally s = (T.erase pid, n)) (fun t ht => ht) ?_
        refine fun st => Triple.bind (tally_insert pid _ _ n) fun _ => Triple.pure fun t ht => ?_
        rw [ht, hback]

theorem pids_tally :
    Triple (fun s => tally s = (T, n)) (pids env) fun all s =>
      (all.Nodup ∧ all.toFinset = T) ∧ tally s = (T, n) := by
  intro s hs
  obtain ⟨rfl, rfl⟩ := Prod.mk.inj hs
  have hperm := env.order_perm s.kernel s.tracker.procs.keys
  exact ⟨⟨hperm.nodup_iff.mpr s.tracker.procs.keys_nodup, List.toFinset_eq_of_perm _ _ hperm⟩, rfl⟩

end Operations

/-! ## Turns -/

section Turns

variable (fnmatch : String → String → Bool) (env : Env κ) {T : Finset Int} {n : RelockStats}
  {pid : Int}

theorem frame_tally_scanTid (args : EngineArgs) (pkg : String) (acc : ScanState) (tid : Int) :
    Frame (tally (κ := κ)) (scanTid fnmatch env args pkg acc tid) := by
  have hview := overlooksAll_tally env
  refine Frame.bind (frame_threadNameFor hview.toOverlooks _ _ _ _) fun named => ?_
  dsimp only
  cases args.cfg.rules.resolve fnmatch pkg named.1 with
  | none => exact Frame.pure
  | some policy =>
      exact Frame.bind (applyThread_view tid pkg hview policy _ _) fun _ => Frame.pure

theorem refreshProcessRules_tally (hpid : pid ∈ T) (args : EngineArgs) (pkg : String) :
    Keeps (fun s => tally s = (T, n)) (refreshProcessRules fnmatch env args pid pkg) := by
  have henter := enter_tally (n := n) env hpid pkg args.now
  have hupdate : ∀ f, Keeps (fun s : System κ => tally s = (T, n))
      (modifyTracker fun t => t.update pid f) := fun f =>
    (frame_tally_update pid f).keeps (· = (T, n))
  refine Keeps.bind (fun s hs => hs) fun tids => ?_
  refine Keeps.bind henter fun state => Keeps.bind (hupdate _) fun _ => ?_
  refine Keeps.bind (Keeps.foldlM tids (fun acc tid => ?_) _) fun acc => ?_
  · exact (frame_tally_scanTid fnmatch env args pkg acc tid).keeps (· = (T, n))
  · exact Keeps.bind henter fun _ => Keeps.bind (hupdate _) fun _ => Keeps.pure

theorem bumpRelock_tally (f : RelockStats → RelockStats) :
    Triple (fun s : System κ => tally s = (T, n)) (bumpRelock f) fun _ s => tally s = (T, f n) := by
  intro s hs
  obtain ⟨rfl, rfl⟩ := Prod.mk.inj hs
  rfl

/-- What the kernel answers when it is asked for the process now. -/
def foundAlive (pid : Int) (s : System κ) : Bool := ((ask (env.isAlive pid)).run s).1

/-- What the gate decides about a process that has been found alive. -/
def decided (rctx : RelockContext) (decision : DecisionEngine) (pid : Int) (s : System κ) :
    Decision :=
  let asked := ((ask (env.isAlive pid)).run s).2
  let intent := TaskIntent.fromOomAdj ((ask (env.readOomAdj pid)).run asked).1
  decision.decideCtx ⟨rctx, intent, intent = .interactive⟩

variable (args : EngineArgs) (rctx : RelockContext) (decision : DecisionEngine)

/-- What the kernel answers when the turn of a tracked process comes up decides what the
turn does: one that lives stays and its decision is counted, a dead one goes uncounted. -/
structure Turn (pid : Int) (s s' : System κ) : Prop where
  alive : foundAlive env pid s = true →
    tally s' = (s.trackedPids, s.relockStats.count (decided env rctx decision pid s))
  dead : foundAlive env pid s = false → tally s' = (s.trackedPids.erase pid, s.relockStats)

variable {rctx decision}

theorem gated_tally (hpid : pid ∈ T) (pkg : String) (applied : Nat) (d : Decision) :
    Triple (fun s => tally s = (T, n))
      (match d with
        | .skip _ => do
            bumpRelock fun r => { r with skip := r.skip + 1 }
            pure applied
        | .degrade _ _ => do
            bumpRelock fun r => { r with degrade := r.degrade + 1 }
            pure applied
        | .allow _ => do
            bumpRelock fun r => { r with allow := r.allow + 1 }
            let scanned ← refreshProcessRules fnmatch env args pid pkg
            modifyTracker fun t => t.registerDirs pid scanned.2
            pure (applied + scanned.1) : Run κ Nat)
      fun _ s => tally s = (T, n.count d) := by
  cases d with
  | skip reason | degrade level reason =>
      exact Triple.bind (bumpRelock_tally _) fun _ => Triple.pure fun t ht => ht
  | allow reason =>
      refine Triple.bind (bumpRelock_tally _) fun _ => ?_
      refine Triple.bind (refreshProcessRules_tally fnmatch env hpid args pkg) fun scanned => ?_
      exact Triple.bind ((frame_tally_registerDirs pid scanned.2).keeps (· = _)) fun _ =>
        Triple.pure fun t ht => ht

theorem relockPid_turn {s : System κ} (hpid : pid ∈ s.trackedPids) (applied : Nat) :
    Turn env rctx decision pid s
      ((relockPid fnmatch env args rctx decision applied pid).run s).2 := by
  obtain ⟨state, hstate⟩ := Option.isSome_iff_exists.mp (mem_trackedPids.mp hpid)
  let asked := ((ask (env.isAlive pid)).run s).2
  let adj := (ask (env.readOomAdj pid)).run asked
  have hturn : Triple (fun t => t = s) (relockPid fnmatch env args rctx decision applied pid)
      fun _ t => Turn env rctx decision pid s t := by
    refine Triple.get fun t ht => ?_
    rw [ht, hstate]
    refine Triple.bind (Q := fun alive t => alive = foundAlive env pid s ∧ t = asked)
      (fun t ht => by rw [ht]; exact ⟨rfl, rfl⟩) fun alive => Triple.pre fun halive => ?_
    refine Triple.ite_of (fun hdead => ?_) fun hlives => ?_
    · have hdead : foundAlive env pid s = false := by simpa [halive] using hdead
      refine Triple.bind
        (Triple.mono (remove_tally env pid) (fun t ht => by rw [ht]; rfl) fun _ _ h => h)
        fun removed => Triple.pure fun t ht => ⟨fun h => ?_, fun _ => ht.1⟩
      exact absurd (h.symm.trans hdead) (by decide)
    · have hlives : foundAlive env pid s = true := by simpa [halive] using hlives
      refine Triple.bind (Q := fun a t => a = adj.1 ∧ t = adj.2)
        (fun t ht => by rw [ht]; exact ⟨rfl, rfl⟩) fun a => Triple.pre ?_
      rintro rfl
      have hgated := gated_tally fnmatch env args (n := s.relockStats) hpid state.pkg applied
        (decided env rctx decision pid s)
      refine Triple.mono hgated (fun t ht => by rw [ht]; rfl) fun _ t ht =>
        ⟨fun _ => ht, fun h => ?_⟩
      exact absurd (hlives.symm.trans h) (by decide)
  exact hturn s rfl

end Turns

/-! ## Passes -/

section Passes

variable (fnmatch : String → String → Bool) (env : Env κ)

section Turns

variable (args : EngineArgs) (rctx : RelockContext) (decision : DecisionEngine)

/-- The turn of one process; its applications are added up beside the system. -/
def relockTurn (r : Nat × System κ) (pid : Int) : Nat × System κ :=
  (relockPid fnmatch env args rctx decision r.1 pid).run r.2

def verdict (r : Nat × System κ) (pid : Int) : List (Int × Decision) :=
  if foundAlive env pid r.2 then [(pid, decided env rctx decision pid r.2)] else []

def verdicts (r : Nat × System κ) (order : List Int) : List (Int × Decision) :=
  output (relockTurn fnmatch env args rctx decision) (verdict env rctx decision) r order

variable {args rctx decision}

theorem relockTurn_turn {r : Nat × System κ} {pid : Int} (hpid : pid ∈ r.2.trackedPids) :
    Turn env rctx decision pid r.2 (relockTurn fnmatch env args rctx decision r pid).2 :=
  relockPid_turn fnmatch env args hpid r.1

/-- A process stays tracked if its turn ends with a decision, and that is counted. -/
theorem relockTurn_counted {r : Nat × System κ} {pid : Int} (hpid : pid ∈ r.2.trackedPids) :
    let ds := verdict env rctx decision r pid
    let r' := relockTurn fnmatch env args rctx decision r pid
    (ds.map Prod.fst).Sublist [pid] ∧
      r'.2.trackedPids = r.2.trackedPids.erase pid ∪ (ds.map Prod.fst).toFinset ∧
      r'.2.relockStats = (ds.map Prod.snd).foldl RelockStats.count r.2.relockStats := by
  have hturn : Turn env rctx decision pid r.2
      (relockTurn fnmatch env args rctx decision r pid).2 := relockTurn_turn fnmatch env hpid
  dsimp only
  cases hfound : foundAlive env pid r.2 with
  | true =>
      obtain ⟨hsame, hcount⟩ := Prod.mk.inj (hturn.alive hfound)
      have hone : verdict env rctx decision r pid =
          [(pid, decided env rctx decision pid r.2)] := if_pos hfound
      rw [hone]
      refine ⟨List.Sublist.refl _, hsame.trans (Finset.ext fun q => ?_), hcount⟩
      by_cases hq : q = pid
      · simp [hq, hpid]
      · simp [hq]
  | false =>
      obtain ⟨hgone, hcount⟩ := Prod.mk.inj (hturn.dead hfound)
      have hnone : verdict env rctx decision r pid = [] :=
        if_neg (by rw [hfound]; exact Bool.false_ne_true)
      rw [hnone]
      exact ⟨List.nil_sublist _, hgone.trans (Finset.union_empty _).symm, hcount⟩

/-- Of the processes that have had their turn those with a decision are left. -/
theorem turns_counted {order : List Int} (hnodup : order.Nodup) {r : Nat × System κ}
    (htracked : ∀ pid ∈ order, pid ∈ r.2.trackedPids) :
    let ds := verdicts fnmatch env args rctx decision r order
    let r' := run (relockTurn fnmatch env args rctx decision) r order
    (ds.map Prod.fst).Sublist order ∧
      r'.2.trackedPids = r.2.trackedPids \ order.toFinset ∪ (ds.map Prod.fst).toFinset ∧
      r'.2.relockStats = (ds.map Prod.snd).foldl RelockStats.count r.2.relockStats := by
  induction order generalizing r with
  | nil => simp [verdicts, output, run]
  | cons pid order ih =>
      obtain ⟨hnew, hrest⟩ := List.nodup_cons.mp hnodup
      have hpid : pid ∈ r.2.trackedPids := htracked pid List.mem_cons_self
      obtain ⟨hone, hturn, hcount⟩ := @relockTurn_counted κ fnmatch env args rctx decision r pid hpid
      have hstill : ∀ q ∈ order,
          q ∈ (relockTurn fnmatch env args rctx decision r pid).2.trackedPids := by
        intro q hq
        rw [hturn]
        refine Finset.mem_union_left _ (Finset.mem_erase.mpr ⟨fun h => hnew (h ▸ hq), ?_⟩)
        exact htracked q (List.mem_cons_of_mem pid hq)
      obtain ⟨hsub, hleft, hstats⟩ := ih hrest hstill
      have hds : verdicts fnmatch env args rctx decision r (pid :: order) =
          verdict env rctx decision r pid ++ verdicts fnmatch env args rctx decision
            (relockTurn fnmatch env args rctx decision r pid) order := rfl
      -- the process of this turn has none later
      have hapart : ((verdict env rctx decision r pid).map Prod.fst).toFinset \ order.toFinset =
          ((verdict env rctx decision r pid).map Prod.fst).toFinset := by
        refine Finset.sdiff_eq_self_of_disjoint (Finset.disjoint_left.mpr fun q hq hlater => ?_)
        have hq : q = pid := List.mem_singleton.mp (hone.subset (List.mem_toFinset.mp hq))
        exact hnew (hq ▸ List.mem_toFinset.mp hlater)
      rw [hds]
      dsimp only
      rw [List.map_append, List.map_append, List.foldl_append, List.toFinset_append]
      refine ⟨hone.append hsub, ?_, ?_⟩
      · calc (run (relockTurn fnmatch env args rctx decision) r (pid :: order)).2.trackedPids
          _ = (r.2.trackedPids.erase pid ∪
                ((verdict env rctx decision r pid).map Prod.fst).toFinset) \ order.toFinset ∪
              ((verdicts fnmatch env args rctx decision
                (relockTurn fnmatch env args rctx decision r pid) order).map
                  Prod.fst).toFinset := hleft.trans (by rw [hturn])
          _ = _ := by
            rw [Finset.union_sdiff_distrib, hapart, Finset.union_assoc, List.toFinset_cons,
              Finset.erase_sdiff_comm, Finset.sdiff_insert]
      · rw [← hcount]
        exact hstats

theorem mem_of_verdict {r : Nat × System κ} {pid : Int} {d : Int × Decision}
    (h : d ∈ verdict env rctx decision r pid) : d.1 = pid := by
  unfold verdict at h
  split at h
  · rw [List.mem_singleton.mp h]
  · exact absurd h List.not_mem_nil

theorem mem_of_verdicts {order : List Int} {r : Nat × System κ} {d : Int × Decision}
    (h : d ∈ verdicts fnmatch env args rctx decision r order) : d.1 ∈ order := by
  induction order generalizing r with
  | nil => exact absurd h List.not_mem_nil
  | cons pid order ih =>
      rcases List.mem_append.mp h with hfirst | hrest
      · rw [mem_of_verdict env hfirst]
        exact List.mem_cons_self
      · exact List.mem_cons_of_mem pid (ih hrest)

theorem verdicts_filter {before after : List Int} {pid : Int}
    (hnodup : (before ++ pid :: after).Nodup) (r : Nat × System κ) :
    (verdicts fnmatch env args rctx decision r (before ++ pid :: after)).filter (·.1 = pid) =
      verdict env rctx decision (run (relockTurn fnmatch env args rctx decision) r before) pid := by
  have hpid : pid ∉ before ++ after := (List.nodup_middle.mp hnodup).notMem
  have hnone : ∀ order r', pid ∉ order →
      (verdicts fnmatch env args rctx decision r' order).filter (·.1 = pid) = [] := by
    intro order r' hpid
    refine List.filter_eq_nil_iff.mpr fun d hd hq => hpid ?_
    rw [← of_decide_eq_true hq]
    exact mem_of_verdicts fnmatch env hd
  have hone : ∀ r', (verdict env rctx decision r' pid).filter (·.1 = pid) =
      verdict env rctx decision r' pid := fun r' =>
    List.filter_eq_self.mpr fun d hd => decide_eq_true (mem_of_verdict env hd)
  have hsplit : verdicts fnmatch env args rctx decision r (before ++ pid :: after) =
      verdicts fnmatch env args rctx decision r before ++
        (verdict env rctx decision (run (relockTurn fnmatch env args rctx decision) r before) pid ++
          verdicts fnmatch env args rctx decision (relockTurn fnmatch env args rctx decision
            (run (relockTurn fnmatch env args rctx decision) r before) pid) after) :=
    output_append _ _ r before (pid :: after)
  rw [hsplit, List.filter_append, List.filter_append, hone,
    hnone before _ fun h => hpid (List.mem_append_left after h),
    hnone after _ fun h => hpid (List.mem_append_right before h), List.nil_append,
    List.append_nil]

end Turns

variable (cfg : ConfigSnapshot) (topo : CpuTopology) (now : Int) (rctx : RelockContext)
  (decision : DecisionEngine)

/-- The processes of a pass in the order of their turns, and the system as it walks them. -/
def passOrder (s : System κ) : List Int × System κ :=
  (pids env).run ((ask env.canRtSched).run s).2

def passArgs (s : System κ) : EngineArgs := ⟨cfg, topo, now, ((ask env.canRtSched).run s).1⟩

/-- The decisions of a pass, each with the process that it is about. -/
def passDecisions (s : System κ) : List (Int × Decision) :=
  verdicts fnmatch env (passArgs env cfg topo now s) rctx decision (0, (passOrder env s).2)
    (passOrder env s).1

def AtEachTurn (Q : System κ → Int → Prop) (s : System κ) : Prop :=
  AtEach (relockTurn fnmatch env (passArgs env cfg topo now s) rctx decision)
    (fun r pid => Q r.2 pid) (0, (passOrder env s).2) (passOrder env s).1

/-- What a pass has done to each process that was tracked before it. -/
structure PassDone (s s' : System κ) : Prop where
  /-- Every tracked process has one turn, and at most one decision. -/
  turns : (passOrder env s).1.Nodup ∧ (passOrder env s).1.toFinset = s.trackedPids
  once : ((passDecisions fnmatch env cfg topo now rctx decision s).map Prod.fst).Nodup
  /-- One that is found alive stays tracked, and there is one decision about it. -/
  alive : AtEachTurn fnmatch env cfg topo now rctx decision (fun t pid =>
    foundAlive env pid t = true → pid ∈ s'.trackedPids ∧
      (passDecisions fnmatch env cfg topo now rctx decision s).filter (·.1 = pid) =
        [(pid, decided env rctx decision pid t)]) s
  /-- One that is found dead is removed, without a decision. -/
  dead : AtEachTurn fnmatch env cfg topo now rctx decision (fun t pid =>
    foundAlive env pid t = false → pid ∉ s'.trackedPids ∧
      (passDecisions fnmatch env cfg topo now rctx decision s).filter (·.1 = pid) = []) s
  left : s'.trackedPids =
    ((passDecisions fnmatch env cfg topo now rctx decision s).map Prod.fst).toFinset
  counted : s'.relockStats = ((passDecisions fnmatch env cfg topo now rctx decision s).map
    Prod.snd).foldl RelockStats.count s.relockStats

theorem relockAll_run (s : System κ) :
    (relockAll fnmatch env cfg topo now rctx decision).run s =
      run (relockTurn fnmatch env (passArgs env cfg topo now s) rctx decision)
        (0, (passOrder env s).2) (passOrder env s).1 :=
  foldlM_run (passOrder env s).1 0 (passOrder env s).2

theorem passOrder_spec (s : System κ) :
    ((passOrder env s).1.Nodup ∧ (passOrder env s).1.toFinset = s.trackedPids) ∧
      tally (passOrder env s).2 = tally s :=
  pids_tally env ((ask env.canRtSched).run s).2 rfl

/-- A pass does to each tracked process what the kernel's answers in its turn ask for. -/
theorem relockAll_passDone (s : System κ) :
    PassDone fnmatch env cfg topo now rctx decision s
      ((relockAll fnmatch env cfg topo now rctx decision).run s).2 := by
  obtain ⟨⟨hnodup, hall⟩, htally⟩ := passOrder_spec env s
  obtain ⟨htracked, hstats⟩ := Prod.mk.inj htally
  have hmem : ∀ pid ∈ (passOrder env s).1, pid ∈ (passOrder env s).2.trackedPids := by
    intro pid hpid
    rw [htracked, ← hall]
    exact List.mem_toFinset.mpr hpid
  let start : Nat × System κ := (0, (passOrder env s).2)
  have hstart : ∀ pid ∈ (passOrder env s).1, pid ∈ start.2.trackedPids := hmem
  obtain ⟨hsub, hleft, hcounted⟩ :=
    @turns_counted κ fnmatch env (passArgs env cfg topo now s) rctx decision _ hnodup start hstart
  rw [← relockAll_run] at hleft hcounted
  have hleft : ((relockAll fnmatch env cfg topo now rctx decision).run s).2.trackedPids =
      ((passDecisions fnmatch env cfg topo now rctx decision s).map Prod.fst).toFinset := by
    refine hleft.trans ?_
    rw [htracked, hall, Finset.sdiff_self, Finset.empty_union]
    rfl
  have hturn : ∀ before pid after, (passOrder env s).1 = before ++ pid :: after →
      (passDecisions fnmatch env cfg topo now rctx decision s).filter (·.1 = pid) =
        verdict env rctx decision (run (relockTurn fnmatch env (passArgs env cfg topo now s) rctx
          decision) (0, (passOrder env s).2) before) pid := by
    intro before pid after hsplit
    unfold passDecisions
    rw [hsplit] at hnodup ⊢
    exact verdicts_filter fnmatch env hnodup _
  have htrackedIff : ∀ pid,
      pid ∈ ((relockAll fnmatch env cfg topo now rctx decision).run s).2.trackedPids ↔
        (passDecisions fnmatch env cfg topo now rctx decision s).filter (·.1 = pid) ≠ [] := by
    intro pid
    rw [hleft]
    simp [List.filter_eq_nil_iff]
  refine ⟨⟨hnodup, hall⟩, hnodup.sublist hsub, fun before pid after hsplit hfound => ?_,
    fun before pid after hsplit hfound => ?_, hleft, ?_⟩
  · have hone := (hturn before pid after hsplit).trans (if_pos hfound)
    exact ⟨(htrackedIff pid).mpr (hone ▸ List.cons_ne_nil _ _), hone⟩
  · have hnone := (hturn before pid after hsplit).trans
      (if_neg (by rw [hfound]; exact Bool.false_ne_true))
    exact ⟨fun hpid => (htrackedIff pid).mp hpid hnone, hnone⟩
  · rw [hstats] at hcounted
    exact hcounted

variable {fnmatch env cfg topo now rctx decision}

/-- A pass counts one decision for each process that it leaves tracked. -/
theorem PassDone.total {s s' : System κ}
    (h : PassDone fnmatch env cfg topo now rctx decision s s') :
    s'.relockStats.total = s.relockStats.total + s'.trackedPids.card := by
  rw [h.counted, total_foldl_count, h.left, List.toFinset_card_of_nodup h.once, List.length_map,
    List.length_map]

end Passes

end Threadctl.Core

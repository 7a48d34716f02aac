import Threadctl.Core.Beliefs
import Threadctl.Core.ScanCalls
import Threadctl.Support.Learning

/-!
# One rule for the invariants of the engine

The engine acts on what the kernel has answered so far.  Every application is `Assigned` by
the rules to a thread that is believed then to be one of a process of the package.  An
invariant that survives each operation survives every call of the engine.
-/

namespace Threadctl.Core

open Threadctl.Support Threadctl.Support.Learning Threadctl.Support.StateRun

variable {κ : Type}

/-! ## Each tracked process -/

/-- `Q` holds of every tracked process. -/
def EachTracked (Q : Int → ProcessState → Prop) (s : System κ) : Prop :=
  ∀ pid p, s.tracker.procMap pid = some p → Q pid p

section Each

variable {Q : Int → ProcessState → Prop} {pid : Int}

theorem eachTracked_init (kernel : κ) : EachTracked Q (System.init kernel) := by
  intro pid p h
  simp [System.init, StateTracker.new, StateTracker.procMap] at h

theorem eachTracked_modify {f : StateTracker → StateTracker}
    (hf : ∀ t : StateTracker, (∀ pid p, t.procMap pid = some p → Q pid p) →
      ∃ o, (f t).procMap = Function.update t.procMap pid o ∧ ∀ p, o = some p → Q pid p) :
    Keeps (EachTracked (κ := κ) Q) (modifyTracker f) := by
  intro s hs q p hp
  obtain ⟨o, ho, hQ⟩ := hf s.tracker hs
  change (f s.tracker).procMap q = some p at hp
  rw [ho] at hp
  by_cases hq : q = pid
  · subst hq
    rw [Function.update_self] at hp
    exact hQ p hp
  · rw [Function.update_of_ne hq] at hp
    exact hs q p hp

theorem eachTracked_insert {p : ProcessState} (hp : Q pid p) :
    Keeps (EachTracked (κ := κ) Q)
      (modifyTracker fun t => { t with procs := t.procs.insert pid p }) :=
  eachTracked_modify fun t _ => ⟨some p, t.procMap_insert pid p t.cpusetRefs, fun _ h =>
    Option.some.inj h ▸ hp⟩

theorem eachTracked_erase :
    Keeps (EachTracked (κ := κ) Q)
      (modifyTracker fun t => { t with procs := t.procs.erase pid }) :=
  eachTracked_modify fun t _ => ⟨none, t.procMap_erase pid, fun _ h => absurd h (by simp)⟩

theorem eachTracked_update {f : ProcessState → ProcessState} (hf : ∀ p, Q pid p → Q pid (f p)) :
    Keeps (EachTracked (κ := κ) Q) (modifyTracker fun t => t.update pid f) := by
  refine eachTracked_modify fun t ht => ⟨_, t.procMap_update pid f, fun p hp => ?_⟩
  obtain ⟨old, hold, rfl⟩ := Option.map_eq_some_iff.mp hp
  exact hf old (ht pid old hold)

theorem foldl_registerDir_each {ds : List String}
    (hd : ∀ p, ∀ d ∈ ds, Q pid p → Q pid { p with appliedDirs := p.appliedDirs.insert d })
    (acc : ProcessState × RefCount.Table String) (hacc : Q pid acc.1) :
    Q pid (ds.foldl registerDir acc).1 := by
  induction ds generalizing acc with
  | nil => exact hacc
  | cons d ds ih =>
      rw [List.foldl_cons]
      refine ih (fun p e he => hd p e (List.mem_cons_of_mem d he)) _ ?_
      unfold registerDir
      split
      · exact hacc
      · split
        · exact hacc
        · exact hd acc.1 d List.mem_cons_self hacc

theorem eachTracked_registerDirs {ds : List String}
    (hd : ∀ p, ∀ d ∈ ds, Q pid p → Q pid { p with appliedDirs := p.appliedDirs.insert d }) :
    Keeps (EachTracked (κ := κ) Q) (modifyTracker fun t => t.registerDirs pid ds) := by
  apply @eachTracked_modify κ Q pid
  intro t ht
  unfold StateTracker.registerDirs
  cases h : t.procs.lookup pid with
  | none =>
      exact ⟨none, (Function.update_eq_self_iff.mpr h.symm).symm, fun _ h => absurd h (by simp)⟩
  | some state =>
      refine ⟨_, t.procMap_insert pid _ _, fun p hp => ?_⟩
      rw [← Option.some.inj hp]
      exact foldl_registerDir_each hd (state, t.cpusetRefs) (ht pid state h)

theorem keeps_eachTracked {α : Type} {x : Run κ α}
    (hx : Frame (fun s : System κ => s.tracker.procs) x) : Keeps (EachTracked Q) x := by
  intro s hs q p hp
  refine hs q p ?_
  rw [← hp]
  exact congrArg (AList.lookup q) (hx s).symm

theorem frame_procs_of_ledger {α : Type} {x : Run κ α} (hx : Frame ledger x) :
    Frame (fun s : System κ => s.tracker.procs) x := fun s =>
  congrArg (fun l : StateTracker × List (String × StateTracker) => l.1.procs) (hx s)

variable (env : Env κ)

theorem remove_eachTracked : Keeps (EachTracked Q) (remove env pid) :=
  keeps_remove eachTracked_erase fun state =>
    keeps_eachTracked (frame_releaseState_procs env state)

/-- The entry of a process is made anew, or an old one under the package. -/
theorem enter_eachTracked {pkg : String} {now : Int}
    (hnew : ∀ startTime, Q pid (.new pid startTime pkg now))
    (hrename : ∀ p, Q pid p → Q pid { p with pkg := pkg }) :
    Triple (EachTracked Q) (enter env pid pkg now) fun p s => Q pid p ∧ EachTracked Q s := by
  have hask : Keeps (EachTracked Q) (ask (env.readStartTime pid)) := fun s hs => hs
  have hinsertNew : Triple (EachTracked Q) (insertNew env pid pkg now)
      fun p s => Q pid p ∧ EachTracked Q s := by
    refine Triple.bind hask fun st => ?_
    refine Triple.bind (eachTracked_insert (hnew (st.getD 0))) fun _ => Triple.pure fun s hs => ?_
    exact ⟨hnew (st.getD 0), hs⟩
  refine Triple.peek fun s hs => ?_
  cases hlookup : s.tracker.procs.lookup pid with
  | none => exact hinsertNew
  | some ex =>
      have hex : Q pid ex := hs pid ex hlookup
      refine Triple.ite (Triple.pure fun t ht => ⟨hex, ht⟩) ?_
      refine Triple.bind hask fun read => Triple.ite ?_ ?_
      · refine Triple.bind (eachTracked_insert (hrename ex hex)) fun _ => Triple.pure fun t ht => ?_
        exact ⟨hrename ex hex, ht⟩
      · refine Triple.bind eachTracked_erase fun _ => ?_
        have hrelease := keeps_eachTracked (Q := Q) (frame_releaseState_procs env ex)
        exact Triple.bind hrelease fun _ => hinsertNew

/-- An invariant that knows of each tracked process what a release needs. -/
theorem keeps_remove_tracked {I : System κ → Prop} (hI : ∀ s, I s → EachTracked Q s)
    (herase : Keeps I (modifyTracker fun t => { t with procs := t.procs.erase pid }))
    (hrelease : ∀ state, Q pid state → Keeps I (releaseState env state)) :
    Keeps I (remove env pid) := by
  refine Triple.peek fun s hs => ?_
  cases hlookup : s.tracker.procs.lookup pid with
  | none => exact Keeps.pure
  | some state =>
      have hstate : Q pid state := hI s hs pid state hlookup
      exact Keeps.bind herase fun _ => Keeps.bind (hrelease state hstate) fun _ => Keeps.pure

theorem keeps_enter_tracked {I : System κ → Prop} (hI : ∀ s, I s → EachTracked Q s)
    (hask : Keeps I (ask (env.readStartTime pid)))
    (hinsert : ∀ p, Q pid p →
      Keeps I (modifyTracker fun t => { t with procs := t.procs.insert pid p }))
    (herase : Keeps I (modifyTracker fun t => { t with procs := t.procs.erase pid }))
    (hrelease : ∀ state, Q pid state → Keeps I (releaseState env state)) {pkg : String}
    {now : Int} (hnew : ∀ startTime, Q pid (.new pid startTime pkg now))
    (hrename : ∀ p, Q pid p → Q pid { p with pkg := pkg }) :
    Keeps I (enter env pid pkg now) := by
  have hinsertNew : Keeps I (insertNew env pid pkg now) :=
    Keeps.bind hask fun _ => Keeps.bind (hinsert _ (hnew _)) fun _ => Keeps.pure
  refine Triple.peek fun s hs => ?_
  cases hlookup : s.tracker.procs.lookup pid with
  | none => exact hinsertNew
  | some ex =>
      have hex : Q pid ex := hI s hs pid ex hlookup
      refine Keeps.ite Keeps.pure (Keeps.bind hask fun _ => Keeps.ite ?_ ?_)
      · exact Keeps.bind (hinsert _ (hrename ex hex)) fun _ => Keeps.pure
      · exact Keeps.bind herase fun _ => Keeps.bind (hrelease ex hex) fun _ => hinsertNew

end Each

/-! ## Invariants of the engine -/

/-- The invariant, in a state where at least `B` is believed. -/
def Since (view : κ → Beliefs) (B : Beliefs) (I : System κ → Prop) (s : System κ) : Prop :=
  B ≤ view s.kernel ∧ I s

/-- What an invariant has to survive while events are handled by `rules`, whatever is believed
already. -/
structure EventInvariant (view : κ → Beliefs) (fnmatch : String → String → Bool) (env : Env κ)
    (topo : CpuTopology) (rules : RuleSet) (I : System κ → Prop) : Prop where
  ask : ∀ {α : Type} {x : StateM κ α}, env.Question x → ∀ B, Keeps (Since view B I) (ask x)
  enter : ∀ pid pkg now B, Keeps (Since view B I) (enter env pid pkg now)
  remove : ∀ pid B, Keeps (Since view B I) (remove env pid)
  update : ∀ pid f, (∀ p : ProcessState, (f p).dirs = p.dirs) →
    Keeps I (modifyTracker fun t => t.update pid f)
  registerDirs : ∀ pid ds B, (∀ d ∈ ds, AssignedDir B fnmatch rules d) →
    Keeps (Since view B I) (modifyTracker fun t => t.registerDirs pid ds)
  apply : ∀ tid pkg policy allowed B, Assigned B fnmatch rules tid pkg policy →
    B.permits allowed → Keeps (Since view B I) (applyThread env tid pkg policy topo allowed)

/-- A relock counts its decisions too. -/
structure EngineInvariant (view : κ → Beliefs) (fnmatch : String → String → Bool) (env : Env κ)
    (topo : CpuTopology) (rules : RuleSet) (I : System κ → Prop) : Prop
    extends EventInvariant view fnmatch env topo rules I where
  bump : ∀ f, Keeps I (bumpRelock f)

/-- The invariant, in a state where the tracker is believed. -/
def Informed (view : κ → Beliefs) (I : System κ → Prop) (s : System κ) : Prop :=
  I s ∧ EachTracked (view s.kernel).Tracks s

/-- What a program of the engine finds out, in terms of what is believed at its end. -/
abbrev Finds {α : Type} (view : κ → Beliefs) (I : System κ → Prop) (B : Beliefs) (x : Run κ α)
    (R : α → Beliefs → Prop) : Prop :=
  Learns (fun s : System κ => view s.kernel) (Informed view I) B x R

/-- A program that keeps the invariant and whatever is believed. -/
abbrev Abides {α : Type} (view : κ → Beliefs) (I : System κ → Prop) (B : Beliefs)
    (x : Run κ α) : Prop := Stays (fun s : System κ => view s.kernel) (Informed view I) B x

section Rule

variable {view : κ → Beliefs} {B : Beliefs} {fnmatch : String → String → Bool} {env : Env κ}
  {topo : CpuTopology} {rules : RuleSet} {I : System κ → Prop}
  (hI : EventInvariant view fnmatch env topo rules I) (hB : env.Informs view)

theorem EachTracked.mono {Q Q' : Int → ProcessState → Prop} {s : System κ}
    (h : EachTracked Q s) (hQ : ∀ pid p, Q pid p → Q' pid p) : EachTracked Q' s :=
  fun pid p hp => hQ pid p (h pid p hp)

/-! ### Operations -/

theorem abides_of {α : Type} {x : Run κ α} (hI : ∀ B', B ≤ B' → Keeps (Since view B' I) x)
    (hx : ∀ B' : Beliefs, B ≤ B' → Keeps (EachTracked B'.Tracks) x) : Abides view I B x := by
  intro s ⟨hle, hs, htracked⟩
  obtain ⟨hgrown, hs'⟩ := hI (view s.kernel) hle s ⟨le_refl _, hs⟩
  have htracked' := hx (view s.kernel) hle s htracked
  exact ⟨trivial, hle.trans hgrown, hs', htracked'.mono fun _ _ hp => hp.mono hgrown⟩

theorem abides_of_ledger {α : Type} {x : Run κ α}
    (hI : ∀ B', B ≤ B' → Keeps (Since view B' I) x) (hx : Frame ledger x) : Abides view I B x :=
  abides_of hI fun _ _ => keeps_eachTracked (frame_procs_of_ledger hx)

include hI

theorem EventInvariant.asks {α : Type} {x : StateM κ α} (hx : env.Question x) :
    Abides view I B (Core.ask x) :=
  abides_of_ledger (fun B' _ => hI.ask hx B') (frame_ask x)

theorem EventInvariant.learn {α : Type} {x : StateM κ α} (hx : env.Question x)
    {R : α → Beliefs → Prop} (hR : ∀ k, R (x.run k).1 (view (x.run k).2)) :
    Finds view I B (Core.ask x) R := by
  intro s hs
  exact ⟨hR s.kernel, (hI.asks hx s hs).2⟩

theorem EventInvariant.removes (pid : Int) : Abides view I B (Core.remove env pid) :=
  abides_of (fun B' _ => hI.remove pid B') fun _ _ => remove_eachTracked env

theorem EventInvariant.enters {pid : Int} {pkg : String} (hruns : B.runs pid pkg) (now : Int) :
    Finds view I B (Core.enter env pid pkg now) fun p B' => B'.Knows p.tidNames := by
  intro s ⟨hle, hs, htracked⟩
  have hruns' : (view s.kernel).runs pid pkg := hle.runs hruns
  obtain ⟨hgrown, hs'⟩ := hI.enter pid pkg now (view s.kernel) s ⟨le_refl _, hs⟩
  have hnew : ∀ startTime, (view s.kernel).Tracks pid (.new pid startTime pkg now) := fun _ =>
    ⟨hruns', knows_new now⟩
  obtain ⟨hentry, htracked'⟩ :=
    enter_eachTracked env hnew (fun _ hp => ⟨hruns', hp.2⟩) s htracked
  exact ⟨hentry.2.mono hgrown, hle.trans hgrown, hs',
    htracked'.mono fun _ _ hp => hp.mono hgrown⟩

theorem EventInvariant.updates {pid : Int} {f : ProcessState → ProcessState}
    (hdirs : ∀ p, (f p).dirs = p.dirs) (hpkg : ∀ p, (f p).pkg = p.pkg)
    (hnames : ∀ B', B ≤ B' → ∀ p, B'.Knows p.tidNames → B'.Knows (f p).tidNames) :
    Abides view I B (modifyTracker fun t => t.update pid f) := by
  refine abides_of (fun _ _ s hs => ⟨hs.1, hI.update pid f hdirs s hs.2⟩) fun B' hle => ?_
  refine eachTracked_update fun p hp => ⟨?_, hnames B' hle p hp.2⟩
  rw [hpkg]
  exact hp.1

theorem EventInvariant.registers (pid : Int) {ds : List String}
    (hds : ∀ d ∈ ds, AssignedDir B fnmatch rules d) :
    Abides view I B (modifyTracker fun t => t.registerDirs pid ds) :=
  abides_of (fun B' hle => hI.registerDirs pid ds B' fun d hd => (hds d hd).mono hle)
    fun _ _ => eachTracked_registerDirs fun _ _ _ hp => hp

theorem EventInvariant.applies {tid : Int} {pkg : String} {policy : Policy} {allowed : Bool}
    (h : Assigned B fnmatch rules tid pkg policy) (hallowed : B.permits allowed) :
    Abides view I B (applyThread env tid pkg policy topo allowed) :=
  abides_of_ledger
    (fun B' hle => hI.apply tid pkg policy allowed B' (h.mono hle) (hle.permits hallowed))
    (frame_applyThread env tid pkg policy topo allowed)

/-! ### Scans -/

include hB

theorem EventInvariant.getOrRead {cache : ThreadNameCache} (hcache : B.Knows cache)
    (tid now : Int) :
    Finds view I B (Core.getOrRead env cache tid now) fun r B' =>
      B'.named tid r.1 ∧ B'.Knows r.2 := by
  have hfresh := hcache.expire now
  unfold Core.getOrRead
  dsimp only
  cases hname : (cache.expire now).names.lookup tid with
  | some name =>
      exact Learns.pure fun B' hle => ⟨hle.named (hfresh tid name hname), hfresh.mono hle⟩
  | none =>
      refine Learns.bind (hI.learn (R := fun read B' => B'.named tid (read.getD ""))
        (.readThreadName tid) (hB.comm tid)) fun read B' hle hread => Learns.pure ?_
      exact fun B'' hle' => ⟨hle'.named hread, ((hfresh.mono hle).insert hread).mono hle'⟩

theorem EventInvariant.threadNameFor {cache : ThreadNameCache} (hcache : B.Knows cache)
    (hasThreadRules : Bool) (tid now : Int) :
    Finds view I B (Core.threadNameFor env hasThreadRules cache tid now) fun r B' =>
      (hasThreadRules = true → B'.named tid r.1) ∧ B'.Knows r.2 := by
  cases hasThreadRules with
  | false =>
      exact Learns.pure fun B' hle => ⟨fun h => absurd h Bool.false_ne_true, hcache.mono hle⟩
  | true =>
      exact (hI.getOrRead hB hcache tid now).mono fun r B' _ h => ⟨fun _ => h.1, h.2⟩

def ScanKnows (B : Beliefs) (fnmatch : String → String → Bool) (rules : RuleSet)
    (acc : ScanState) : Prop :=
  B.Knows acc.tidNames ∧ ∀ d ∈ acc.dirs, AssignedDir B fnmatch rules d

omit hI hB in
theorem scanKnows_mono (acc : ScanState) :
    Monotone fun B => ScanKnows B fnmatch rules acc := by
  intro B B' hle h
  exact ⟨h.1.mono hle, fun d hd => (h.2 d hd).mono hle⟩

omit hI hB in
theorem ScanKnows.countOutcome {acc : ScanState} (h : ScanKnows B fnmatch rules acc)
    {policy : Policy} (hdir : AssignedDir B fnmatch rules policy.cpusetDir)
    (outcome : ApplyOutcome) : ScanKnows B fnmatch rules (countOutcome acc policy outcome) := by
  have hcounted : ∀ d ∈ (if policy.cpusetDir ∈ acc.dirs then acc.dirs
      else acc.dirs ++ [policy.cpusetDir]), AssignedDir B fnmatch rules d := by
    intro d hd
    split at hd
    · exact h.2 d hd
    · rcases List.mem_append.mp hd with hold | hnew
      · exact h.2 d hold
      · rw [List.mem_singleton.mp hnew]
        exact hdir
  cases outcome with
  | exited | skippedNoCpus => exact h
  | applied | blockedByCgroup | downgraded | blockedByPerm | einval | failed =>
      exact ⟨h.1, hcounted⟩

variable {args : EngineArgs} (hrules : args.cfg.rules = rules) (htopo : args.topo = topo)
  (hallowed : B.permits args.rtAllowed)

include hrules htopo hallowed

theorem EventInvariant.scanTid {pid tid : Int} {pkg : String} (hruns : B.runs pid pkg)
    (howns : B.owns pid tid) {acc : ScanState} (hacc : ScanKnows B fnmatch rules acc) :
    Finds view I B (Core.scanTid fnmatch env args pkg acc tid) fun acc' B' =>
      ScanKnows B' fnmatch rules acc' := by
  subst hrules htopo
  refine Learns.bind (hI.threadNameFor hB hacc.1 _ tid args.now) ?_
  rintro named B' hle ⟨hname, hnames⟩
  have hacc' : ScanKnows B' fnmatch args.cfg.rules { acc with tidNames := named.2 } :=
    ⟨hnames, (scanKnows_mono acc hle hacc).2⟩
  dsimp only
  cases hpolicy : args.cfg.rules.resolve fnmatch pkg named.1 with
  | none => exact Learns.pure fun B'' hle' => scanKnows_mono _ hle' hacc'
  | some policy =>
      have hassigned : Assigned B' fnmatch args.cfg.rules tid pkg policy :=
        ⟨⟨pid, hle.runs hruns, hle.owns howns⟩, ⟨named.1, hpolicy, hname⟩⟩
      refine Stays.then (hI.applies hassigned (hle.permits hallowed)) fun outcome =>
        Learns.pure fun B'' hle' => scanKnows_mono _ hle' ?_
      exact hacc'.countOutcome ⟨tid, pkg, policy, hassigned, rfl⟩ outcome

theorem EventInvariant.refreshProcessRules {pid : Int} {pkg : String}
    (hruns : B.runs pid pkg) :
    Finds view I B (Core.refreshProcessRules fnmatch env args pid pkg) fun r B' =>
      ∀ d ∈ r.2, AssignedDir B' fnmatch rules d := by
  refine Learns.bind (hI.learn (R := fun tids B' => ∀ tid ∈ tids, B'.owns pid tid)
    (.listTids pid) (hB.tids pid)) fun tids B₁ hle₁ howns => ?_
  refine Learns.bind (hI.enters (hle₁.runs hruns) args.now) fun state B₂ hle₂ hknows => ?_
  refine Stays.then (hI.updates (fun _ => rfl) (fun _ => rfl) fun _ _ _ _ => knows_new args.now) ?_
  intro _
  have hle : B ≤ B₂ := hle₁.trans hle₂
  have hloop : Finds view I B₂
      (tids.foldlM (Core.scanTid fnmatch env args pkg) ⟨state.tidNames, 0, []⟩) fun acc B' =>
        ScanKnows B' fnmatch rules acc := by
    refine Learns.foldlM scanKnows_mono tids ⟨hknows, nofun⟩ fun acc tid htid B' hle' hacc => ?_
    exact hI.scanTid hB hrules htopo ((hle.trans hle').permits hallowed)
      ((hle.trans hle').runs hruns) ((hle₂.trans hle').owns (howns tid htid)) hacc
  refine Learns.bind hloop fun acc B₃ hle₃ hacc => ?_
  refine Stays.then (hI.enters ((hle.trans hle₃).runs hruns) args.now).stays fun _ => ?_
  refine Stays.then (hI.updates (fun _ => rfl) (fun _ => rfl)
    fun B' hle' _ _ => (hacc.1.mono hle').retain _) fun _ => ?_
  exact Learns.pure fun B' hle' d hd => (hacc.2 d hd).mono hle'

theorem EventInvariant.fullScan {pid : Int} {pkg : String} (hruns : B.runs pid pkg) :
    Abides view I B (Core.fullScan fnmatch env args pid pkg) := by
  refine Learns.bind (hI.refreshProcessRules hB hrules htopo hallowed hruns) ?_
  intro scanned B' hle hds
  refine Stays.then (hI.registers pid hds) fun _ => ?_
  exact Stays.then (hI.updates (fun _ => rfl) (fun _ => rfl) fun _ _ _ hp => hp) fun _ =>
    Stays.pure

theorem EventInvariant.applySingleTid {pid tid : Int} {pkg : String} (hruns : B.runs pid pkg)
    (howns : B.owns pid tid) :
    Abides view I B (Core.applySingleTid fnmatch env args pid pkg tid) := by
  subst hrules htopo
  refine Learns.bind (hI.enters hruns args.now) fun state B₁ hle₁ hknows => ?_
  refine Learns.ite Stays.pure ?_
  refine Learns.bind (hI.threadNameFor hB hknows _ tid args.now) ?_
  rintro named B₂ hle₂ ⟨hname, hnames⟩
  have hle : B ≤ B₂ := hle₁.trans hle₂
  refine Stays.then (hI.updates (fun _ => rfl) (fun _ => rfl)
    fun _ hle' _ _ => hnames.mono hle') fun _ => ?_
  have hinsert : Abides view I B₂ (insertAppliedTid (κ := κ) pid tid) :=
    hI.updates (fun _ => rfl) (fun _ => rfl) fun _ _ _ hp => hp
  cases hpolicy : args.cfg.rules.resolve fnmatch pkg named.1 with
  | none => exact Stays.then hinsert fun _ => Stays.pure
  | some policy =>
      have hassigned : Assigned B₂ fnmatch args.cfg.rules tid pkg policy :=
        ⟨⟨pid, hle.runs hruns, hle.owns howns⟩, ⟨named.1, hpolicy, hname⟩⟩
      refine Stays.then (hI.applies hassigned (hle.permits hallowed)) fun outcome => ?_
      have hdir : ∀ d ∈ [policy.cpusetDir], AssignedDir B₂ fnmatch args.cfg.rules d := by
        intro d hd
        exact ⟨tid, pkg, policy, hassigned, (List.mem_singleton.mp hd).symm⟩
      have hcounted : Abides view I B₂ (do
          insertAppliedTid pid tid
          modifyTracker fun t => t.registerDirs pid [policy.cpusetDir]
          pure 1 : Run κ Nat) :=
        Stays.then hinsert fun _ => Stays.then (hI.registers pid hdir) fun _ => Stays.pure
      cases outcome with
      | exited => exact Stays.pure
      | skippedNoCpus => exact Stays.then hinsert fun _ => Stays.pure
      | applied | blockedByCgroup | downgraded | blockedByPerm | einval | failed =>
          exact hcounted

/-! ### Events -/

theorem EventInvariant.handleWanted {ev : ProcessEvent} {pkg : String}
    (hruns : B.runs ev.pid pkg) (howns : ev.kind ≠ .fork → ev.kind ≠ .exec →
      B.owns ev.pid ev.tid) :
    Abides view I B (Core.handleWanted fnmatch env args ev pkg) := by
  have hscan := hI.fullScan hB hrules htopo hallowed hruns
  have hsingle : ev.kind ≠ .fork → ev.kind ≠ .exec → Abides view I B (Core.handleWanted
      fnmatch env args { ev with kind := .threadClone } pkg) := fun hfork hexec =>
    Learns.get fun s => Learns.ite hscan
      (hI.applySingleTid hB hrules htopo hallowed hruns (howns hfork hexec))
  unfold Core.handleWanted at *
  cases hkind : ev.kind with
  | exec => exact Stays.then (hI.removes ev.pid) fun _ => hscan
  | fork => exact hscan
  | threadClone | cpuMigrate | exit =>
      rw [hkind] at hsingle
      exact hsingle nofun nofun

omit hallowed htopo hrules in
theorem EventInvariant.eventPkg {ev : ProcessEvent} (hev : B.Trusts ev) :
    Finds view I B (Core.eventPkg env ev) fun pkg B' =>
      pkg.isEmpty = false → B'.runs ev.pid pkg := by
  unfold Core.eventPkg
  cases hpkg : ev.pkg with
  | some pkg => exact Learns.pure fun B' hle _ => hle.runs (hev.pkg pkg hpkg)
  | none =>
      refine Learns.bind (hI.learn (R := fun read B' => ∀ pkg, read = some pkg →
        B'.runs ev.pid pkg) (.readCmdline ev.pid) (hB.cmdline ev.pid)) ?_
      intro read B' hle hread
      refine Learns.pure fun B'' hle' hne => ?_
      cases read with
      | none => exact absurd hne (by decide)
      | some pkg => exact hle'.runs (hread pkg rfl)

theorem EventInvariant.handleSpawn {ev : ProcessEvent} (hev : B.Trusts ev)
    (hkind : ev.kind = .fork ∨ ev.kind = .exec ∨ ev.kind = .threadClone) :
    Abides view I B (Core.handleSpawn fnmatch env args ev) := by
  refine Learns.bind (hI.eventPkg hB hev) fun pkg B' hle hruns => ?_
  refine Learns.ite_of (fun _ => Stays.pure) fun hne => Learns.ite ?_ ?_
  · refine Learns.get fun s => Learns.ite ?_ Stays.pure
    exact Stays.then (hI.removes ev.pid) fun _ => Stays.pure
  · refine hI.handleWanted hB hrules htopo (hle.permits hallowed) (hruns (by simpa using hne)) ?_
    intro hfork hexec
    rcases hkind with h | h | h
    · exact absurd h hfork
    · exact absurd h hexec
    · exact hle.owns (hev.thread h)

theorem EventInvariant.handleEvent {ev : ProcessEvent} (hev : B.Trusts ev) :
    Abides view I B (Core.handleEvent fnmatch env args ev) := by
  have hspawn := hI.handleSpawn hB hrules htopo hallowed hev
  unfold Core.handleEvent
  cases hkind : ev.kind with
  | exit =>
      refine Learns.ite (Stays.then ?_ fun _ => Stays.pure)
        (Stays.then (hI.removes ev.pid) fun _ => Stays.pure)
      exact hI.updates (fun _ => rfl) (fun _ => rfl) fun _ _ _ hp => hp
  | cpuMigrate => exact Stays.pure
  | fork | exec | threadClone =>
      rw [hkind] at hspawn
      exact hspawn (by decide)

omit hrules htopo hallowed in
theorem EventInvariant.handleEvents {events : List ProcessEvent}
    (hevents : ∀ ev ∈ events, B.Trusts ev) {cfg : ConfigSnapshot} (hrules : cfg.rules = rules)
    (now : Int) :
    Abides view I B (Core.handleEvents fnmatch env events cfg topo now) := by
  refine Learns.bind (hI.learn (R := fun allowed B' => B'.permits allowed) .canRtSched hB.canRt) ?_
  intro allowed B₁ hle hallowed
  refine Learns.foldlM (fun _ _ _ _ h => h) events trivial fun applied ev hev B₂ hle' _ => ?_
  have hevent : Abides view I B₂ (Core.handleEvent fnmatch env ⟨cfg, topo, now, allowed⟩ ev) :=
    hI.handleEvent hB hrules rfl (hle'.permits hallowed)
      ((hevents ev hev).mono (hle.trans hle'))
  exact Stays.then hevent fun _ => Stays.pure

/-! ### Cleanups and relocks -/

omit hI hB hrules htopo hallowed in
theorem abides_pids : Abides view I B (pids env) :=
  Learns.get fun _ => Learns.get fun _ => Stays.pure

omit hB hrules htopo hallowed in
theorem EventInvariant.cleanupDead : Abides view I B (Core.cleanupDead env) := by
  refine Stays.then abides_pids fun all => Stays.foldlM all (fun removed pid => ?_) _
  refine Stays.then (hI.asks (.isAlive pid)) fun alive => Learns.ite Stays.pure ?_
  exact Stays.then (hI.removes pid) fun _ => Stays.pure

omit hB hrules htopo hallowed in
theorem EventInvariant.retainInterested (pkgSet : List String) :
    Abides view I B (Core.retainInterested env pkgSet) := by
  refine Learns.get fun s => Stays.then (Learns.get fun _ => Stays.pure) fun entries => ?_
  exact Stays.forM _ fun pid => Stays.then (hI.removes pid) fun _ => Stays.pure

end Rule

section Relock

variable {view : κ → Beliefs} {B : Beliefs} {fnmatch : String → String → Bool} {env : Env κ}
  {topo : CpuTopology} {rules : RuleSet} {I : System κ → Prop}
  (hI : EngineInvariant view fnmatch env topo rules I) (hB : env.Informs view)

include hI hB

theorem EngineInvariant.relockPid {args : EngineArgs} (hrules : args.cfg.rules = rules)
    (htopo : args.topo = topo) (hallowed : B.permits args.rtAllowed) (rctx : RelockContext)
    (decision : DecisionEngine) (applied : Nat) (pid : Int) :
    Abides view I B (Core.relockPid fnmatch env args rctx decision applied pid) := by
  refine Learns.peek fun s hle hs => ?_
  cases hstate : s.tracker.procs.lookup pid with
  | none => exact Stays.pure
  | some state =>
      have hruns : (view s.kernel).runs pid state.pkg := (hs.2 pid state hstate).1
      have hbump : ∀ f, Abides view I (view s.kernel) (bumpRelock f) := fun f =>
        abides_of_ledger (fun _ _ t ht => ⟨ht.1, hI.bump f t ht.2⟩) (frame_bumpRelock f)
      refine Stays.then (hI.asks (.isAlive pid)) fun alive => Learns.ite ?_ ?_
      · exact Stays.then (hI.removes pid) fun _ => Stays.pure
      · refine Stays.then (hI.asks (.readOomAdj pid)) fun adj => ?_
        dsimp only
        cases decision.decideCtx _ with
        | skip reason => exact Stays.then (hbump _) fun _ => Stays.pure
        | degrade level reason => exact Stays.then (hbump _) fun _ => Stays.pure
        | allow reason =>
            refine Stays.then (hbump _) fun _ => ?_
            refine Learns.bind (hI.refreshProcessRules hB hrules htopo (hle.permits hallowed)
              hruns) fun scanned B' _ hds => ?_
            exact Stays.then (hI.registers pid hds) fun _ => Stays.pure

theorem EngineInvariant.relockAll {cfg : ConfigSnapshot} (hrules : cfg.rules = rules) (now : Int)
    (rctx : RelockContext) (decision : DecisionEngine) :
    Abides view I B (Core.relockAll fnmatch env cfg topo now rctx decision) := by
  refine Learns.bind (hI.learn (R := fun allowed B' => B'.permits allowed) .canRtSched hB.canRt) ?_
  intro allowed B' _ hallowed
  let args : EngineArgs := ⟨cfg, topo, now, allowed⟩
  have hargs : args.cfg.rules = rules := hrules
  refine Stays.then abides_pids fun all => Stays.foldlM all (fun applied pid => ?_) _
  exact hI.relockPid hB hargs rfl hallowed rctx decision applied pid

end Relock

end Threadctl.Core

import Threadctl.Daemon.MainLoop
import Threadctl.Support.Runs

/-!
# Applied configuration and time

An iteration takes its snapshot at the head of the loop, and `do_reload` asks the
store itself.  So the version that is applied can go back in two ways: a later call
of the iteration reuses the snapshot, or a reload that was overtaken sets the store
back.  When neither happens it never goes back.
-/

namespace Threadctl.Daemon

open Threadctl.Core Threadctl.Support.Runs

variable {κ : Type}

/-- After a `do_reload` no call of the engine uses an older version. -/
def NeverBack (calls : List EngineCall) : Prop :=
  calls.Pairwise fun earlier later => earlier.kind = .reload → earlier.version ≤ later.version

/-- No `do_reload` among the calls ran with a version above `v`. -/
def AppliedUpTo (calls : List EngineCall) (v : Nat) : Prop :=
  ∀ call ∈ calls, call.kind = .reload → call.version ≤ v

theorem neverBack_concat (calls : List EngineCall) (call : EngineCall) :
    NeverBack (calls ++ [call]) ↔ NeverBack calls ∧ AppliedUpTo calls call.version := by
  simp [NeverBack, AppliedUpTo, List.pairwise_append]

theorem appliedUpTo_concat (calls : List EngineCall) (call : EngineCall) (v : Nat) :
    AppliedUpTo (calls ++ [call]) v ↔
      AppliedUpTo calls v ∧ (call.kind = .reload → call.version ≤ v) := by
  simp only [AppliedUpTo, List.mem_append, List.mem_singleton]
  constructor
  · exact fun h => ⟨fun c hc => h c (Or.inl hc), h call (Or.inr rfl)⟩
  · rintro ⟨hold, hnew⟩ c (hc | rfl)
    · exact hold c hc
    · exact hnew

/-! ## Timely moves -/

/-- No `do_reload` has run with a version above that of the snapshot to be installed. -/
def notOvertaken (d : DaemonState κ) (snapshot : ConfigSnapshot) : Bool :=
  d.calls.all fun call => call.kind ≠ .reload || call.version ≤ snapshot.version

/-- No `do_reload` of this iteration picked up a snapshot above that of the iteration. -/
def notOutdated (d : DaemonState κ) : Bool := d.reloads.all fun v => v ≤ d.cfg.version

/-- A reload installs its snapshot in time, and the snapshot of an iteration is used
only while it is the latest one applied. -/
def Move.timely (d : DaemonState κ) : Move κ → Bool
  | .main _ =>
      match d.point with
      | .reloading (.install snapshot) => notOvertaken d snapshot
      | .relock _ _ => notOutdated d
      | .handle _ => notOutdated d
      | _ => true
  | .hotReload _ _ =>
      match d.hotReload with
      | .reloading (.install snapshot) => notOvertaken d snapshot
      | _ => true
  | _ => true

def Boot.timelyRun (b : Boot κ) (d : DaemonState κ) : List (Move κ) → Bool
  | [] => true
  | m :: moves => m.timely d && b.timelyRun (b.step d m) moves

theorem notOvertaken_iff {d : DaemonState κ} {snapshot : ConfigSnapshot} :
    notOvertaken d snapshot = true ↔ AppliedUpTo d.calls snapshot.version := by
  simp only [notOvertaken, AppliedUpTo, List.all_eq_true, Bool.or_eq_true, decide_eq_true_eq, ne_eq,
    imp_iff_not_or]

theorem notOutdated_iff {d : DaemonState κ} :
    notOutdated d = true ↔ ∀ v ∈ d.reloads, v ≤ d.cfg.version := by
  simp only [notOutdated, List.all_eq_true, decide_eq_true_eq]

/-! ## The invariant -/

/-- Nothing has gone back so far, the store is not behind what was applied, and what is
ahead of the snapshot of the iteration was applied in this iteration. -/
structure Fresh (d : DaemonState κ) : Prop where
  ordered : NeverBack d.calls
  store : AppliedUpTo d.calls d.shared.store.version
  iteration : ∀ call ∈ d.calls, call.kind = .reload →
    call.version ≤ d.cfg.version ∨ call.version ∈ d.reloads

def DaemonState.trail (d : DaemonState κ) :
    ConfigSnapshot × ConfigSnapshot × List EngineCall × List Nat :=
  (d.shared.store, d.cfg, d.calls, d.reloads)

theorem Fresh.of_store {d d' : DaemonState κ} (hd : Fresh d) {store : ConfigSnapshot}
    (hupTo : AppliedUpTo d.calls store.version)
    (h : d'.trail = (store, d.cfg, d.calls, d.reloads)) : Fresh d' := by
  simp only [DaemonState.trail, Prod.mk.injEq] at h
  obtain ⟨hstore, hcfg, hcalls, hreloads⟩ := h
  constructor
  · rw [hcalls]
    exact hd.ordered
  · rw [hcalls, hstore]
    exact hupTo
  · rw [hcalls, hcfg, hreloads]
    exact hd.iteration

theorem Fresh.of_trail {d d' : DaemonState κ} (hd : Fresh d) (h : d'.trail = d.trail) : Fresh d' :=
  hd.of_store hd.store h

/-- While the snapshot of the iteration is current, nothing above it was applied at all. -/
theorem Fresh.appliedUpTo_cfg {d : DaemonState κ} (hd : Fresh d) (hcurrent : notOutdated d = true) :
    AppliedUpTo d.calls d.cfg.version := by
  intro call hmem hkind
  rcases hd.iteration call hmem hkind with hle | hreload
  · exact hle
  · exact notOutdated_iff.mp hcurrent _ hreload

/-! ## Moves that change none of it -/

/-- What every station but that of the coverage leaves alone. -/
def DaemonState.kept (d : DaemonState κ) :
    (ConfigSnapshot × ConfigSnapshot × List EngineCall × List Nat) × AdaptiveRelock :=
  (d.trail, d.adaptive)

/-- What no station but those of the coverage and of the cleanup writes. -/
def DaemonState.held (d : DaemonState κ) :
    ((ConfigSnapshot × ConfigSnapshot × List EngineCall × List Nat) × AdaptiveRelock) × Int :=
  (d.kept, d.lastCleanup)

section Frame

variable (b : Boot κ)

theorem held_exec {α : Type} (d : DaemonState κ) (x : Run κ α) :
    (d.exec x).2.held = d.held := rfl

theorem held_handleIpc (a : Answers) (d : DaemonState κ) (req : IpcRequest) :
    (b.handleIpc a d req).held = d.held := by
  cases req with
  | applyScene name =>
      simp only [Boot.handleIpc]
      split <;> rfl
  | status | dump | reload | apply | snapshot | tune => rfl

theorem held_ipcStation (a : Answers) (d : DaemonState κ) : (b.ipcStation a d).held = d.held := by
  unfold Boot.ipcStation
  split
  · rfl
  · exact held_handleIpc b a _ _

theorem held_noticesStation (d : DaemonState κ) : d.noticesStation.held = d.held := by
  unfold DaemonState.noticesStation
  split <;> rfl

theorem held_periodicStation (d : DaemonState κ) : (b.periodicStation d).held = d.held := by
  unfold Boot.periodicStation
  dsimp only
  repeat' split
  all_goals rfl

theorem held_polled (r : (Source × List ProcessEvent) × DaemonState κ) :
    (DaemonState.polled r).held = r.2.held := rfl

theorem held_pollStation (d : DaemonState κ) : (b.pollStation d).held = d.held :=
  (held_polled _).trans (held_exec d _)

theorem held_station (a : Answers) (d : DaemonState κ) {stop : Station}
    (hcoverage : stop ≠ .coverage) (hcleanup : stop ≠ .cleanup) :
    (b.station a d stop).held = d.held := by
  cases stop with
  | ipc => exact held_ipcStation b a d
  | notices => exact held_noticesStation d
  | coverage => exact absurd rfl hcoverage
  | periodic => exact held_periodicStation b d
  | cleanup => exact absurd rfl hcleanup
  | poll => exact held_pollStation b d

theorem kept_cleanupStation (d : DaemonState κ) : (b.cleanupStation d).kept = d.kept := by
  unfold Boot.cleanupStation
  split
  · have hexec := congrArg Prod.fst (held_exec d (cleanupDead b.env))
    generalize d.exec (cleanupDead b.env) = r at hexec ⊢
    exact hexec
  · rfl

theorem kept_station (a : Answers) (d : DaemonState κ) {stop : Station}
    (hstop : stop ≠ .coverage) : (b.station a d stop).kept = d.kept := by
  rcases eq_or_ne stop .cleanup with rfl | hcleanup
  · exact kept_cleanupStation b d
  · exact congrArg Prod.fst (held_station b a d hstop hcleanup)

theorem trail_coverageStation (d : DaemonState κ) : (b.coverageStation d).trail = d.trail := by
  unfold Boot.coverageStation
  dsimp only
  repeat' split
  all_goals rfl

theorem trail_station (a : Answers) (d : DaemonState κ) (stop : Station) :
    (b.station a d stop).trail = d.trail := by
  rcases eq_or_ne stop .coverage with rfl | hstop
  · exact trail_coverageStation b d
  · exact congrArg Prod.fst (kept_station b a d hstop)

/-- A step is a station of the main loop, or it leaves the loop's timers alone. -/
theorem step_station_or (d : DaemonState κ) (m : Move κ) :
    (∃ a stop, m = .main a ∧ d.point = .station stop ∧ b.step d m = b.station a d stop) ∨
      ((b.step d m).adaptive = d.adaptive ∧ (b.step d m).lastCleanup = d.lastCleanup) := by
  cases m with
  | main a =>
      have hstep : b.step d (.main a) = b.mainStep a d := rfl
      rw [hstep]
      unfold Boot.mainStep
      cases d.point with
      | top =>
          refine Or.inr ?_
          dsimp only
          split
          · exact ⟨rfl, rfl⟩
          · exact ⟨rfl, rfl⟩
      | station stop => exact Or.inl ⟨a, stop, rfl, rfl, rfl⟩
      | reloading point =>
          refine Or.inr ?_
          dsimp only
          unfold DaemonState.reloadStep
          cases point with
          | load version =>
              cases a.loaded with
              | none => exact ⟨rfl, rfl⟩
              | some c => exact ⟨rfl, rfl⟩
          | install snapshot => exact ⟨rfl, rfl⟩
      | doReload next => exact Or.inr ⟨rfl, rfl⟩
      | relock now next => exact Or.inr ⟨rfl, rfl⟩
      | handle events => exact Or.inr ⟨rfl, rfl⟩
      | stopped => exact Or.inr ⟨rfl, rfl⟩
  | hotReload changed loaded => exact Or.inr ⟨rfl, rfl⟩
  | request req =>
      obtain ⟨pending, -, hstep⟩ := step_pending b d req
      rw [hstep]
      exact Or.inr ⟨rfl, rfl⟩
  | kernelEvent ev => exact Or.inr ⟨rfl, rfl⟩
  | kernel k => exact Or.inr ⟨rfl, rfl⟩

end Frame

/-! ## Steps -/

section Steps

variable (b : Boot κ)

theorem Fresh.install {d d' : DaemonState κ} (hd : Fresh d) {snapshot : ConfigSnapshot}
    (htimely : notOvertaken d snapshot = true)
    (h : d'.trail = (snapshot, d.cfg, d.calls, d.reloads)) : Fresh d' :=
  hd.of_store (notOvertaken_iff.mp htimely) h

theorem Fresh.beginIteration {d : DaemonState κ} (hd : Fresh d) : Fresh (b.beginIteration d) where
  ordered := hd.ordered
  store := hd.store
  iteration call hmem hkind := Or.inl (hd.store call hmem hkind)

theorem Fresh.doReload {d : DaemonState κ} (hd : Fresh d) (a : Answers) (next : Station) :
    Fresh (b.doReload a next d) where
  ordered := (neverBack_concat _ _).mpr ⟨hd.ordered, hd.store⟩
  store := (appliedUpTo_concat _ _ _).mpr ⟨hd.store, fun _ => le_rfl⟩
  iteration call hmem hkind := by
    rcases List.mem_append.mp hmem with hold | hnew
    · rcases hd.iteration call hold hkind with hle | hreload
      · exact Or.inl hle
      · exact Or.inr (List.mem_append_left _ hreload)
    · rw [List.mem_singleton.mp hnew]
      exact Or.inr (List.mem_append_right _ List.mem_cons_self)

theorem Fresh.useCfg {d d' : DaemonState κ} (hd : Fresh d) (hcurrent : notOutdated d = true)
    {kind : CallKind} (hkind : kind ≠ .reload)
    (h : d'.trail = (d.shared.store, d.cfg, d.calls ++ [⟨kind, d.cfg.version⟩], d.reloads)) :
    Fresh d' := by
  simp only [DaemonState.trail, Prod.mk.injEq] at h
  obtain ⟨hstore, hcfg, hcalls, hreloads⟩ := h
  constructor
  · rw [hcalls]
    exact (neverBack_concat _ _).mpr ⟨hd.ordered, hd.appliedUpTo_cfg hcurrent⟩
  · rw [hcalls, hstore]
    exact (appliedUpTo_concat _ _ _).mpr ⟨hd.store, fun hreload => absurd hreload hkind⟩
  · rw [hcalls, hcfg, hreloads]
    intro call hmem hreload
    rcases List.mem_append.mp hmem with hold | hnew
    · exact hd.iteration call hold hreload
    · rw [List.mem_singleton.mp hnew] at hreload
      exact absurd hreload hkind

theorem Fresh.reloadStep {d : DaemonState κ} (hd : Fresh d) (a : Answers) {point : ReloadPoint}
    (hpoint : d.point = .reloading point) (htimely : (Move.main a).timely d = true) :
    Fresh (d.reloadStep a point) := by
  cases point with
  | load version =>
      refine hd.of_trail ?_
      unfold DaemonState.reloadStep
      cases hloaded : a.loaded with
      | none => rfl
      | some c => rfl
  | install snapshot =>
      have hovertaken : notOvertaken d snapshot = true := by
        simpa only [Move.timely, hpoint] using htimely
      exact hd.install hovertaken rfl

theorem Fresh.mainStep {d : DaemonState κ} (hd : Fresh d) (a : Answers)
    (htimely : (Move.main a).timely d = true) : Fresh (b.mainStep a d) := by
  unfold Boot.mainStep
  cases hpoint : d.point with
  | top =>
      dsimp only
      split
      · exact hd.of_trail rfl
      · exact hd.beginIteration b
  | station stop => exact hd.of_trail (trail_station b a d stop)
  | reloading point => exact hd.reloadStep a hpoint htimely
  | doReload next => exact hd.doReload b a next
  | relock now next =>
      have hcurrent : notOutdated d = true := by simpa only [Move.timely, hpoint] using htimely
      exact hd.useCfg hcurrent (by decide) rfl
  | handle events =>
      have hcurrent : notOutdated d = true := by simpa only [Move.timely, hpoint] using htimely
      exact hd.useCfg hcurrent (by decide) rfl
  | stopped => exact hd

theorem Fresh.hotReloadStep {d : DaemonState κ} (hd : Fresh d) (changed : Bool)
    (loaded : Option Compiled) (htimely : (Move.hotReload changed loaded).timely d = true) :
    Fresh (b.step d (.hotReload changed loaded)) := by
  have hstore := d.hotReload.step_store changed loaded d.shared
  have htrail : (b.step d (.hotReload changed loaded)).trail =
      ((d.hotReload.step changed loaded d.shared).1.store, d.cfg, d.calls, d.reloads) := rfl
  rw [hstore] at htrail
  simp only [Move.timely] at htimely
  split at htimely
  · rename_i snapshot hpoint
    rw [hpoint] at htrail
    exact hd.install htimely htrail
  · rename_i hno
    refine hd.of_trail (htrail.trans ?_)
    split
    · rename_i snapshot hpoint
      exact absurd hpoint (hno snapshot)
    · rfl

theorem Fresh.step {d : DaemonState κ} (hd : Fresh d) (m : Move κ) (htimely : m.timely d = true) :
    Fresh (b.step d m) := by
  cases m with
  | main a => exact hd.mainStep b a htimely
  | hotReload changed loaded => exact hd.hotReloadStep b changed loaded htimely
  | request req =>
      obtain ⟨pending, -, hstep⟩ := step_pending b d req
      rw [hstep]
      exact hd.of_trail rfl
  | kernelEvent ev => exact hd.of_trail rfl
  | kernel k => exact hd.of_trail rfl

end Steps

theorem fresh_start (b : Boot κ) (kernel : κ) : Fresh (b.start kernel) where
  ordered := List.Pairwise.nil
  store := fun _ hmem => absurd hmem List.not_mem_nil
  iteration := fun _ hmem => absurd hmem List.not_mem_nil

theorem Fresh.run (b : Boot κ) {d : DaemonState κ} (hd : Fresh d) (moves : List (Move κ))
    (htimely : b.timelyRun d moves = true) : Fresh (run b.step d moves) := by
  induction moves generalizing d with
  | nil => exact hd
  | cons m moves ih =>
      rw [Boot.timelyRun, Bool.and_eq_true] at htimely
      exact ih (hd.step b m htimely.1) htimely.2

/-- A daemon whose moves are all timely never applies an older configuration than it
has reloaded. -/
theorem config_never_goes_back (b : Boot κ) (kernel : κ) (moves : List (Move κ))
    (htimely : b.timelyRun (b.start kernel) moves = true) :
    NeverBack (run b.step (b.start kernel) moves).calls :=
  ((fresh_start b kernel).run b moves htimely).ordered

/-! ## A reload in the middle of an iteration -/

/-- A kernel that knows the time, in seconds, and lists no processes. -/
def clockEnv : Env Nat :=
  { Env.silent with
    nowSecs := get
    instantNow := do
      let now ← get
      pure (now * nanosPerSec) }

def noRules : Compiled where
  rules := (compile [] (.flat 4)).rules
  engine := .default

/-- The daemon over `/proc`, started with no rules. -/
def quietBoot : Boot Nat where
  fnmatch := glob
  env := clockEnv
  topo := .flat 4
  scanInterval := 2
  initial := noRules
  source := .proc .new

/-- A `reload` command arrives in the first iteration, at second `now`, and is carried
out. -/
def reloadCommand (now : Nat) : List (Move Nat) :=
  [.kernel now, .main {}, .request .reload, .main {}, .main { loaded := some noRules }, .main {},
    .main {}]

/-- The stations up to and including the periodic relock. -/
def restOfIteration : List (Move Nat) := [.main {}, .main {}, .main {}, .main {}, .main {}]

/-- The rest of the iteration, and the one that begins at second 200 up to its relock. -/
def nextIteration : List (Move Nat) :=
  restOfIteration ++ [.main {}, .kernel 200, .main {}] ++ restOfIteration

/-- The relock of the next iteration comes after the reload and uses its version. -/
theorem config_never_goes_back_after_reload :
    (run quietBoot.step (quietBoot.start 0) (reloadCommand 2 ++ nextIteration)).calls =
        [⟨.reload, 2⟩, ⟨.relock, 2⟩] ∧
      quietBoot.timelyRun (quietBoot.start 0) (reloadCommand 2 ++ nextIteration) = true ∧
      NeverBack
        (run quietBoot.step (quietBoot.start 0) (reloadCommand 2 ++ nextIteration)).calls :=
  have htimely : quietBoot.timelyRun (quietBoot.start 0) (reloadCommand 2 ++ nextIteration) =
      true := by decide +kernel
  ⟨by decide +kernel, htimely,
    config_never_goes_back quietBoot 0 (reloadCommand 2 ++ nextIteration) htimely⟩

/-- The periodic relock of the same iteration still uses version 1. -/
theorem relock_after_reload_goes_back :
    ¬∀ (b : Boot Nat) (kernel : Nat) (moves : List (Move Nat)),
      NeverBack (run b.step (b.start kernel) moves).calls := by
  intro h
  have hcalls :
      (run quietBoot.step (quietBoot.start 0) (reloadCommand 100 ++ restOfIteration)).calls =
        [⟨.reload, 2⟩, ⟨.relock, 1⟩] := by decide +kernel
  have hback := h quietBoot 0 (reloadCommand 100 ++ restOfIteration)
  rw [hcalls] at hback
  have hle : 2 ≤ 1 := List.rel_of_pairwise_cons hback List.mem_cons_self rfl
  omega

end Threadctl.Daemon

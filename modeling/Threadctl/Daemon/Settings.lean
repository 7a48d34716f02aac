import Threadctl.Core.RelockRuns
import Threadctl.Daemon.Freshness

/-!
# Engine settings across reloads

The decision engine and the adaptive interval are made from the first configuration,
before the loop, and live as long as the daemon.  A reload replaces the snapshot that
the rest of the loop reads, and leaves these two as they are.
-/

namespace Threadctl.Daemon

open Threadctl.Core Threadctl.Support.Runs Threadctl.Support.StateRun Threadctl.Support.Window

variable {κ : Type}

def engineDecision (e : EngineConfig) : DecisionEngine where
  forceAffinityEnabled := e.migrateAction = .force
  pressureSensitive := e.pressureSensitive

def engineInterval (e : EngineConfig) : AdaptiveRelock := .fromInitial (max e.lockInterval 1)

section Settings

variable (b : Boot κ)

/-! ## Where the settings are used -/

/-- What the decisions of a step are made with, if it relocks. -/
def Boot.relocksWith (d : DaemonState κ) : Move κ → Option DecisionEngine
  | .main _ =>
      match d.point with
      | .doReload _ => some b.decision
      | .relock _ _ => some b.decision
      | _ => none
  | _ => none

/-- The step takes a new configuration in. -/
def Move.takesIn (d : DaemonState κ) : Move κ → Bool
  | .main _ =>
      match d.point with
      | .doReload _ => true
      | _ => false
  | _ => false

/-- A step that relocks does so with the settings of the installed snapshot; one that takes
a configuration in restarts the interval from it. -/
def Boot.SettingsInEffect (d : DaemonState κ) (m : Move κ) : Prop :=
  (∀ eng, b.relocksWith d m = some eng → eng = engineDecision d.shared.store.engine) ∧
    (m.takesIn d = true → (b.step d m).adaptive = engineInterval d.shared.store.engine)

/-- The installed snapshot agrees with the first one wherever a step would use it, and there
has been no coverage sample when a configuration is taken in. -/
def Boot.SettingsKept (d : DaemonState κ) (m : Move κ) : Prop :=
  ((b.relocksWith d m).isSome = true →
      (d.shared.store.engine.migrateAction = .force ↔ b.initial.engine.migrateAction = .force) ∧
        d.shared.store.engine.pressureSensitive = b.initial.engine.pressureSensitive) ∧
    (m.takesIn d = true →
      d.adaptive.samples = [] ∧
        closestRank (max d.shared.store.engine.lockInterval 1) =
          closestRank (max b.initial.engine.lockInterval 1))

theorem reloadTracker_run (cfg : ConfigSnapshot) (rctx : RelockContext) (s : System κ) :
    (b.reloadTracker cfg rctx).run s =
      let asked := (ask b.env.nowSecs : Run κ Nat).run ((retainConfigured b.env cfg).run s).2
      (relockAll b.fnmatch b.env cfg b.topo asked.1 rctx b.decision).run asked.2 := rfl

theorem doReload_sys (a : Answers) (next : Station) (d : DaemonState κ) :
    (b.doReload a next d).sys = ((b.reloadTracker d.shared.store a.rctx).run d.sys).2 := rfl

/-- The relock of a step is `relock_all` with the engine named above. -/
theorem relocksWith_spec {d : DaemonState κ} {a : Answers} {eng : DecisionEngine}
    (h : b.relocksWith d (.main a) = some eng) :
    ∃ cfg now s, (b.step d (.main a)).sys =
      ((relockAll b.fnmatch b.env cfg b.topo now a.rctx eng).run s).2 := by
  unfold Boot.relocksWith at h
  change ∃ cfg now s, (b.mainStep a d).sys = _
  unfold Boot.mainStep
  cases hpoint : d.point with
  | doReload next =>
      simp only [hpoint, Option.some.injEq] at h
      subst h
      have hrun := (doReload_sys b a next d).trans
        (congrArg Prod.snd (reloadTracker_run b d.shared.store a.rctx d.sys))
      exact ⟨d.shared.store, _, _, hrun⟩
  | relock now next =>
      simp only [hpoint, Option.some.injEq] at h
      subst h
      exact ⟨d.cfg, now, d.sys, rfl⟩
  | _ => simp [hpoint] at h

/-- Whatever relocks is a station of its own, or `do_reload`. -/
theorem relocksWith_eq {d : DaemonState κ} {m : Move κ} {eng : DecisionEngine}
    (h : b.relocksWith d m = some eng) : eng = b.decision := by
  unfold Boot.relocksWith at h
  split at h
  · split at h
    · exact (Option.some.inj h).symm
    · exact (Option.some.inj h).symm
    · exact absurd h nofun
  · exact absurd h nofun

theorem decision_eq_iff (e e' : EngineConfig) :
    engineDecision e = engineDecision e' ↔
      (e'.migrateAction = .force ↔ e.migrateAction = .force) ∧
        e'.pressureSensitive = e.pressureSensitive := by
  simp only [engineDecision, DecisionEngine.mk.injEq, decide_eq_decide]
  exact and_congr ⟨Iff.symm, Iff.symm⟩ eq_comm

/-! ## The interval over a run -/

theorem samples_observeRatio_ne_nil (a : AdaptiveRelock) (ratio : Rat) :
    (a.observeRatio ratio).samples ≠ [] := by
  rw [(observeRatio_observed a ratio).samples_eq]
  exact slide_ne_nil (by decide) _ _

theorem adaptive_coverageStation (d : DaemonState κ) :
    (b.coverageStation d).adaptive = d.adaptive ∨
      ∃ ratio, (b.coverageStation d).adaptive = d.adaptive.observeRatio ratio := by
  unfold Boot.coverageStation
  dsimp only
  split
  · refine Or.inr ⟨(d.exec (sampleCoverage b.env baseCpuset)).1, ?_⟩
    split
    · split <;> rfl
    · rfl
  · exact Or.inl rfl

theorem adaptive_step (d : DaemonState κ) (m : Move κ) :
    (b.step d m).adaptive = d.adaptive ∨
      ∃ ratio, (b.step d m).adaptive = d.adaptive.observeRatio ratio := by
  rcases step_station_or b d m with ⟨a, stop, -, -, hstep⟩ | ⟨hsame, -⟩
  · rw [hstep]
    rcases eq_or_ne stop .coverage with rfl | hstop
    · exact adaptive_coverageStation b d
    · exact Or.inl (congrArg Prod.snd (kept_station b a d hstop))
  · exact Or.inl hsame

/-- As long as there is no coverage sample, the interval is that of the first
configuration. -/
theorem adaptive_unsampled (kernel : κ) (moves : List (Move κ)) :
    (run b.step (b.start kernel) moves).adaptive.samples = [] →
      (run b.step (b.start kernel) moves).adaptive = engineInterval b.initial.engine := by
  apply run_invariant b.step
    (Q := fun d => d.adaptive.samples = [] → d.adaptive = engineInterval b.initial.engine)
  · intro d m ih hempty
    rcases adaptive_step b d m with hsame | ⟨ratio, hsampled⟩
    · rw [hsame] at hempty ⊢
      exact ih hempty
    · rw [hsampled] at hempty
      exact absurd hempty (samples_observeRatio_ne_nil _ _)
  · intro _
    rfl

theorem adaptive_of_takesIn {d : DaemonState κ} {m : Move κ} (h : m.takesIn d = true) :
    (b.step d m).adaptive = d.adaptive := by
  unfold Move.takesIn at h
  split at h
  · split at h
    · rename_i a _ next hpoint
      change (b.mainStep a d).adaptive = _
      unfold Boot.mainStep
      rw [hpoint]
      rfl
    · exact absurd h nofun
  · exact absurd h nofun

/-! ## Contract: settings after a reload -/

theorem engineInterval_eq_iff (e e' : EngineConfig) :
    engineInterval e = engineInterval e' ↔
      closestRank (max e.lockInterval 1) = closestRank (max e'.lockInterval 1) := by
  simp [engineInterval, AdaptiveRelock.fromInitial]

theorem settingsInEffect_iff {d : DaemonState κ}
    (hinterval : d.adaptive.samples = [] → d.adaptive = engineInterval b.initial.engine)
    (m : Move κ) : b.SettingsInEffect d m ↔ b.SettingsKept d m := by
  have hdecision : (∀ eng, b.relocksWith d m = some eng →
        eng = engineDecision d.shared.store.engine) ↔
      ((b.relocksWith d m).isSome = true →
        (d.shared.store.engine.migrateAction = .force ↔ b.initial.engine.migrateAction = .force) ∧
          d.shared.store.engine.pressureSensitive = b.initial.engine.pressureSensitive) := by
    rw [← decision_eq_iff]
    constructor
    · intro h hsome
      obtain ⟨eng, heng⟩ := Option.isSome_iff_exists.mp hsome
      exact (relocksWith_eq b heng).symm.trans (h eng heng)
    · intro h eng heng
      exact (relocksWith_eq b heng).trans (h (by rw [heng]; rfl))
  have hadaptive : (m.takesIn d = true →
        (b.step d m).adaptive = engineInterval d.shared.store.engine) ↔
      (m.takesIn d = true → d.adaptive.samples = [] ∧
        closestRank (max d.shared.store.engine.lockInterval 1) =
          closestRank (max b.initial.engine.lockInterval 1)) := by
    rw [← engineInterval_eq_iff]
    refine imp_congr_right fun htakes => ?_
    rw [adaptive_of_takesIn b htakes]
    constructor
    · intro h
      have hempty : d.adaptive.samples = [] := by rw [h]; rfl
      exact ⟨hempty, h.symm.trans (hinterval hempty)⟩
    · rintro ⟨hempty, hsame⟩
      exact (hinterval hempty).trans hsame.symm
  exact and_congr hdecision hadaptive

/-- Every step that relocks or takes a configuration in follows the installed snapshot
exactly when that asks for what the first one asked for. -/
theorem settings_in_effect_iff (kernel : κ) (moves : List (Move κ)) :
    AtEach b.step b.SettingsInEffect (b.start kernel) moves ↔
      AtEach b.step b.SettingsKept (b.start kernel) moves := by
  constructor
  · intro h before m after hsplit
    exact (settingsInEffect_iff b (adaptive_unsampled b kernel before) m).mp
      (h before m after hsplit)
  · intro h before m after hsplit
    exact (settingsInEffect_iff b (adaptive_unsampled b kernel before) m).mpr
      (h before m after hsplit)

end Settings

/-- What the scene `game` makes of a configuration without rules. -/
def gameScene : Compiled :=
  { noRules with
    engine := { EngineConfig.default with lockInterval := 60, migrateAction := .force } }

/-- `apply-scene game` arrives in the first iteration, up to the call of `do_reload`. -/
def gameCommand : List (Move Nat) :=
  [.main {}, .request (.applyScene "game"), .main { content := some "" },
    .main { loaded := some gameScene }, .main {}]

/-- The relock of the command itself still leaves the affinity to the gate. -/
theorem scene_not_in_effect :
    ¬∀ (b : Boot Nat) (kernel : Nat) (moves : List (Move Nat)),
      AtEach b.step b.SettingsInEffect (b.start kernel) moves := by
  intro h
  have hstep := h quietBoot 0 (gameCommand ++ [.main {}]) gameCommand (.main {}) [] rfl
  have hrelocks : quietBoot.relocksWith
      (run quietBoot.step (quietBoot.start 0) gameCommand) (.main {}) = some quietBoot.decision :=
    rfl
  have hforce := congrArg DecisionEngine.forceAffinityEnabled (hstep.1 _ hrelocks)
  let d := run quietBoot.step (quietBoot.start 0) gameCommand
  have hwanted : (engineDecision d.shared.store.engine).forceAffinityEnabled = true := by
    decide +kernel
  rw [hwanted] at hforce
  exact absurd hforce (by decide +kernel)

end Threadctl.Daemon

import Threadctl.Daemon.PidReuse

/-!
# Pressure only withholds

The decision gate looks at the heat of the device, at the failures of the last minute and
at the memory pressure.  More of any of these can keep a pass from a process; it never adds
an application, and never changes which policy a thread gets.
-/

namespace Threadctl.Daemon

open Threadctl.Core

variable {κ : Type}

/-! ## The gate -/

/-- The device is hot, or so slow that it counts as hot. -/
def RelockContext.Hot (rctx : RelockContext) : Prop :=
  f64Max rctx.thermalPressure (1.0 - rctx.freqThrottle) > 0.8

def RelockContext.Failing (rctx : RelockContext) : Prop := rctx.auditFailureRate > 0.5

/-- Whatever presses in `calm` presses in `stressed` too. -/
structure Calmer (calm stressed : RelockContext) : Prop where
  hot : RelockContext.Hot calm → RelockContext.Hot stressed
  failing : RelockContext.Failing calm → RelockContext.Failing stressed
  critical : calm.pressure = .critical → stressed.pressure = .critical

def Decision.isAllow : Decision → Bool
  | .allow _ => true
  | _ => false

theorem decidePressure_isAllow (eng : DecisionEngine) (rctx : RelockContext) (intent : TaskIntent)
    (foreground : Bool) :
    Decision.isAllow (eng.decidePressure ⟨rctx, intent, foreground⟩) = true ↔
      ¬ RelockContext.Hot rctx ∧ ¬ RelockContext.Failing rctx ∧
        ¬ (eng.pressureSensitive = true ∧ rctx.pressure = .critical) := by
  unfold DecisionEngine.decidePressure RelockContext.Hot RelockContext.Failing
  dsimp only
  split
  · rename_i hhot
    simp [Decision.isAllow, hhot]
  · rename_i hhot
    split
    · rename_i hfailing
      simp [Decision.isAllow, hfailing]
    · rename_i hfailing
      split
      · rename_i hcritical
        simp [Decision.isAllow, hcritical]
      · rename_i hcritical
        rw [iff_true_right ⟨hhot, hfailing, hcritical⟩]
        split <;> rfl

theorem decidePressure_calmer {eng : DecisionEngine} {calm stressed : RelockContext}
    (h : Calmer calm stressed) {intent : TaskIntent} {foreground : Bool}
    (hallow : Decision.isAllow (eng.decidePressure ⟨stressed, intent, foreground⟩) = true) :
    Decision.isAllow (eng.decidePressure ⟨calm, intent, foreground⟩) = true := by
  rw [decidePressure_isAllow] at hallow ⊢
  obtain ⟨hhot, hfailing, hcritical⟩ := hallow
  exact ⟨fun hcalm => hhot (h.hot hcalm), fun hcalm => hfailing (h.failing hcalm),
    fun hcalm => hcritical ⟨hcalm.1, h.critical hcalm.2⟩⟩

/-- What passes under stress passes in calm. -/
theorem gate_calmer {view : ProcView} {calm stressed : RelockContext} (h : Calmer calm stressed)
    {decision : DecisionEngine} {pid : Int}
    (hallow : Decision.isAllow (gate view stressed decision pid) = true) :
    Decision.isAllow (gate view calm decision pid) = true := by
  unfold gate DecisionEngine.decideCtx at hallow ⊢
  dsimp only at hallow ⊢
  split
  · rfl
  · rename_i hforce
    rw [if_neg hforce] at hallow
    generalize TaskIntent.fromOomAdj (view.oomAdj pid) = intent at hallow ⊢
    cases intent with
    | frozen | background => exact absurd hallow Bool.false_ne_true
    | interactive | backgroundLatencySensitive => exact decidePressure_calmer h hallow

theorem isAllow_iff {d : Decision} : Decision.isAllow d = true ↔ ∃ reason, d = .allow reason := by
  cases d with
  | allow reason => exact ⟨fun _ => ⟨reason, rfl⟩, fun _ => rfl⟩
  | skip reason => exact ⟨fun h => absurd h Bool.false_ne_true, nofun⟩
  | degrade level reason => exact ⟨fun h => absurd h Bool.false_ne_true, nofun⟩

theorem Scans.calmer {view : ProcView} {calm stressed : RelockContext} (h : Calmer calm stressed)
    {decision : DecisionEngine} {known : Option ProcessState} {pid : Int} {p : ProcessState}
    (hscans : Scans view stressed decision known pid p) : Scans view calm decision known pid p := by
  obtain ⟨hknown, halive, hallow⟩ := hscans
  exact ⟨hknown, halive, isAllow_iff.mp (gate_calmer h (isAllow_iff.mpr hallow))⟩

/-! ## Passes -/

/-- What a pass applies under stress it applies in calm, and as it does then. -/
theorem pressure_only_withholds (fnmatch : String → String → Bool) {env : Env κ} {view : ProcView}
    (hshows : env.Shows view) {calm stressed : RelockContext} (h : Calmer calm stressed)
    (decision : DecisionEngine) (cfg : ConfigSnapshot) (topo : CpuTopology) (now : Int)
    (s : System κ) :
    ∀ c ∈ newCalls s ((relockAll fnmatch env cfg topo now stressed decision).run s).2,
      ∃ c' ∈ newCalls s ((relockAll fnmatch env cfg topo now calm decision).run s).2,
        c'.tid = c.tid ∧ c'.pkg = c.pkg ∧ c'.policy = c.policy := by
  obtain ⟨pids, part, hpids, hcalls, hpart⟩ :=
    relockAll_calls fnmatch stressed decision hshows cfg topo now s
  obtain ⟨pids', part', hpids', hcalls', hpart'⟩ :=
    relockAll_calls fnmatch calm decision hshows cfg topo now s
  rw [hcalls, hcalls']
  intro c hc
  obtain ⟨pid, hpid, hc⟩ := List.mem_flatMap.mp hc
  have hpid' : pid ∈ pids' := (hpids' pid).mpr ((hpids pid).mp hpid)
  rcases hpart pid hpid with ⟨p, tracker, hscans, -, hnew⟩ | ⟨-, hnew⟩
  · rcases hpart' pid hpid' with ⟨p', tracker', hscans', -, hnew'⟩ | ⟨hquiet, -⟩
    · obtain rfl : p' = p := Option.some.inj (hscans'.1.symm.trans hscans.1)
      rw [hnew, mem_scanCalls] at hc
      obtain ⟨hscanned, hpkg, -⟩ := hc
      refine ⟨⟨c.tid, c.pkg, c.policy, tracker'⟩, ?_, rfl, rfl, rfl⟩
      apply List.mem_flatMap.mpr
      refine ⟨pid, hpid', ?_⟩
      rw [hnew', mem_scanCalls]
      exact ⟨hscanned, hpkg, rfl⟩
    · exact absurd (hscans.calmer h) (hquiet p)
  · rw [hnew] at hc
    exact absurd hc List.not_mem_nil

def sevenTracked : System Unit :=
  { System.init () with
    tracker := { StateTracker.new with
      procs := StateTracker.new.procs.insert 7 (.new 7 5 "com.a" 0) } }

def calmPass : RelockContext := ⟨.normal, 0.0, 1.0, 0.0⟩

def moderatePass : RelockContext := ⟨.moderate, 0.0, 1.0, 0.0⟩

/-- The calm pass acts on the thread that the pass under moderate pressure acts on. -/
theorem moderate_pressure_withholds :
    ∃ c ∈ newCalls sevenTracked ((relockAll glob (pidSevenView "com.a" 5).env comARtConfig
        (.flat 4) 1 calmPass ⟨false, true⟩).run sevenTracked).2,
      c.tid = 7 ∧ c.pkg = "com.a" := by
  have hcalmer : Calmer calmPass moderatePass := ⟨id, id, nofun⟩
  have happlied : (newCalls sevenTracked ((relockAll glob (pidSevenView "com.a" 5).env comARtConfig
      (.flat 4) 1 moderatePass ⟨false, true⟩).run sevenTracked).2).map (fun c => (c.tid, c.pkg)) =
        [(7, "com.a")] := by
    decide +kernel
  have hmem := List.mem_map.mp (happlied.symm ▸ List.mem_singleton_self ((7 : Int), "com.a"))
  obtain ⟨c, hc, hthread⟩ := hmem
  obtain ⟨c', hc', htid, hpkg, -⟩ := pressure_only_withholds glob (ProcView.env_shows _) hcalmer
    ⟨false, true⟩ comARtConfig (.flat 4) 1 sevenTracked c hc
  rw [Prod.mk.injEq] at hthread
  exact ⟨c', hc', htid.trans hthread.1, hpkg.trans hthread.2⟩

end Threadctl.Daemon

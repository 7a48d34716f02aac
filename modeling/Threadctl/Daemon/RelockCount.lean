import Threadctl.Core.RelockTally
import Threadctl.Daemon.DaemonRule

/-!
# The decisions of a run

The counters of the relock decisions are those of the passes: each pass decides once about
every tracked process that it finds alive and removes the others, and no other step of the
daemon decides.
-/

namespace Threadctl.Daemon

open Threadctl.Core Threadctl.Support.StateRun Threadctl.Support.Runs

variable {κ : Type}

/-! ## Counters -/

section Counters

variable {env : Env κ} {r : RelockStats}

theorem overlooksAll_relockStats (env : Env κ) :
    OverlooksAll env (System.relockStats (κ := κ)) where
  auditLog _ _ := rfl
  ensuredDirs _ _ := rfl
  uclampSupport _ _ := rfl
  shortCircuitTotal _ _ := rfl
  calls _ _ := rfl
  appendTask _ _ _ := rfl

theorem keeps_relockStats {α : Type} {x : Run κ α} (hx : Frame System.relockStats x) :
    Keeps (fun s : System κ => s.relockStats = r) x := hx.keeps (· = r)

theorem releaseState_relockStats (state : ProcessState) :
    Keeps (fun s : System κ => s.relockStats = r) (releaseState env state) :=
  keeps_relockStats <| frame_releaseState env (fun _ _ => rfl) (fun _ _ => rfl) (fun _ _ => rfl)
    (fun _ _ => rfl) state

theorem keeps_since_any {α : Type} {B : Beliefs} {I : System κ → Prop} {x : Run κ α}
    (hx : Keeps I x) : Keeps (Since (fun _ => .any) B I) x := fun s hs => ⟨hs.1, hx s hs.2⟩

theorem eventInvariant_relockStats (fnmatch : String → String → Bool) (topo : CpuTopology)
    (rules : RuleSet) (r : RelockStats) :
    EventInvariant (fun _ => .any) fnmatch env topo rules fun s : System κ =>
      s.relockStats = r where
  ask _ _ := keeps_since_any fun _ hs => hs
  enter _ pkg now _ := keeps_since_any <|
    keeps_enter (fun _ hs => hs) (fun _ _ hs => hs) (fun _ hs => hs) releaseState_relockStats
      pkg now
  remove _ _ := keeps_since_any (keeps_remove (fun _ hs => hs) releaseState_relockStats)
  update _ _ _ := fun _ hs => hs
  registerDirs _ _ _ _ := keeps_since_any fun _ hs => hs
  apply tid pkg policy allowed _ _ _ := by
    refine keeps_since_any (keeps_relockStats fun s => ?_)
    exact applyThread_view tid pkg (overlooksAll_relockStats env) policy topo allowed s

end Counters

/-! ## Passes -/

/-- A relock that a step makes: its configuration, its time, and the system it starts in. -/
structure Pass (κ : Type) where
  cfg : ConfigSnapshot
  now : Int
  sys : System κ

/-- The pass of the next step of the main loop.  A reload removes the processes that are no
longer wanted before it. -/
def Boot.pass (b : Boot κ) (d : DaemonState κ) : Option (Pass κ) :=
  match d.point with
  | .doReload _ =>
      let retained := ((retainConfigured b.env d.shared.store).run d.sys).2
      let asked := (ask b.env.nowSecs).run retained
      some ⟨d.shared.store, asked.1, asked.2⟩
  | .relock now _ => some ⟨d.cfg, now, d.sys⟩
  | _ => none

def Boot.PassDone (b : Boot κ) (a : Answers) (p : Pass κ) (s' : System κ) : Prop :=
  Core.PassDone b.fnmatch b.env p.cfg b.topo p.now a.rctx b.decision p.sys s'

/-- The decisions of a step, each with the process that it is about. -/
def Boot.decisions (b : Boot κ) (d : DaemonState κ) : Move κ → List (Int × Decision)
  | .main a =>
      match b.pass d with
      | some p => passDecisions b.fnmatch b.env p.cfg b.topo p.now a.rctx b.decision p.sys
      | none => []
  | _ => []

def Boot.passCounts (b : Boot κ) (d : DaemonState κ) : Move κ → List Nat
  | .main a =>
      match b.pass d with
      | some _ => [(b.step d (.main a)).sys.trackedPids.card]
      | none => []
  | _ => []

/-- The daemon works, and the counters of its decisions stand at `r`. -/
def Stands (r : RelockStats) (d : DaemonState κ) : Prop :=
  Governed (fun _ => .any) (fun _ => True) (fun s => s.relockStats = r) d

section Steps

variable {b : Boot κ} {d : DaemonState κ} {r : RelockStats}

theorem stands_events (b : Boot κ) (r : RelockStats) (rules : RuleSet) :
    EventInvariant (fun _ => .any) b.fnmatch b.env b.topo rules fun s => s.relockStats = r :=
  eventInvariant_relockStats b.fnmatch b.topo rules r

theorem working_engine (b : Boot κ) (rules : RuleSet) :
    EngineInvariant (fun _ => .any) b.fnmatch b.env b.topo rules fun _ => True where
  ask _ _ := keeps_since_any fun _ _ => trivial
  enter _ _ _ _ := keeps_since_any fun _ _ => trivial
  remove _ _ := keeps_since_any fun _ _ => trivial
  update _ _ _ := fun _ _ => trivial
  registerDirs _ _ _ _ := keeps_since_any fun _ _ => trivial
  apply _ _ _ _ _ _ _ := keeps_since_any fun _ _ => trivial
  bump _ := fun _ _ => trivial

theorem Governed.step_any (h : Governed (fun _ => .any) (fun _ => True) (fun _ => True) d)
    (m : Move κ) : Governed (fun _ => .any) (fun _ => True) (fun _ => True) (b.step d m) := by
  cases m with
  | main a =>
      exact h.mainStep (fun rules _ => working_engine b rules) b.env.informs_any fun _ _ => trivial
  | hotReload | request | kernelEvent | kernel =>
      exact h.outside (fun _ _ _ _ => trivial) (fun _ hm => nomatch hm) (fun _ _ => trivial)
        fun _ _ => le_refl _

theorem Stands.of_working (h : Governed (fun _ => .any) (fun _ => True) (fun _ => True) d) :
    Stands d.sys.relockStats d :=
  ⟨h.ready, rfl, h.informed.2⟩

/-- Every pass does to each tracked process what its turn asks for. -/
theorem mainStep_passDone (b : Boot κ) (d : DaemonState κ) (a : Answers) {p : Pass κ}
    (hp : b.pass d = some p) : b.PassDone a p (b.step d (.main a)).sys := by
  unfold Boot.pass at hp
  unfold Boot.step Boot.mainStep
  cases hpoint : d.point with
  | doReload next =>
      rw [hpoint] at hp
      obtain rfl := Option.some.inj hp
      exact relockAll_passDone b.fnmatch b.env _ b.topo _ a.rctx b.decision _
  | relock now next =>
      rw [hpoint] at hp
      obtain rfl := Option.some.inj hp
      exact relockAll_passDone b.fnmatch b.env _ b.topo _ a.rctx b.decision _
  | top | station | reloading | handle | stopped =>
      rw [hpoint] at hp
      exact absurd hp nofun

/-- Up to its pass a step decides nothing. -/
theorem Stands.pass (h : Stands r d) {p : Pass κ} (hp : b.pass d = some p) :
    p.sys.relockStats = r := by
  unfold Boot.pass at hp
  cases hpoint : d.point with
  | doReload next =>
      rw [hpoint] at hp
      obtain rfl := Option.some.inj hp
      have hretained := (stands_events b r d.shared.store.rules).retainInterested
        (pkgSet d.shared.store) d.sys ⟨le_refl Beliefs.any, h.informed⟩
      exact hretained.2.2.1
  | relock now next =>
      rw [hpoint] at hp
      obtain rfl := Option.some.inj hp
      exact h.informed.1
  | top | station | reloading | handle | stopped =>
      rw [hpoint] at hp
      exact absurd hp nofun

theorem Stands.quiet (h : Stands r d) {m : Move κ} (hm : ∀ a, m = .main a → b.pass d = none) :
    (b.step d m).sys.relockStats = r := by
  cases m with
  | main a =>
      have hnone : b.pass d = none := hm a rfl
      have hreload : ∀ next, d.point ≠ .doReload next := by
        intro next hpoint
        unfold Boot.pass at hnone
        rw [hpoint] at hnone
        exact absurd hnone nofun
      have hrelock : ∀ now next, d.point ≠ .relock now next := by
        intro now next hpoint
        unfold Boot.pass at hnone
        rw [hpoint] at hnone
        exact absurd hnone nofun
      have hstep : Stands r (b.mainStep a d) :=
        h.mainStep_of (fun rules _ => stands_events b r rules) b.env.informs_any
          (fun _ _ => trivial) (fun next hp => absurd hp (hreload next))
          fun now next hp => absurd hp (hrelock now next)
      exact hstep.informed.1
  | hotReload | kernelEvent | kernel => exact h.informed.1
  | request req =>
      obtain ⟨pending, -, hstep⟩ := step_pending b d req
      rw [hstep]
      exact h.informed.1

/-- A step counts its decisions, one for each process that its pass leaves tracked. -/
theorem Stands.counts (h : Stands r d) (m : Move κ) :
    (b.step d m).sys.relockStats =
        ((b.decisions d m).map Prod.snd).foldl RelockStats.count r ∧
      (b.step d m).sys.relockStats.total = r.total + (b.passCounts d m).sum := by
  have hquiet := h.quiet (b := b) (m := m)
  cases m with
  | main a =>
      unfold Boot.decisions Boot.passCounts
      dsimp only
      cases hp : b.pass d with
      | none =>
          have hsame := hquiet fun _ _ => hp
          exact ⟨hsame, congrArg RelockStats.total hsame⟩
      | some p =>
          have hdone := mainStep_passDone b d a hp
          have hstart : p.sys.relockStats = r := h.pass hp
          have hcounted := hdone.counted
          have htotal := hdone.total
          rw [hstart] at hcounted htotal
          exact ⟨hcounted, by rw [htotal, List.sum_singleton]⟩
  | hotReload | kernelEvent | kernel | request =>
      have hsame := hquiet fun _ hm => nomatch hm
      exact ⟨hsame, congrArg RelockStats.total hsame⟩

end Steps

/-- Over any run: in each pass every process that was tracked before it has one turn; if the
kernel then says that it lives it stays tracked and there is one decision about it, else it is
removed without one.  The counters are those of all decisions so far, and add up to the number
of processes that the passes have left tracked. -/
theorem relock_decisions_counted (b : Boot κ) (kernel : κ) (moves : List (Move κ)) :
    AtEach b.step (fun d m => ∀ a p, m = .main a → b.pass d = some p →
        b.PassDone a p (b.step d m).sys) (b.start kernel) moves ∧
      (run b.step (b.start kernel) moves).sys.relockStats =
        ((output b.step b.decisions (b.start kernel) moves).map Prod.snd).foldl
          RelockStats.count ⟨0, 0, 0⟩ ∧
      (run b.step (b.start kernel) moves).sys.relockStats.total =
        (output b.step b.passCounts (b.start kernel) moves).sum := by
  have hworking : ∀ moves, Governed (fun _ => .any) (fun _ => True) (fun _ => True)
      (run b.step (b.start kernel) moves) :=
    run_invariant b.step (fun _ m hd => hd.step_any m)
      (start_governed (fun _ => trivial) trivial kernel)
  refine ⟨?_, ?_⟩
  · rintro before _ after - a p rfl hp
    exact mainStep_passDone b _ a hp
  · induction moves using List.reverseRecOn with
    | nil => exact ⟨rfl, rfl⟩
    | append_singleton moves m ih =>
        have hrun := run_concat b.step (b.start kernel) moves m
        obtain ⟨hstats, htotal⟩ := (Stands.of_working (hworking moves)).counts m
        rw [hrun, output_concat, output_concat, List.map_append, List.foldl_append, List.sum_append,
          ← ih.1, ← ih.2]
        exact ⟨hstats, htotal⟩

end Threadctl.Daemon

import Mathlib.Algebra.Order.Group.Int
import Threadctl.Daemon.ConfiguredCalls
import Threadctl.Support.Pacing

/-!
# The pace of the guarded relocks

The relock after a bad coverage sample and the periodic one share a guard that lets one pass
through and then cools down for a second.  The commands and the reloads do not ask it.
-/

namespace Threadctl.Daemon

open Threadctl.Core Threadctl.Support.EventLog Threadctl.Support.Pacing Threadctl.Support.Runs

variable {κ : Type}

def cooldownNanos : Int := d3CooldownMs * nanosPerMs

/-- A guard with a cooldown lets a pass through only after it, and notes the time. -/
theorem tryLock_granted {g : RelockGuard} {now : Nat} (hcooldown : 0 < g.cooldownMs)
    (h : (g.tryLock now).1 = true) :
    g.lastAt + (g.cooldownMs * nanosPerMs : Nat) ≤ now ∧
      (g.tryLock now).2 = { g with lastAt := now } := by
  unfold RelockGuard.tryLock at h ⊢
  split at h
  · rename_i hcool
    rw [if_pos hcool]
    refine ⟨?_, rfl⟩
    have hscale : g.cooldownMs * nanosPerMs ≤ ((now : Int) - g.lastAt).toNat :=
      (Nat.le_div_iff_mul_le (by decide)).mp hcool
    have hpos : 0 < g.cooldownMs * nanosPerMs := Nat.mul_pos hcooldown (by decide)
    omega
  · exact absurd h Bool.false_ne_true

theorem tryLock_refused {g : RelockGuard} {now : Nat} (h : ¬ (g.tryLock now).1 = true) :
    (g.tryLock now).2 = g := by
  unfold RelockGuard.tryLock at h ⊢
  split at h
  · exact absurd rfl h
  · rename_i hcool
    rw [if_neg hcool]

/-! ## Passes -/

/-- A relock that the guard has let through comes next.  The one of a command, which goes
back to the commands, has not asked. -/
def Point.guarded : Point → Bool
  | .relock _ next => next ≠ .ipc
  | _ => false

/-- A guarded pass, by the time at which it was let through. -/
def passesOf (d : DaemonState κ) : Move κ → List Int
  | .main _ => if Point.guarded d.point then [d.relockGuard.lastAt] else []
  | _ => []

def Boot.passes (b : Boot κ) (kernel : κ) (moves : List (Move κ)) : List Int :=
  output b.step passesOf (b.start kernel) moves

/-- What a step does to the guard.  The time is the last thing that a step asks for before the
guard lets a pass through. -/
inductive GuardStep (b : Boot κ) (d d' : DaemonState κ) (m : Move κ) : Prop
  | idle (hguard : d'.relockGuard = d.relockGuard)
      (hpoint : Point.guarded d'.point = true →
        d'.point = d.point ∧ d'.cfg = d.cfg ∧ passesOf d m = [])
  | granted {instant : Nat} (hpoint : Point.guarded d.point = false)
      (hcfg : d'.cfg = d.cfg ∧ 0 < d.cfg.engine.lockInterval)
      (hasked : ∃ k, b.env.instantNow.run k = (instant, d'.sys.kernel))
      (hlock : d.relockGuard.tryLock instant = (true, d'.relockGuard))

section Steps

variable (b : Boot κ) (d : DaemonState κ)

theorem GuardStep.pass {b : Boot κ} {d d' : DaemonState κ} {m : Move κ}
    (hguard : d'.relockGuard = d.relockGuard) (hpoint : Point.guarded d'.point = false) :
    GuardStep b d d' m :=
  .idle hguard fun h => absurd (hpoint.symm.trans h) Bool.false_ne_true

theorem coverageStation_guard (hpoint : Point.guarded d.point = false) (m : Move κ) :
    GuardStep b d (b.coverageStation d) m := by
  unfold Boot.coverageStation
  dsimp only
  split
  · rename_i hdue
    split
    · split
      · rename_i hlock
        exact .granted hpoint ⟨rfl, hdue.1⟩ ⟨_, rfl⟩ (Prod.ext hlock rfl)
      · rename_i hlock
        exact .pass (tryLock_refused hlock) rfl
    · exact .pass rfl rfl
  · exact .pass rfl rfl

theorem periodicStation_guard (hpoint : Point.guarded d.point = false) (m : Move κ) :
    GuardStep b d (b.periodicStation d) m := by
  unfold Boot.periodicStation
  dsimp only
  split
  · rename_i hdue
    split
    · rename_i hlock
      exact .granted hpoint ⟨rfl, hdue.1⟩ ⟨_, rfl⟩ (Prod.ext hlock rfl)
    · rename_i hlock
      exact .pass (tryLock_refused hlock) rfl
  · exact .pass rfl rfl

theorem ipcStation_guard (a : Answers) (m : Move κ) : GuardStep b d (b.ipcStation a d) m := by
  unfold Boot.ipcStation
  cases d.request with
  | none => exact .pass rfl rfl
  | some request =>
      cases request with
      | applyScene name =>
          simp only [Boot.handleIpc]
          split
          · exact .pass rfl rfl
          · exact .pass rfl rfl
      | reload | apply | status | dump | snapshot | tune => exact .pass rfl rfl

theorem station_guard (a : Answers) (stop : Station) (hpoint : Point.guarded d.point = false)
    (m : Move κ) : GuardStep b d (b.station a d stop) m := by
  cases stop with
  | ipc => exact ipcStation_guard b d a m
  | notices =>
      show GuardStep b d d.noticesStation m
      unfold DaemonState.noticesStation
      split
      · exact .pass rfl rfl
      · exact .pass rfl rfl
  | coverage => exact coverageStation_guard b d hpoint m
  | periodic => exact periodicStation_guard b d hpoint m
  | cleanup =>
      show GuardStep b d (b.cleanupStation d) m
      unfold Boot.cleanupStation
      split
      · exact .pass rfl rfl
      · exact .pass rfl rfl
  | poll =>
      have hpolled : ∀ x : Run κ (Source × List ProcessEvent),
          GuardStep b d (.polled (d.exec x)) m := by
        intro x
        refine .pass rfl ?_
        unfold DaemonState.polled
        dsimp only
        split
        · rfl
        · rfl
      exact hpolled _

/-- Only the stations of the coverage and of the periodic relock ask the guard. -/
theorem step_guard (m : Move κ) : GuardStep b d (b.step d m) m := by
  cases m with
  | main a =>
      unfold Boot.step Boot.mainStep
      cases hpoint : d.point with
      | top =>
          dsimp only
          split
          · exact .pass rfl rfl
          · exact .pass rfl rfl
      | station stop => exact station_guard b d a stop (by rw [hpoint]; rfl) _
      | reloading point =>
          dsimp only
          unfold DaemonState.reloadStep
          dsimp only
          split
          · exact .pass rfl rfl
          · exact .pass rfl rfl
          · exact .pass rfl rfl
      | doReload next => exact .pass rfl rfl
      | relock now next => exact .pass rfl rfl
      | handle events => exact .pass rfl rfl
      | stopped => exact .pass rfl (by rw [hpoint]; rfl)
  | hotReload changed loaded => exact .idle rfl fun _ => ⟨rfl, rfl, rfl⟩
  | request req =>
      obtain ⟨pending, -, hstep⟩ := step_pending b d req
      rw [hstep]
      exact .idle rfl fun _ => ⟨rfl, rfl, rfl⟩
  | kernelEvent ev => exact .idle rfl fun _ => ⟨rfl, rfl, rfl⟩
  | kernel k => exact .idle rfl fun _ => ⟨rfl, rfl, rfl⟩

end Steps

/-! ## Runs -/

/-- The kernel has answered this when it was asked for the time. -/
def ClockShows (journal : List Entry) (t : Int) : Prop :=
  ∃ instant : Nat, .answer (.instant instant) ∈ journal ∧ t = instant

theorem ClockShows.mono {journal journal' : List Entry} (h : journal ⊆ journal') {t : Int}
    (ht : ClockShows journal t) : ClockShows journal' t := by
  obtain ⟨instant, hanswer, heq⟩ := ht
  exact ⟨instant, h hanswer, heq⟩

/-- The passes so far, and where the guard stands: a pass that comes next was let through
after a full cooldown. -/
structure Paced (passes : List Int) (d : DaemonState (Traced κ Entry)) : Prop where
  cooldown : d.relockGuard.cooldownMs = d3CooldownMs
  spaced : Spaced cooldownNanos passes
  before : ∀ t ∈ passes, t ≤ d.relockGuard.lastAt
  clock : ∀ t ∈ passes, ClockShows d.sys.kernel.log t
  next : Point.guarded d.point = true →
    (∀ t ∈ passes, t + cooldownNanos ≤ d.relockGuard.lastAt) ∧
      ClockShows d.sys.kernel.log d.relockGuard.lastAt ∧
      0 < d.cfg.engine.lockInterval

theorem paced_start (b : Boot κ) (kernel : κ) : Paced [] (b.journaled.start ⟨kernel, []⟩) where
  cooldown := rfl
  spaced := spaced_nil
  before := nofun
  clock := nofun
  next h := absurd h Bool.false_ne_true

section Paced

variable {passes : List Int} {d : DaemonState (Traced κ Entry)}

theorem Paced.pass (h : Paced passes d) (m : Move (Traced κ Entry)) :
    Spaced cooldownNanos (passes ++ passesOf d m) ∧
      (∀ t ∈ passes ++ passesOf d m, t ≤ d.relockGuard.lastAt) ∧
      ∀ t ∈ passes ++ passesOf d m, ClockShows d.sys.kernel.log t := by
  have hnone : Spaced cooldownNanos (passes ++ []) ∧
      (∀ t ∈ passes ++ [], t ≤ d.relockGuard.lastAt) ∧
      ∀ t ∈ passes ++ [], ClockShows d.sys.kernel.log t := by
    rw [List.append_nil]
    exact ⟨h.spaced, h.before, h.clock⟩
  cases m with
  | main a =>
      unfold passesOf
      dsimp only
      split
      · rename_i hguarded
        obtain ⟨hcool, hclock, -⟩ := h.next hguarded
        refine ⟨spaced_concat_iff.mpr ⟨h.spaced, hcool⟩, fun t ht => ?_, fun t ht => ?_⟩
        · rcases List.mem_append.mp ht with hold | hnew
          · exact h.before t hold
          · exact (List.mem_singleton.mp hnew).le
        · rcases List.mem_append.mp ht with hold | hnew
          · exact h.clock t hold
          · exact List.mem_singleton.mp hnew ▸ hclock
      · exact hnone
  | hotReload | request | kernelEvent | kernel => exact hnone

theorem Paced.step (b : Boot κ) (h : Paced passes d) (m : Move κ)
    (hgrown : d.sys.kernel.log ⊆ (b.journaledStep d m).sys.kernel.log) :
    Paced (passes ++ passesOf d (m.over d.sys.kernel.log)) (b.journaledStep d m) := by
  obtain ⟨hspaced, hbefore, hclock⟩ := h.pass (m.over d.sys.kernel.log)
  have hshown : ∀ t ∈ passes ++ passesOf d (m.over d.sys.kernel.log),
      ClockShows (b.journaledStep d m).sys.kernel.log t := fun t ht => (hclock t ht).mono hgrown
  have hstep := step_guard b.journaled d (m.over d.sys.kernel.log)
  rw [← Boot.journaledStep] at hstep
  cases hstep with
  | idle hguard hpoint =>
      refine ⟨by rw [hguard]; exact h.cooldown, hspaced, by rwa [hguard], hshown, fun hnext => ?_⟩
      obtain ⟨hsame, hcfg, hnone⟩ := hpoint hnext
      rw [hsame] at hnext
      rw [hguard, hcfg, hnone, List.append_nil]
      obtain ⟨hcool, hlast, hlocks⟩ := h.next hnext
      exact ⟨hcool, hlast.mono hgrown, hlocks⟩
  | @granted instant hpoint hcfg hasked hlock =>
      have hnone : passesOf d (m.over d.sys.kernel.log) = [] := by
        cases m with
        | main a => exact if_neg (by rw [hpoint]; exact Bool.false_ne_true)
        | hotReload | request | kernelEvent | kernel => rfl
      have hpositive : 0 < d.relockGuard.cooldownMs := by
        rw [h.cooldown]
        decide
      obtain ⟨hcool, hafter⟩ := tryLock_granted hpositive (congrArg Prod.fst hlock)
      have hguard : (b.journaledStep d m).relockGuard =
          { d.relockGuard with lastAt := instant } :=
        (congrArg Prod.snd hlock).symm.trans hafter
      have hanswer : .answer (.instant instant) ∈ (b.journaledStep d m).sys.kernel.log := by
        obtain ⟨k, hk⟩ := hasked
        have hrun : (noting (fun now => .answer (.instant now)) b.env.instantNow).run k =
            (instant, (b.journaledStep d m).sys.kernel) := hk
        have hnoted := mem_noting (fun now => .answer (.instant now)) b.env.instantNow k
        rw [hrun] at hnoted
        exact hnoted
      rw [h.cooldown] at hcool
      have hpassed : d.relockGuard.lastAt + cooldownNanos ≤ instant := hcool
      have hgap : 0 < cooldownNanos := by decide
      rw [hnone, List.append_nil] at hspaced hbefore hshown ⊢
      refine ⟨by rw [hguard]; exact h.cooldown, hspaced, fun t ht => ?_, hshown, fun _ => ?_⟩
      · have ht := hbefore t ht
        rw [hguard]
        show t ≤ instant
        omega
      · rw [hguard, hcfg.1]
        refine ⟨fun t ht => ?_, ⟨instant, hanswer, rfl⟩, hcfg.2⟩
        have ht := hbefore t ht
        show t + cooldownNanos ≤ instant
        omega

end Paced

theorem passesOf_under (d : DaemonState (Traced κ Entry)) (m : Move κ) (journal : List Entry) :
    passesOf (d.under Traced.kernel) m = passesOf d (m.over journal) := by
  cases m with
  | main a => rfl
  | hotReload | request | kernelEvent | kernel => rfl

theorem paced_run (b : Boot κ) (kernel : κ) (moves : List (Move κ)) :
    Paced (b.passes kernel moves) (b.journaledRun kernel moves) := by
  induction moves using List.reverseRecOn with
  | nil => exact paced_start b kernel
  | append_singleton moves m ih =>
      have hpasses : b.passes kernel (moves ++ [m]) =
          b.passes kernel moves ++ passesOf (run b.step (b.start kernel) moves) m :=
        output_concat b.step passesOf (b.start kernel) moves m
      obtain ⟨new, hgrown, -⟩ := journal_supported b kernel moves m
      have hsub : b.journal kernel moves ⊆ b.journal kernel (moves ++ [m]) := by
        rw [hgrown]
        exact List.subset_append_left _ _
      unfold Boot.journal at hsub
      rw [journaledRun_concat] at hsub ⊢
      rw [hpasses, ← journaledRun_under, passesOf_under]
      exact ih.step b m hsub

/-- Whatever the clock does and whatever happens in between: of the guarded passes at most `n`
fall into any `n` seconds of the kernel's clock, each was let through at a time that the kernel
had answered, and a pass is let through only by a configuration that locks. -/
theorem guarded_relocks_paced (b : Boot κ) (kernel : κ) (moves : List (Move κ)) :
    (∀ (start : Int) (n : Nat),
      ((b.passes kernel moves).filter fun t => start ≤ t ∧ t < start + n * cooldownNanos).length ≤
        n) ∧
      (∀ t ∈ b.passes kernel moves, ClockShows (b.journal kernel moves) t) ∧
      (Point.guarded (run b.step (b.start kernel) moves).point = true →
        0 < (run b.step (b.start kernel) moves).cfg.engine.lockInterval) := by
  have hpaced := paced_run b kernel moves
  refine ⟨fun start n => ?_, hpaced.clock, fun h => ?_⟩
  · simpa only [nsmul_eq_mul] using hpaced.spaced.window start n
  · rw [← journaledRun_under] at h ⊢
    exact (hpaced.next h).2.2

end Threadctl.Daemon

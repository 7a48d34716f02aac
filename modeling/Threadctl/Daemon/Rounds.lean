import Threadctl.Support.Potential
import Threadctl.Daemon.Freshness

/-!
# The main loop comes round

The two loops over pending work at the head of an iteration end only when nothing is
pending.  Every request and every notice costs a few steps; apart from these an iteration
has a fixed length, and the signal to stop is looked at between two iterations.
-/

namespace Threadctl.Daemon

open Threadctl.Core Threadctl.Support.Runs Threadctl.Support.Potential

variable {κ : Type}

/-! ## What is left of an iteration -/

/-- The most steps from here to the head of the loop, if nothing more is pending. -/
def Station.left : Station → ℕ
  | .ipc => 9
  | .notices => 8
  | .coverage => 7
  | .periodic => 5
  | .cleanup => 3
  | .poll => 2

def Point.left : Point → ℕ
  | .top | .stopped => 0
  | .station stop => stop.left
  | .reloading (.load _) => 12
  | .reloading (.install _) => 11
  | .doReload next | .relock _ next => next.left + 1
  | .handle _ => 1

/-- A notice that the hot-reload thread may still send for a change it has found. -/
def owedNotice : HotReload → ℕ
  | .waiting => 0
  | _ => 1

def pendingCost (request : Option IpcRequest) (shared : Shared) (hotReload : HotReload) : ℕ :=
  4 * request.toList.length + 2 * (shared.notices.length + owedNotice hotReload)

def DaemonState.left (d : DaemonState κ) : ℕ :=
  d.point.left + pendingCost d.request d.shared d.hotReload

theorem left_point_le (p : Point) : p.left ≤ 12 := by
  have hstation : ∀ stop : Station, stop.left ≤ 9 := by
    intro stop
    cases stop <;> decide
  cases p with
  | top | stopped | handle => exact Nat.le_of_ble_eq_true rfl
  | station stop => exact (hstation stop).trans (by omega)
  | reloading point => cases point <;> exact Nat.le_of_ble_eq_true rfl
  | doReload next => exact (Nat.succ_le_succ (hstation next)).trans (by omega)
  | relock now next => exact (Nat.succ_le_succ (hstation next)).trans (by omega)

/-! ## Steps of the main loop -/

section Steps

variable {b : Boot κ} {d : DaemonState κ}

/-- Nothing is done to the pending work, and the loop goes on to `p`. -/
structure Advances (d d' : DaemonState κ) (p : Point) : Prop where
  request : d'.request = d.request
  shared : d'.shared = d.shared
  hotReload : d'.hotReload = d.hotReload
  point : d'.point = p

theorem Advances.left {d' : DaemonState κ} {p : Point} (h : Advances d d' p) {n : ℕ}
    (hp : p.left < n) : d'.left < n + pendingCost d.request d.shared d.hotReload := by
  rw [DaemonState.left, h.request, h.shared, h.hotReload, h.point]
  omega

theorem coverageStation_advances :
    Advances d (b.coverageStation d) (.station .periodic) ∨
      Advances d (b.coverageStation d) (.relock d.now .periodic) := by
  unfold Boot.coverageStation
  dsimp only
  split
  · split
    · split
      · exact Or.inr ⟨rfl, rfl, rfl, rfl⟩
      · exact Or.inl ⟨rfl, rfl, rfl, rfl⟩
    · exact Or.inl ⟨rfl, rfl, rfl, rfl⟩
  · exact Or.inl ⟨rfl, rfl, rfl, rfl⟩

theorem periodicStation_advances :
    Advances d (b.periodicStation d) (.station .cleanup) ∨
      Advances d (b.periodicStation d) (.relock d.now .cleanup) := by
  unfold Boot.periodicStation
  dsimp only
  split
  · split
    · exact Or.inr ⟨rfl, rfl, rfl, rfl⟩
    · exact Or.inl ⟨rfl, rfl, rfl, rfl⟩
  · exact Or.inl ⟨rfl, rfl, rfl, rfl⟩

theorem cleanupStation_advances : Advances d (b.cleanupStation d) (.station .poll) := by
  unfold Boot.cleanupStation
  split
  · exact ⟨rfl, rfl, rfl, rfl⟩
  · exact ⟨rfl, rfl, rfl, rfl⟩

theorem pollStation_advances :
    Advances d (b.pollStation d) .top ∨
      ∃ events, Advances d (b.pollStation d) (.handle events) := by
  -- the run of the source is left alone
  have hpolled : ∀ r : (Source × List ProcessEvent) × DaemonState κ,
      Advances r.2 (.polled r) .top ∨ ∃ events, Advances r.2 (.polled r) (.handle events) := by
    intro r
    unfold DaemonState.polled
    split
    · exact Or.inl ⟨rfl, rfl, rfl, rfl⟩
    · exact Or.inr ⟨r.1.2, rfl, rfl, rfl, rfl⟩
  have hexec : ∀ {α : Type} (x : Threadctl.Core.Run κ α) {d' : DaemonState κ} {p : Point},
      Advances (d.exec x).2 d' p → Advances d d' p := fun x _ _ h =>
    ⟨h.request, h.shared, h.hotReload, h.point⟩
  rcases hpolled (d.exec (b.pollSource d.source (max b.scanInterval d.cfg.engine.scanInterval)))
    with htop | ⟨events, hevents⟩
  · exact Or.inl (hexec _ htop)
  · exact Or.inr ⟨events, hexec _ hevents⟩

theorem noticesStation_left :
    d.noticesStation.left < 8 + pendingCost d.request d.shared d.hotReload := by
  unfold DaemonState.noticesStation
  split
  · have hadvances : Advances d { d with point := .station .coverage } (.station .coverage) :=
      ⟨rfl, rfl, rfl, rfl⟩
    exact hadvances.left (by decide : 7 < 8)
  · rename_i version rest hnotices
    have hlength : d.shared.notices.length = rest.length + 1 := by rw [hnotices, List.length_cons]
    show 9 + (4 * d.request.toList.length + 2 * (rest.length + owedNotice d.hotReload)) <
      8 + (4 * d.request.toList.length + 2 * (d.shared.notices.length + owedNotice d.hotReload))
    omega

theorem handleIpc_left (a : Answers) (req : IpcRequest) :
    (b.handleIpc a d req).left ≤ 12 + pendingCost d.request d.shared d.hotReload := by
  have hadvances : ∃ p : Point, Advances d (b.handleIpc a d req) p ∧ p.left ≤ 12 := by
    cases req with
    | applyScene name =>
        unfold Boot.handleIpc
        dsimp only
        split
        · exact ⟨_, ⟨rfl, rfl, rfl, rfl⟩, left_point_le _⟩
        · exact ⟨_, ⟨rfl, rfl, rfl, rfl⟩, left_point_le _⟩
    | status | dump | reload | apply | snapshot | tune =>
        exact ⟨_, ⟨rfl, rfl, rfl, rfl⟩, left_point_le _⟩
  obtain ⟨p, hp, hle⟩ := hadvances
  rw [DaemonState.left, hp.request, hp.shared, hp.hotReload, hp.point]
  omega

theorem ipcStation_left (a : Answers) :
    (b.ipcStation a d).left < 9 + pendingCost d.request d.shared d.hotReload := by
  unfold Boot.ipcStation
  split
  · have hadvances : Advances d { d with point := .station .notices } (.station .notices) :=
      ⟨rfl, rfl, rfl, rfl⟩
    exact hadvances.left (by decide : 8 < 9)
  · rename_i req hreq
    have hle := handleIpc_left (b := b) (d := { d with request := none }) a req
    have hcost : pendingCost d.request d.shared d.hotReload =
        4 + pendingCost none d.shared d.hotReload := by
      rw [hreq]
      exact Nat.add_assoc 4 0 _
    refine Nat.lt_of_le_of_lt hle ?_
    rw [hcost]
    show 12 + pendingCost none d.shared d.hotReload <
      9 + (4 + pendingCost none d.shared d.hotReload)
    omega

theorem reloadStep_left (a : Answers) (point : ReloadPoint) :
    (d.reloadStep a point).left <
      (Point.reloading point).left + pendingCost d.request d.shared d.hotReload := by
  unfold DaemonState.reloadStep DaemonState.left
  cases point with
  | load version =>
      cases a.loaded with
      | none => exact Nat.add_lt_add_right (by decide : 9 < 12) _
      | some c => exact Nat.add_lt_add_right (by decide : 11 < 12) _
  | install snapshot => exact Nat.add_lt_add_right (by decide : 10 < 11) _

theorem station_left (a : Answers) (stop : Station) :
    (b.station a d stop).left < stop.left + pendingCost d.request d.shared d.hotReload := by
  cases stop with
  | ipc => exact ipcStation_left a
  | notices => exact noticesStation_left
  | coverage =>
      rcases coverageStation_advances (b := b) (d := d) with h | h
      · exact h.left (by decide)
      · exact h.left (by decide : 6 < 7)
  | periodic =>
      rcases periodicStation_advances (b := b) (d := d) with h | h
      · exact h.left (by decide)
      · exact h.left (by decide : 4 < 5)
  | cleanup => exact cleanupStation_advances.left (by decide)
  | poll =>
      rcases pollStation_advances (b := b) (d := d) with h | ⟨events, h⟩
      · exact h.left (by decide : 0 < 2)
      · exact h.left (by decide : 1 < 2)

/-- At the head of the loop, or beyond its end. -/
def Point.rounds (p : Point) : Prop := p = .top ∨ p = .stopped

/-- Within an iteration each step brings the end of it nearer. -/
theorem mainStep_left (h : ¬ d.point.rounds) (a : Answers) : (b.mainStep a d).left < d.left := by
  have hleft : d.left = d.point.left + pendingCost d.request d.shared d.hotReload := rfl
  rw [hleft]
  unfold Boot.mainStep
  cases hpoint : d.point with
  | top => exact absurd (Or.inl hpoint) h
  | stopped => exact absurd (Or.inr hpoint) h
  | station stop => exact station_left a stop
  | reloading point => exact reloadStep_left a point
  | doReload next =>
      have hadvances : Advances d (b.doReload a next d) (.station next) := ⟨rfl, rfl, rfl, rfl⟩
      exact hadvances.left (Nat.lt_succ_self next.left)
  | relock now next =>
      have hadvances : Advances d (b.relock a now next d) (.station next) := ⟨rfl, rfl, rfl, rfl⟩
      exact hadvances.left (Nat.lt_succ_self next.left)
  | handle events =>
      have hadvances : Advances d (b.handle events d) .top := ⟨rfl, rfl, rfl, rfl⟩
      exact hadvances.left (by decide : 0 < 1)

end Steps

/-! ## Runs -/

def mainSteps : Move κ → ℕ
  | .main _ => 1
  | _ => 0

/-- The steps that a move can add to the iteration: those for a request, or for the notice of
a change that the hot-reload thread finds. -/
def addedSteps : Move κ → ℕ
  | .request _ => 4
  | .hotReload true _ => 2
  | _ => 0

/-- A step of the main loop between two iterations. -/
def BetweenIterations (d : DaemonState κ) (m : Move κ) : Prop :=
  (∃ a, m = .main a) ∧ d.point.rounds

theorem hotReload_owed (changed : Bool) (loaded : Option Compiled) (sh : Shared) (h : HotReload) :
    (h.step changed loaded sh).1.notices.length + owedNotice (h.step changed loaded sh).2 ≤
      sh.notices.length + owedNotice h + if changed then 1 else 0 := by
  cases h with
  | waiting => cases changed <;> exact le_rfl
  | reloading point =>
      cases point with
      | load version =>
          cases loaded with
          | none => exact (Nat.le_succ _).trans (Nat.le_add_right _ _)
          | some c => exact Nat.le_add_right _ _
      | install snapshot => exact Nat.le_add_right _ _
  | reloaded => exact Nat.le_add_right _ _
  | sending version =>
      show (sh.notices ++ [version]).length + 0 ≤ _
      rw [List.length_append, List.length_singleton]
      exact Nat.le_add_right _ _

/-- A step is paid for by what is left, and what arrives adds its share. -/
theorem step_left (b : Boot κ) (d : DaemonState κ) (m : Move κ) (h : ¬ BetweenIterations d m) :
    (b.step d m).left + mainSteps m ≤ d.left + addedSteps m := by
  cases m with
  | main a => exact mainStep_left (fun hrounds => h ⟨⟨a, rfl⟩, hrounds⟩) a
  | hotReload changed loaded =>
      have howed := hotReload_owed changed loaded d.shared d.hotReload
      have hadded : addedSteps (Move.hotReload (κ := κ) changed loaded) =
          2 * if changed then 1 else 0 := by
        cases changed <;> rfl
      rw [hadded]
      generalize hr : d.hotReload.step changed loaded d.shared = r at howed
      have hstep : b.step d (.hotReload changed loaded) =
          { d with shared := r.1, hotReload := r.2 } := by rw [← hr]; rfl
      rw [hstep]
      show d.point.left + (4 * d.request.toList.length +
          2 * (r.1.notices.length + owedNotice r.2)) + 0 ≤
        d.point.left + (4 * d.request.toList.length +
          2 * (d.shared.notices.length + owedNotice d.hotReload)) + _
      omega
  | request req =>
      obtain ⟨pending, rfl | rfl, hstep⟩ := step_pending b d req
      · rw [hstep]
        show d.point.left + (4 * 1 + 2 * (d.shared.notices.length + owedNotice d.hotReload)) + 0 ≤
          d.point.left + (4 * d.request.toList.length +
            2 * (d.shared.notices.length + owedNotice d.hotReload)) + 4
        omega
      · rw [hstep]
        exact Nat.le_add_right _ _
  | kernelEvent ev => exact le_rfl
  | kernel k => exact le_rfl

theorem step_stopped (b : Boot κ) {d : DaemonState κ} (h : d.point = .stopped) (m : Move κ) :
    (b.step d m).point = .stopped := by
  cases m with
  | main a =>
      show (b.mainStep a d).point = .stopped
      unfold Boot.mainStep
      rw [h]
      exact h
  | request req =>
      obtain ⟨pending, -, hstep⟩ := step_pending b d req
      rw [hstep]
      exact h
  | hotReload | kernelEvent | kernel => exact h

/-- From any state, and in whatever order the threads move: with enough steps of the main
loop, four more for each request and two more for each change of the file, it comes to the
head of an iteration; and if the signal to stop has been given, it has ended. -/
theorem loop_comes_round (b : Boot κ) (d : DaemonState κ) (moves : List (Move κ))
    (h : 12 + pendingCost d.request d.shared d.hotReload + total addedSteps moves <
      total mainSteps moves) :
    AtSome b.step BetweenIterations d moves ∧
      ((∀ a, Move.main a ∈ moves → a.shutdown = true) → (run b.step d moves).point = .stopped) := by
  have hround : AtSome b.step BetweenIterations d moves := by
    apply atSome_done b.step (step_left b)
    have hpoint := left_point_le d.point
    unfold DaemonState.left
    omega
  refine ⟨hround, fun hsignal => ?_⟩
  obtain ⟨before, m, after, rfl, ⟨a, rfl⟩, hrounds⟩ := hround
  have hshutdown : a.shutdown = true := hsignal a (by simp)
  have hstopped : (b.step (run b.step d before) (.main a)).point = .stopped := by
    rcases hrounds with htop | hstopped
    · show (b.mainStep a (run b.step d before)).point = .stopped
      unfold Boot.mainStep
      rw [htop]
      dsimp only
      rw [if_pos hshutdown]
    · exact step_stopped b hstopped (.main a)
  show (run b.step d (before ++ .main a :: after)).point = .stopped
  rw [run_append]
  exact run_invariant b.step (Q := fun d => d.point = .stopped)
    (fun _ m hs => step_stopped b hs m) hstopped after

/-- A reload is asked for while the daemon is told to stop. -/
def reloadThenStop : List (Move Nat) :=
  .request .reload :: List.replicate 17 (.main { shutdown := true })

theorem loop_comes_round_on_stop :
    AtSome quietBoot.step BetweenIterations (quietBoot.start 0) reloadThenStop ∧
      ((∀ a, Move.main a ∈ reloadThenStop → a.shutdown = true) →
        (run quietBoot.step (quietBoot.start 0) reloadThenStop).point = .stopped) := by
  have henough : 12 + pendingCost (quietBoot.start 0).request (quietBoot.start 0).shared
      (quietBoot.start 0).hotReload + total addedSteps reloadThenStop <
        total mainSteps reloadThenStop := by
    have hcost : pendingCost (quietBoot.start 0).request (quietBoot.start 0).shared
        (quietBoot.start 0).hotReload = 0 := rfl
    rw [hcost]
    decide
  exact loop_comes_round quietBoot (quietBoot.start 0) reloadThenStop henough

end Threadctl.Daemon

import Threadctl.Core.WindowContract
import Threadctl.Support.LastWrite

/-!
# Observation in the main loop

The loop samples the threads when at least five seconds have passed since it did so last;
the sampler was told that it is called every two.
-/

namespace Threadctl.Daemon

open Threadctl.Core Threadctl.Support Threadctl.Support.Runs Threadctl.Support.StateRun
open Threadctl.Support.LastWrite

variable {κ : Type}

/-! ## The loop -/

/-- The locals of the loop that observe, and every call of the sampler with its time. -/
structure Observation where
  sampler : Sampler
  window : SnapshotWindow
  lastObserve : Int
  calls : List (Int × List ThreadSnapshot)

def observeSecs : Int := 5

def Observation.start (now : Int) : Observation := ⟨.new 2, .new, now, []⟩

def countOrder (env : Env κ) (kernel : κ) : HashOrder :=
  ⟨env.order kernel, env.order_perm kernel⟩

def Observation.iterate (env : ObserveEnv κ) (now : Int) (o : Observation) : Run κ Observation := do
  if observeSecs ≤ now - o.lastObserve then do
    let r ← o.sampler.sample env
    let s ← get
    let batch := r.2.map fun snap => (countOrder env.toEnv s.kernel, snap)
    pure ⟨r.1, o.window.pushBatch batch, now, o.calls ++ [(now, r.2)]⟩
  else pure o

/-- An iteration at a time, in whatever system it finds. -/
def Observation.step (env : ObserveEnv κ) (o : Observation) (m : Int × System κ) : Observation :=
  ((o.iterate env m.1).run m.2).1

/-! ## One call of the sampler -/

def lastTicks (tid : Int) (snaps : List ThreadSnapshot) : Option Nat :=
  lastWrite (fun snap => if snap.tid = tid then some snap.cpuTicks else none) snaps

/-- A call under way: the sampler remembers the last snapshot of each thread, and the first
one of a thread is measured against what it remembered before the call. -/
structure Sampled (s : Sampler) (acc : Sampler × List ThreadSnapshot) : Prop where
  interval : acc.1.intervalSecs = s.intervalSecs ∧ acc.1.hz = s.hz
  last : ∀ tid, acc.1.lastCpu.lookup tid = (lastTicks tid acc.2).or (s.lastCpu.lookup tid)
  first : ∀ before y after, acc.2 = before ++ y :: after → (∀ z ∈ before, z.tid ≠ y.tid) →
    y.loadPct = s.loadPct y.tid y.cpuTicks

theorem lastTicks_of_forall {tid : Int} {snaps : List ThreadSnapshot}
    (h : ∀ z ∈ snaps, z.tid ≠ tid) : lastTicks tid snaps = none :=
  lastWrite_eq_none_iff.mpr fun z hz => if_neg (h z hz)

theorem sampled_push {s : Sampler} {acc : Sampler × List ThreadSnapshot} (h : Sampled s acc)
    (snap : ThreadSnapshot) (hload : snap.loadPct = acc.1.loadPct snap.tid snap.cpuTicks) :
    Sampled s ({ acc.1 with lastCpu := acc.1.lastCpu.insert snap.tid snap.cpuTicks },
      acc.2 ++ [snap]) where
  interval := h.interval
  last tid := by
    rw [lastTicks, lastWrite_append, lastWrite_singleton]
    by_cases htid : snap.tid = tid
    · subst htid
      rw [AList.lookup_insert, if_pos rfl]
      rfl
    · rw [AList.lookup_insert_ne (Ne.symm htid), if_neg htid, Option.none_or]
      exact h.last tid
  first before y after hsplit hfirst := by
    rcases List.eq_nil_or_concat after with rfl | ⟨after, z, rfl⟩
    · obtain ⟨hbefore, hy⟩ := List.append_inj' hsplit rfl
      obtain rfl : snap = y := List.singleton_inj.mp hy
      subst hbefore
      have hlookup : acc.1.lastCpu.lookup snap.tid = s.lastCpu.lookup snap.tid := by
        rw [h.last, lastTicks_of_forall hfirst, Option.none_or]
      rw [hload, Sampler.loadPct, Sampler.loadPct, hlookup, h.interval.1, h.interval.2]
    · rw [List.concat_eq_append, ← List.cons_append, ← List.append_assoc] at hsplit
      exact h.first before y after (List.append_inj' hsplit rfl).1 hfirst

section Sampling

variable {env : ObserveEnv κ} {s : Sampler}

theorem sampled_sampleTid {acc : Sampler × List ThreadSnapshot} (h : Sampled s acc)
    (affinity : String) (tid : Int) :
    Triple (fun _ => True) (Sampler.sampleTid env affinity acc tid) fun r _ => Sampled s r := by
  refine Triple.bind_any fun name => ?_
  refine Triple.bind_any fun cpu => ?_
  refine Triple.bind_any fun ticks => ?_
  exact Triple.pure fun _ _ => sampled_push h ⟨tid, _, _, _, _, _⟩ rfl

theorem sampled_foldlM {f : Sampler × List ThreadSnapshot → Int →
      Run κ (Sampler × List ThreadSnapshot)}
    (hf : ∀ acc, Sampled s acc → ∀ i, Triple (fun _ => True) (f acc i) fun r _ => Sampled s r)
    (is : List Int) {acc : Sampler × List ThreadSnapshot} (h : Sampled s acc) :
    Triple (fun _ => True) (is.foldlM f acc) fun r _ => Sampled s r := by
  have hloop := Triple.foldlM (I := fun _ r _ => Sampled s r) (f := f) is acc ?_
  · exact hloop.mono (fun _ _ => h) fun _ _ hr => hr
  · intro i rest r
    exact Triple.fix fun t ht => (hf r ht i).mono (fun _ _ => trivial) fun _ _ hr => hr

theorem sampled_samplePid {acc : Sampler × List ThreadSnapshot} (h : Sampled s acc) (pid : Int) :
    Triple (fun _ => True) (Sampler.samplePid env acc pid) fun r _ => Sampled s r := by
  refine Triple.bind_any fun t => ?_
  cases t.tracker.procs.lookup pid with
  | none => exact Triple.pure fun _ _ => h
  | some st =>
      refine Triple.bind_any fun allowed => ?_
      refine Triple.bind_any fun tids => ?_
      exact sampled_foldlM (fun acc hacc tid => sampled_sampleTid hacc _ tid) tids h

theorem sampled_sample :
    Triple (fun _ => True) (s.sample env) fun r _ => Sampled s r := by
  refine Triple.bind_any fun pids => ?_
  have hstart : Sampled s (s, []) := ⟨⟨rfl, rfl⟩, fun _ => rfl, by simp⟩
  exact sampled_foldlM (fun acc hacc pid => sampled_samplePid hacc pid) pids hstart

end Sampling

/-! ## Consecutive calls -/

/-- `late` was made at least five seconds after `early`, and the first snapshot it has of a
thread shows the load since the last one of `early`, as if two seconds had passed. -/
def Follows (early late : Int × List ThreadSnapshot) : Prop :=
  observeSecs ≤ late.1 - early.1 ∧
  ∀ before y after, late.2 = before ++ y :: after → (∀ z ∈ before, z.tid ≠ y.tid) →
    ∀ ticks, lastTicks y.tid early.2 = some ticks → ticks ≤ y.cpuTicks →
      y.loadPct = min ((y.cpuTicks - ticks) * 100 / 200) 100

/-- What holds between two iterations. -/
structure Observing (o : Observation) : Prop where
  interval : o.sampler.intervalSecs = 2 ∧ o.sampler.hz = 100
  latest : ∀ c, o.calls.getLast? = some c → c.1 = o.lastObserve ∧
    ∀ tid ticks, lastTicks tid c.2 = some ticks → o.sampler.lastCpu.lookup tid = some ticks
  follows : ∀ before early late after, o.calls = before ++ early :: late :: after →
    Follows early late

theorem observing_start (now : Int) : Observing (.start now) where
  interval := ⟨rfl, rfl⟩
  latest := by simp [Observation.start]
  follows := by simp [Observation.start]

theorem observing_call {o : Observation} (h : Observing o) {now : Int}
    (hnow : observeSecs ≤ now - o.lastObserve) {r : Sampler × List ThreadSnapshot}
    (hr : Sampled o.sampler r) (window : SnapshotWindow) :
    Observing ⟨r.1, window, now, o.calls ++ [(now, r.2)]⟩ where
  interval := ⟨hr.interval.1.trans h.interval.1, hr.interval.2.trans h.interval.2⟩
  latest c hc := by
    rw [List.getLast?_concat, Option.some.injEq] at hc
    subst hc
    refine ⟨rfl, fun tid ticks hticks => ?_⟩
    rw [hr.last, hticks]
    rfl
  follows before early late after hsplit := by
    rcases List.eq_nil_or_concat after with rfl | ⟨after, c, rfl⟩
    · have hcalls : o.calls ++ [(now, r.2)] = (before ++ [early]) ++ [late] :=
        hsplit.trans (List.append_assoc before [early] [late]).symm
      obtain ⟨hbefore, hlate⟩ := List.append_inj' hcalls rfl
      obtain rfl : (now, r.2) = late := List.singleton_inj.mp hlate
      obtain ⟨htime, hticks⟩ := h.latest early (by rw [hbefore, List.getLast?_concat])
      refine ⟨by rw [htime]; exact hnow, ?_⟩
      intro front y rest hy hfirst ticks hlast hle
      have hload := hr.first front y rest hy hfirst
      rw [hload, Sampler.loadPct, hticks y.tid ticks hlast, h.interval.1, h.interval.2]
      simp only [hle, if_true]
      rfl
    · rw [List.concat_eq_append, ← List.cons_append, ← List.cons_append, ← List.append_assoc]
        at hsplit
      exact h.follows before early late after (List.append_inj' hsplit rfl).1

theorem observing_step (env : ObserveEnv κ) (o : Observation) (m : Int × System κ)
    (h : Observing o) : Observing (o.step env m) := by
  have hiterate : Triple (fun _ => True) (o.iterate env m.1) fun o' _ => Observing o' := by
    refine Triple.ite_of (fun hnow => ?_) fun _ => Triple.pure fun _ _ => h
    refine Triple.bind sampled_sample fun r => ?_
    refine Triple.peek fun t hr => Triple.pure fun _ _ => ?_
    exact observing_call h hnow hr _
  exact hiterate m.2 trivial

theorem observing_run (env : ObserveEnv κ) (now : Int) (moves : List (Int × System κ)) :
    Observing (run (Observation.step env) (.start now) moves) :=
  run_invariant _ (observing_step env) (observing_start now) moves

/-- The load of a thread that used `u` ticks of a hundredth of a second in `g` seconds. -/
def trueLoad (u g : Nat) : Nat := min 100 (100 * u / (100 * g))

/-- Half the ticks are the true load of five or more seconds only at the ends of the scale. -/
theorem halved_eq_trueLoad_iff {u g : Nat} (hg : 5 ≤ g) :
    min (u * 100 / 200) 100 = trueLoad u g ↔ u ≤ 1 ∨ 100 * g ≤ u := by
  have hhalf : u * 100 / 200 = u / 2 := by omega
  have hshare : 100 * u / (100 * g) = u / g := Nat.mul_div_mul_left u g (by decide)
  have hle : u / g ≤ u / 5 := Nat.div_le_div_left hg (by decide)
  rw [trueLoad, hhalf, hshare]
  constructor
  · intro heq
    by_contra hother
    push Not at hother
    have hlt : u / g < 100 := Nat.div_lt_of_lt_mul (by rw [Nat.mul_comm]; exact hother.2)
    omega
  · rintro (hfew | hfull)
    · have hnone : u / g = 0 := Nat.le_zero.mp (hle.trans (by omega))
      rw [hnone]
      omega
    · have hge : 100 ≤ u / g := (Nat.le_div_iff_mul_le (by omega)).mpr hfull
      omega

theorem trueLoad_lt_of_share {u g : Nat} (hg : 0 < g) (h : 100 * u ≤ 40 * (100 * g)) :
    trueLoad u g < 100 := by
  have hshare : 100 * u / (100 * g) ≤ 40 := by
    rw [Nat.div_le_iff_le_mul_add_pred (by omega)]
    omega
  rw [trueLoad]
  omega

/-- Of two calls in a row the second reports the true load of a thread, and never a full one
where the thread used two fifths of a CPU, exactly when the thread used at most one tick or
all of its time. -/
theorem load_matches_interval_iff (env : ObserveEnv κ) (now : Int) (moves : List (Int × System κ))
    (before after : List (Int × List ThreadSnapshot)) (early late : Int × List ThreadSnapshot)
    (hcalls : (run (Observation.step env) (.start now) moves).calls =
      before ++ early :: late :: after)
    (front rest : List ThreadSnapshot) (y : ThreadSnapshot) (hy : late.2 = front ++ y :: rest)
    (hfirst : ∀ z ∈ front, z.tid ≠ y.tid) (ticks u g : Nat)
    (hticks : lastTicks y.tid early.2 = some ticks) (hused : y.cpuTicks = ticks + u)
    (hg : late.1 - early.1 = g) :
    5 ≤ g ∧ ((y.loadPct = trueLoad u g ∧ (100 * u ≤ 40 * (100 * g) → y.loadPct ≠ 100)) ↔
      u ≤ 1 ∨ 100 * g ≤ u) := by
  obtain ⟨htime, hload⟩ := (observing_run env now moves).follows before early late after hcalls
  have hfive : 5 ≤ g := by
    rw [hg, observeSecs] at htime
    omega
  have hreported : y.loadPct = min (u * 100 / 200) 100 := by
    rw [hload front y rest hy hfirst ticks hticks (by omega), hused, Nat.add_sub_cancel_left]
  refine ⟨hfive, ?_⟩
  rw [← halved_eq_trueLoad_iff hfive, hreported]
  constructor
  · exact And.left
  · intro heq
    refine ⟨heq, fun hshare => ?_⟩
    rw [heq]
    exact (trueLoad_lt_of_share (by omega) hshare).ne

/-! ## A thread under load -/

/-- A kernel that counts nothing but the CPU time of its threads. -/
def tickEnv : ObserveEnv Nat :=
  { (Env.silent : Env Nat) with
    readProcessor := fun _ => pure none
    readThreadCpuSecs := fun _ => fun ticks => (some ticks, ticks) }

/-- A system with one tracked thread, 7, at the given CPU time. -/
def tickSystem (ticks : Nat) : System Nat :=
  { System.init ticks with
    tracker := ⟨(∅ : HashMap Int ProcessState).insert 7
      { ProcessState.new 7 1 "app" 0 with appliedTids := {7} }, ∅⟩ }

/-- Two calls five seconds apart; the thread uses 200 ticks between them. -/
def twoFifths : List (Int × System Nat) := [(5, tickSystem 1000), (10, tickSystem 1200)]

def twoCalls : List (Int × List ThreadSnapshot) :=
  [(5, [⟨7, "", "", none, 0, 1000⟩]), (10, [⟨7, "", "", none, 100, 1200⟩])]

theorem calls_twoFifths :
    (run (Observation.step tickEnv) (.start 0) twoFifths).calls = twoCalls := by
  decide +kernel

theorem load_matches_interval_at_twoFifths :
    5 ≤ 5 ∧ ((100 = trueLoad 200 5 ∧ (100 * 200 ≤ 40 * (100 * 5) → 100 ≠ 100)) ↔
      200 ≤ 1 ∨ 100 * 5 ≤ 200) :=
  load_matches_interval_iff tickEnv 0 twoFifths [] [] (5, [⟨7, "", "", none, 0, 1000⟩])
    (10, [⟨7, "", "", none, 100, 1200⟩]) calls_twoFifths [] [] ⟨7, "", "", none, 100, 1200⟩ rfl
    nofun 1000 200 5 rfl rfl rfl

/-- A thread that uses two fifths of a CPU is reported as fully loaded. -/
theorem load_doubled_at_twoFifths :
    ¬∀ (env : ObserveEnv Nat) (now : Int) (moves : List (Int × System Nat))
        (before after : List (Int × List ThreadSnapshot)) (early late : Int × List ThreadSnapshot)
        (front rest : List ThreadSnapshot) (y : ThreadSnapshot) (ticks u g : Nat),
      (run (Observation.step env) (.start now) moves).calls = before ++ early :: late :: after →
      late.2 = front ++ y :: rest → (∀ z ∈ front, z.tid ≠ y.tid) →
      lastTicks y.tid early.2 = some ticks → y.cpuTicks = ticks + u → late.1 - early.1 = g →
        y.loadPct = trueLoad u g ∧ (100 * u ≤ 40 * (100 * g) → y.loadPct ≠ 100) := by
  intro h
  have hcase := h tickEnv 0 twoFifths [] [] (5, [⟨7, "", "", none, 0, 1000⟩])
    (10, [⟨7, "", "", none, 100, 1200⟩]) [] [] ⟨7, "", "", none, 100, 1200⟩ 1000 200 5
    calls_twoFifths rfl nofun rfl rfl rfl
  exact absurd hcase.1 (by decide)

end Threadctl.Daemon

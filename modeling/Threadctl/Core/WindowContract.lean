import Threadctl.Core.Observe
import Threadctl.Support.Runs
import Threadctl.Support.Window

/-!
# The window and the history

The window keeps no history, but what it holds of a thread is what the thread's samples
since its last creation give: all of it exactly but the mean, which loses the rest of a
division with every sample.
-/

namespace Threadctl.Core

open Threadctl.Support Threadctl.Support.Runs

inductive WindowMove where
  | push (snapshots : List (HashOrder × ThreadSnapshot))
  | retain (aliveTids : Finset Int)

def SnapshotWindow.step (w : SnapshotWindow) : WindowMove → SnapshotWindow
  | .push snapshots => w.pushBatch snapshots
  | .retain aliveTids => w.retain aliveTids

/-- The number of the last batch, and the samples of `tid` since it was last created, each
with the number of its batch. -/
def historyStep (tid : Int) (h : Nat × List (Nat × ThreadSnapshot)) :
    WindowMove → Nat × List (Nat × ThreadSnapshot)
  | .push snapshots =>
      (h.1 + 1, h.2 ++ (snapshots.filter fun s => s.2.tid = tid).map fun s => (h.1 + 1, s.2))
  | .retain aliveTids => (h.1, if tid ∈ aliveTids then h.2 else [])

def historyOf (tid : Int) (moves : List WindowMove) : List (Nat × ThreadSnapshot) :=
  (run (historyStep tid) (0, []) moves).2

/-! ## What the history gives -/

def migrated (a b : Nat × ThreadSnapshot) : Bool :=
  match a.2.runningCpu, b.2.runningCpu with
  | some before, some cur => decide (cur ≠ before)
  | _, _ => false

def affinityChanged (a b : Nat × ThreadSnapshot) : Bool := decide (a.2.affinity ≠ b.2.affinity)

def samplesOn (h : List (Nat × ThreadSnapshot)) (cpu : Nat) : Nat :=
  h.countP fun s => decide (s.2.runningCpu = some cpu)

def loads (h : List (Nat × ThreadSnapshot)) : List Nat := h.map fun s => s.2.loadPct

def toSample (s : Nat × ThreadSnapshot) : WindowSample := ⟨s.1, s.2.runningCpu, s.2.affinity⟩

/-- The counters and the queue of a thread, as its history gives them. -/
structure Counters (tid : Int) (h : List (Nat × ThreadSnapshot)) (st : ThreadStats)
    (q : List WindowSample) : Prop where
  tid_eq : st.tid = tid
  samples : st.samples = h.length
  avg : st.avgLoadPct = Stats.runningMean (loads h)
  maxLoad : st.maxLoadPct = (loads h).foldl max 0
  migrations : st.migrations = Stats.neighbours migrated h
  affinityChanges : st.affinityChanges = Stats.neighbours affinityChanged h
  distribution : RefCount.Counts st.cpuDistribution (samplesOn h)
  known : Stats.total st.cpuDistribution = h.countP fun s => s.2.runningCpu.isSome
  recent : q = (h.map toSample).rtake SnapshotWindow.windowSamples

theorem counters_new (tid : Int) (name : String) : Counters tid [] (.new tid name) [] where
  tid_eq := rfl
  samples := rfl
  avg := rfl
  maxLoad := rfl
  migrations := rfl
  affinityChanges := rfl
  distribution _ := rfl
  known := rfl
  recent := rfl

/-! ## One sample -/

theorem samplesOn_concat (h : List (Nat × ThreadSnapshot)) (s : Nat × ThreadSnapshot) (cpu : Nat) :
    samplesOn (h ++ [s]) cpu =
      samplesOn h cpu + if s.2.runningCpu = some cpu then 1 else 0 := by
  simp [samplesOn, List.countP_append, List.countP_singleton]

section Compare

variable (st : ThreadStats) (prev : Option WindowSample) (snap : ThreadSnapshot)

@[simp] theorem compare_tid : (st.compare prev snap).tid = st.tid := by
  cases prev <;> rfl

@[simp] theorem compare_name : (st.compare prev snap).name = st.name := by
  cases prev <;> rfl

@[simp] theorem compare_samples : (st.compare prev snap).samples = st.samples := by
  cases prev <;> rfl

@[simp] theorem compare_avgLoadPct : (st.compare prev snap).avgLoadPct = st.avgLoadPct := by
  cases prev <;> rfl

@[simp] theorem compare_maxLoadPct : (st.compare prev snap).maxLoadPct = st.maxLoadPct := by
  cases prev <;> rfl

@[simp] theorem compare_cpuDistribution :
    (st.compare prev snap).cpuDistribution = st.cpuDistribution := by
  cases prev <;> rfl

theorem compare_migrations (last : Option (Nat × ThreadSnapshot)) (seq : Nat) :
    (st.compare (last.map toSample) snap).migrations =
      st.migrations + Stats.stepsFrom migrated last (seq, snap) := by
  cases last with
  | none => rfl
  | some before =>
      show (match snap.runningCpu, before.2.runningCpu with
        | some cur, some prev => if cur ≠ prev then st.migrations + 1 else st.migrations
        | _, _ => st.migrations) =
          st.migrations + if migrated before (seq, snap) = true then 1 else 0
      unfold migrated
      cases hcur : snap.runningCpu <;> cases hprev : before.2.runningCpu <;>
        simp only [Bool.false_eq_true, if_false, Nat.add_zero, decide_eq_true_eq]
      split <;> rfl

theorem compare_affinityChanges (last : Option (Nat × ThreadSnapshot)) (seq : Nat) :
    (st.compare (last.map toSample) snap).affinityChanges =
      st.affinityChanges + Stats.stepsFrom affinityChanged last (seq, snap) := by
  cases last with
  | none => rfl
  | some before =>
      show (if before.2.affinity ≠ snap.affinity then st.affinityChanges + 1
        else st.affinityChanges) =
          st.affinityChanges + if affinityChanged before (seq, snap) = true then 1 else 0
      simp only [affinityChanged, decide_eq_true_eq]
      split <;> rfl

end Compare

theorem counters_push {tid : Int} {h : List (Nat × ThreadSnapshot)} {st : ThreadStats}
    {q : List WindowSample} (hc : Counters tid h st q) (seq : Nat) (snap : ThreadSnapshot) :
    Counters tid (h ++ [(seq, snap)]) ((st.record snap).compare q.getLast? snap)
      ((q ++ [toSample (seq, snap)]).rtake SnapshotWindow.windowSamples) := by
  have hlast : q.getLast? = h.getLast?.map toSample := by
    rw [hc.recent, Window.getLast?_rtake (by decide), List.getLast?_map]
  refine ⟨?_, ?_, ?_, ?_, ?_, ?_, ?_, ?_, ?_⟩
  · rw [compare_tid]
    exact hc.tid_eq
  · rw [compare_samples, List.length_append]
    exact congrArg (· + 1) hc.samples
  · rw [compare_avgLoadPct, loads, List.map_append]
    show (st.avgLoadPct * (st.samples + 1 - 1) + snap.loadPct) / (st.samples + 1) = _
    rw [List.map_singleton, Stats.runningMean_concat, Stats.meanStep, hc.avg, hc.samples,
      Nat.add_sub_cancel, List.length_map]
    rfl
  · rw [compare_maxLoadPct, loads, List.map_append, List.foldl_append]
    show (if st.maxLoadPct < snap.loadPct then snap.loadPct else st.maxLoadPct) =
      max ((loads h).foldl max 0) snap.loadPct
    rw [hc.maxLoad]
    split <;> omega
  · rw [hlast, compare_migrations _ _ _ seq, Stats.neighbours_concat, ← hc.migrations]
    rfl
  · rw [hlast, compare_affinityChanges _ _ _ seq, Stats.neighbours_concat, ← hc.affinityChanges]
    rfl
  · rw [compare_cpuDistribution]
    unfold ThreadStats.record
    cases hcpu : snap.runningCpu with
    | none =>
        refine hc.distribution.congr fun cpu => ?_
        rw [samplesOn_concat, hcpu, if_neg (by simp), Nat.add_zero]
    | some cpu =>
        refine (hc.distribution.retain cpu).congr fun other => ?_
        rw [samplesOn_concat, hcpu]
        by_cases heq : other = cpu
        · rw [if_pos heq, heq, if_pos rfl]
        · rw [if_neg heq, if_neg fun h => heq (Option.some.inj h).symm, Nat.add_zero]
  · rw [compare_cpuDistribution, List.countP_append, List.countP_singleton, ← hc.known]
    unfold ThreadStats.record
    cases hcpu : snap.runningCpu with
    | none => rfl
    | some cpu => exact Stats.total_retain _ cpu
  · rw [hc.recent, Window.rtake_rtake_concat (by decide), List.map_append]
    rfl

/-- A CPU of maximal count, or none where no CPU is known. -/
def IsPrimary (count : Nat → Nat) : Option Nat → Prop
  | none => ∀ cpu, count cpu = 0
  | some cpu => 0 < count cpu ∧ ∀ other, count other ≤ count cpu

theorem isPrimary_compute {st : ThreadStats} {count : Nat → Nat}
    (h : RefCount.Counts st.cpuDistribution count) (o : HashOrder) :
    IsPrimary count (st.computePrimary o).primaryCpu := by
  have hmem : ∀ cpu n, (cpu, n) ∈ o.order (st.cpuDistribution.entries.map fun e => (e.1, e.2)) ↔
      0 < count cpu ∧ n = count cpu := by
    intro cpu n
    have hlookup : (cpu, n) ∈ st.cpuDistribution.entries.map (fun e => (e.1, e.2)) ↔
        st.cpuDistribution.lookup cpu = some n := by
      rw [← Option.mem_def, AList.mem_lookup_iff, List.mem_map]
      constructor
      · rintro ⟨e, he, heq⟩
        obtain ⟨rfl, rfl⟩ := Prod.mk.inj heq
        exact he
      · exact fun he => ⟨⟨cpu, n⟩, he, rfl⟩
    rw [(o.perm _).mem_iff, hlookup, h cpu]
    split
    · simp_all
    · rw [Option.some.injEq, eq_comm, iff_and_self]
      intro _
      omega
  show IsPrimary count ((Stats.maxByKey Prod.snd
    (o.order (st.cpuDistribution.entries.map fun e => (e.1, e.2)))).map Prod.fst)
  cases hmax : Stats.maxByKey Prod.snd
      (o.order (st.cpuDistribution.entries.map fun e => (e.1, e.2))) with
  | none =>
      intro cpu
      by_contra hpos
      have hcpu := (hmem cpu (count cpu)).mpr ⟨Nat.pos_of_ne_zero hpos, rfl⟩
      rw [Stats.maxByKey_eq_none_iff.mp hmax] at hcpu
      exact absurd hcpu nofun
  | some best =>
      obtain ⟨hbest, hle⟩ := Stats.maxByKey_spec hmax
      obtain ⟨hpos, hcount⟩ := (hmem best.1 best.2).mp hbest
      refine ⟨hpos, fun other => ?_⟩
      rcases Nat.eq_zero_or_pos (count other) with hzero | hother
      · rw [hzero]
        exact Nat.zero_le _
      · rw [← hcount]
        exact hle (other, count other) ((hmem other _).mpr ⟨hother, rfl⟩)

/-! ## The whole window -/

/-- The statistics and the queue of a thread with a history. -/
structure Recomputed (tid : Int) (h : List (Nat × ThreadSnapshot)) (st : ThreadStats)
    (q : List WindowSample) : Prop extends Counters tid h st q where
  name : h.getLast?.map (fun s => s.2.name) = some st.name
  primary : IsPrimary (samplesOn h) st.primaryCpu

def WindowHolds (tid : Int) (w : SnapshotWindow) (h : List (Nat × ThreadSnapshot)) : Prop :=
  (h = [] ∧ w.stats.lookup tid = none ∧ w.recent.lookup tid = none) ∨
  (h ≠ [] ∧ ∃ st q, w.stats.lookup tid = some st ∧ w.recent.lookup tid = some q ∧
    Recomputed tid h st q)

theorem holds_pushSnapshot {tid : Int} {w : SnapshotWindow} {h : List (Nat × ThreadSnapshot)}
    (hw : WindowHolds tid w h) (seq : Nat) (s : HashOrder × ThreadSnapshot) :
    WindowHolds tid (w.pushSnapshot seq s) (h ++ if s.2.tid = tid then [(seq, s.2)] else []) := by
  by_cases htid : s.2.tid = tid
  · subst htid
    rw [if_pos rfl]
    have hcounters : Counters s.2.tid h ((w.stats.lookup s.2.tid).getD (.new s.2.tid s.2.name))
        ((w.recent.lookup s.2.tid).getD []) := by
      rcases hw with ⟨rfl, hstats, hrecent⟩ | ⟨-, st, q, hstats, hrecent, hre⟩
      · rw [hstats, hrecent]
        exact counters_new _ _
      · rw [hstats, hrecent]
        exact hre.toCounters
    have hpush := counters_push hcounters seq s.2
    refine Or.inr ⟨by simp, _, _, AList.lookup_insert _, AList.lookup_insert _, ?_⟩
    refine { hpush with name := ?_, primary := ?_ }
    · rw [List.getLast?_concat, Option.map_some]
      show some s.2.name = some (ThreadStats.compare _ _ _).name
      rw [compare_name]
      rfl
    · exact isPrimary_compute hpush.distribution s.1
  · rw [if_neg htid, List.append_nil]
    have hstats : (w.pushSnapshot seq s).stats.lookup tid = w.stats.lookup tid :=
      AList.lookup_insert_ne (Ne.symm htid)
    have hrecent : (w.pushSnapshot seq s).recent.lookup tid = w.recent.lookup tid :=
      AList.lookup_insert_ne (Ne.symm htid)
    rw [WindowHolds, hstats, hrecent]
    exact hw

theorem holds_foldl_pushSnapshot {tid : Int} (seq : Nat)
    (snapshots : List (HashOrder × ThreadSnapshot)) {w : SnapshotWindow}
    {h : List (Nat × ThreadSnapshot)} (hw : WindowHolds tid w h) :
    WindowHolds tid (snapshots.foldl (SnapshotWindow.pushSnapshot seq) w)
      (h ++ (snapshots.filter fun s => s.2.tid = tid).map fun s => (seq, s.2)) := by
  induction snapshots generalizing w h with
  | nil =>
      rw [List.filter_nil, List.map_nil, List.append_nil]
      exact hw
  | cons s snapshots ih =>
      have hrest := ih (holds_pushSnapshot hw seq s)
      have hhistory : (h ++ if s.2.tid = tid then [(seq, s.2)] else []) ++
          ((snapshots.filter fun s => s.2.tid = tid).map fun s => (seq, s.2)) =
            h ++ (((s :: snapshots).filter fun s => s.2.tid = tid).map fun s => (seq, s.2)) := by
        by_cases htid : s.2.tid = tid
        · rw [if_pos htid, List.filter_cons_of_pos (by simpa using htid), List.append_assoc]
          rfl
        · rw [if_neg htid, List.filter_cons_of_neg (by simpa using htid), List.append_nil]
      rw [List.foldl_cons, ← hhistory]
      exact hrest

theorem lookup_foldl_erase {ν : Type} (aliveTids : Finset Int) (tid : Int) (tids : List Int)
    (m : HashMap Int ν) :
    (tids.foldl (fun m t => if t ∈ aliveTids then m else m.erase t) m).lookup tid =
      if tid ∈ tids ∧ tid ∉ aliveTids then none else m.lookup tid := by
  induction tids generalizing m with
  | nil => simp
  | cons t tids ih =>
      rw [List.foldl_cons, ih]
      by_cases halive : t ∈ aliveTids
      · rw [if_pos halive]
        by_cases ht : tid = t
        · subst ht
          simp [halive]
        · simp [ht]
      · rw [if_neg halive]
        by_cases ht : tid = t
        · subst ht
          simp [halive]
        · simp [ht]

theorem lookup_retainTids {ν : Type} (aliveTids : Finset Int) (m : HashMap Int ν) (tid : Int) :
    (retainTids aliveTids m).lookup tid = if tid ∈ aliveTids then m.lookup tid else none := by
  rw [retainTids, lookup_foldl_erase]
  by_cases halive : tid ∈ aliveTids
  · simp [halive]
  · by_cases hkey : tid ∈ m.keys
    · simp [halive, hkey]
    · have hnone : m.lookup tid = none := AList.lookup_eq_none.mpr hkey
      simp [halive, hkey, hnone]

theorem holds_retain {tid : Int} {w : SnapshotWindow} {h : List (Nat × ThreadSnapshot)}
    (hw : WindowHolds tid w h) (aliveTids : Finset Int) :
    WindowHolds tid (w.retain aliveTids) (if tid ∈ aliveTids then h else []) := by
  have hstats : (w.retain aliveTids).stats.lookup tid =
      if tid ∈ aliveTids then w.stats.lookup tid else none := lookup_retainTids _ _ _
  have hrecent : (w.retain aliveTids).recent.lookup tid =
      if tid ∈ aliveTids then w.recent.lookup tid else none := lookup_retainTids _ _ _
  rw [WindowHolds, hstats, hrecent]
  by_cases halive : tid ∈ aliveTids
  · rw [if_pos halive, if_pos halive, if_pos halive]
    exact hw
  · rw [if_neg halive, if_neg halive, if_neg halive]
    exact Or.inl ⟨rfl, rfl, rfl⟩

theorem seq_foldl_pushSnapshot (seq : Nat) (snapshots : List (HashOrder × ThreadSnapshot))
    (w : SnapshotWindow) :
    (snapshots.foldl (SnapshotWindow.pushSnapshot seq) w).seq = w.seq := by
  induction snapshots generalizing w with
  | nil => rfl
  | cons s snapshots ih => exact ih (w.pushSnapshot seq s)

theorem holds_pushBatch {tid : Int} {w : SnapshotWindow} {h : List (Nat × ThreadSnapshot)}
    (hw : WindowHolds tid w h) (snapshots : List (HashOrder × ThreadSnapshot)) :
    WindowHolds tid (w.pushBatch snapshots)
      (h ++ (snapshots.filter fun s => s.2.tid = tid).map fun s => (w.seq + 1, s.2)) :=
  holds_foldl_pushSnapshot (w := { w with seq := w.seq + 1 }) (w.seq + 1) snapshots hw

/-- In every run the window holds of a thread what its history gives. -/
theorem holds_run (tid : Int) (moves : List WindowMove) :
    WindowHolds tid (run SnapshotWindow.step .new moves) (historyOf tid moves) := by
  have hboth : (run (historyStep tid) (0, []) moves).1 = (run SnapshotWindow.step .new moves).seq ∧
      WindowHolds tid (run SnapshotWindow.step .new moves) (historyOf tid moves) := by
    induction moves using List.reverseRecOn with
    | nil => exact ⟨rfl, Or.inl ⟨rfl, rfl, rfl⟩⟩
    | append_singleton moves m ih =>
        obtain ⟨hseq, hw⟩ := ih
        rw [historyOf, run_concat, run_concat]
        cases m with
        | push snapshots =>
            refine ⟨?_, ?_⟩
            · show _ + 1 = (SnapshotWindow.pushBatch _ snapshots).seq
              rw [SnapshotWindow.pushBatch, seq_foldl_pushSnapshot, hseq]
            · have hpush := holds_pushBatch hw snapshots
              rw [← hseq] at hpush
              exact hpush
        | retain aliveTids => exact ⟨hseq, holds_retain hw aliveTids⟩
  exact hboth.2

/-! ## What is reported -/

/-- After every run the statistics of a thread are those of its samples since it was last
created, the queue holds the last 150 of them, and either both are there or neither. -/
theorem window_stats_recomputed (moves : List WindowMove) (tid : Int) :
    (historyOf tid moves = [] ∧
      (run SnapshotWindow.step .new moves).stats.lookup tid = none ∧
      (run SnapshotWindow.step .new moves).recent.lookup tid = none) ∨
    (historyOf tid moves ≠ [] ∧ ∃ st q,
      (run SnapshotWindow.step .new moves).stats.lookup tid = some st ∧
      (run SnapshotWindow.step .new moves).recent.lookup tid = some q ∧
      Recomputed tid (historyOf tid moves) st q) := holds_run tid moves

/-- The reported average is less than one away from the mean exactly when the divisions
have dropped less than the number of samples. -/
theorem avg_load_is_mean_iff (moves : List WindowMove) (tid : Int) (st : ThreadStats)
    (hst : (run SnapshotWindow.step .new moves).stats.lookup tid = some st) :
    |(st.avgLoadPct : ℚ) - ((loads (historyOf tid moves)).sum : ℚ) /
        (loads (historyOf tid moves)).length| < 1 ↔
      Stats.lost (loads (historyOf tid moves)) < (loads (historyOf tid moves)).length := by
  rcases holds_run tid moves with ⟨-, hnone, -⟩ | ⟨hne, st', q, hst', -, hre⟩
  · rw [hnone] at hst
    exact absurd hst nofun
  · obtain rfl : st' = st := Option.some.inj (hst'.symm.trans hst)
    rw [hre.avg]
    exact Stats.abs_runningMean_sub_lt_one_iff (by simpa [loads] using hne)

/-- The map is walked in its own order. -/
def HashOrder.same : HashOrder := ⟨id, List.Perm.refl⟩

/-- Batches with one snapshot each, of one thread with the loads given. -/
def pushLoads (tid : Int) (loads : List Nat) : List WindowMove :=
  loads.map fun load => .push [(.same, ⟨tid, "t", "0-7", none, load, 0⟩)]

theorem avg_load_is_mean_at_three :
    |((20 : ℕ) : ℚ) - ((loads (historyOf 1 (pushLoads 1 [10, 20, 30]))).sum : ℚ) /
        (loads (historyOf 1 (pushLoads 1 [10, 20, 30]))).length| < 1 ↔
      Stats.lost (loads (historyOf 1 (pushLoads 1 [10, 20, 30]))) <
        (loads (historyOf 1 (pushLoads 1 [10, 20, 30]))).length :=
  avg_load_is_mean_iff (pushLoads 1 [10, 20, 30]) 1 ⟨1, "t", 0, 0, ∅, 3, 20, 30, none⟩ rfl

/-- Of the loads 0, 1, 2, 2 the average stays at zero. -/
theorem avg_load_does_not_rise :
    ¬∀ (moves : List WindowMove) (tid : Int) (st : ThreadStats),
      (∀ load ∈ loads (historyOf tid moves), load ≤ 100) →
      (run SnapshotWindow.step .new moves).stats.lookup tid = some st →
        |(st.avgLoadPct : ℚ) - ((loads (historyOf tid moves)).sum : ℚ) /
          (loads (historyOf tid moves)).length| < 1 := by
  intro h
  have hloads : loads (historyOf 1 (pushLoads 1 [0, 1, 2, 2])) = [0, 1, 2, 2] := rfl
  have hcase := h (pushLoads 1 [0, 1, 2, 2]) 1 ⟨1, "t", 0, 0, ∅, 4, 0, 2, none⟩
    (by rw [hloads]; decide) rfl
  rw [hloads] at hcase
  norm_num [abs_lt] at hcase

end Threadctl.Core

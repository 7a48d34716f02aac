import Threadctl.Support.Tumbling
import Mathlib.Data.List.AList

/-!
# Debouncing in the kernel

Forks and execs are reported at most twice within a tenth of a second of the first.
The map that keeps the windows may evict any entry at any time.
-/

namespace Threadctl.Ebpf

open Threadctl.Support Threadctl.Support.Runs

/-! ## The map and its function -/

structure DedupEntry where
  lastNs : UInt64
  count : UInt32

def dedupWindowNs : UInt64 := 100000000

def dedupMaxCount : UInt32 := 2

/-- `DEDUP_MAP`: one window for each pid. -/
abbrev DedupMap := AList fun _ : UInt32 => DedupEntry

/-- The answer says whether the event is held back. -/
def shouldDedup (map : DedupMap) (pid : UInt32) (nowNs : UInt64) : Bool × DedupMap :=
  let (lastNs, count) := match map.lookup pid with
    | some e => (e.lastNs, e.count)
    | none => (0, 0)
  if nowNs - lastNs < dedupWindowNs then
    let newCount := count + 1
    if dedupMaxCount < newCount then (true, map)
    else (false, map.insert pid ⟨lastNs, newCount⟩)
  else (false, map.insert pid ⟨nowNs, 1⟩)

/-! ## Runs -/

inductive DedupMove where
  | event (pid : UInt32) (nowNs : UInt64)
  | evict (pid : UInt32)
  deriving DecidableEq

/-- The map, and the events that it let pass. -/
structure DedupState where
  map : DedupMap
  passed : List (UInt32 × UInt64)

def DedupState.init : DedupState := ⟨∅, []⟩

def DedupState.step (s : DedupState) : DedupMove → DedupState
  | .event pid nowNs =>
      let (suppressed, map) := shouldDedup s.map pid nowNs
      ⟨map, if suppressed then s.passed else s.passed ++ [(pid, nowNs)]⟩
  | .evict pid => { s with map := s.map.erase pid }

def passedTimes (pid : UInt32) (passed : List (UInt32 × UInt64)) : List Nat :=
  passed.filterMap fun ev => if ev.1 = pid then some ev.2.toNat else none

def eventTimes (pid : UInt32) (moves : List DedupMove) : List Nat :=
  moves.filterMap fun
    | .event p nowNs => if p = pid then some nowNs.toNat else none
    | .evict _ => none

/-! ## One pid's window -/

def entryOf (e : DedupEntry) : Tumbling.Entry := ⟨e.lastNs.toNat, e.count.toNat⟩

/-- While the clock has not run backwards, the function decides as the limiter does. -/
theorem shouldDedup_cases {map : DedupMap} {pid : UInt32} {nowNs : UInt64}
    (hentry : ∀ e, map.lookup pid = some e → e.lastNs ≤ nowNs ∧ e.count.toNat ≤ 2)
    (hlate : dedupWindowNs ≤ nowNs) :
    (Tumbling.accept dedupWindowNs.toNat 2 ((map.lookup pid).map entryOf) nowNs.toNat = none ∧
      shouldDedup map pid nowNs = (true, map)) ∨
    ∃ e, Tumbling.accept dedupWindowNs.toNat 2 ((map.lookup pid).map entryOf) nowNs.toNat =
        some (entryOf e) ∧
      shouldDedup map pid nowNs = (false, map.insert pid e) := by
  cases hlookup : map.lookup pid with
  | none =>
      have hover : ¬ nowNs - 0 < dedupWindowNs := by simpa using hlate
      refine Or.inr ⟨⟨nowNs, 1⟩, rfl, ?_⟩
      simp only [shouldDedup, hlookup, if_neg hover]
  | some e =>
      obtain ⟨hle, hcount⟩ := hentry e hlookup
      have hsub : (nowNs - e.lastNs).toNat = nowNs.toNat - e.lastNs.toNat :=
        UInt64.toNat_sub_of_le _ _ hle
      have hadd : (e.count + 1).toNat = e.count.toNat + 1 := by
        rw [UInt32.toNat_add, UInt32.toNat_one]
        omega
      by_cases hover : nowNs - e.lastNs < dedupWindowNs
      · have hwithin : nowNs.toNat - e.lastNs.toNat < dedupWindowNs.toNat := by
          rw [← hsub]
          exact UInt64.lt_iff_toNat_lt.mp hover
        by_cases hfull : dedupMaxCount < e.count + 1
        · have hmost : 2 < e.count.toNat + 1 := by
            rw [← hadd]
            exact UInt32.lt_iff_toNat_lt.mp hfull
          refine Or.inl ⟨?_, ?_⟩
          · simp only [Option.map_some, Tumbling.accept, entryOf]
            rw [if_neg (by omega), if_neg (by omega)]
          · simp only [shouldDedup, hlookup, if_pos hover, if_pos hfull]
        · have hroom : e.count.toNat + 1 ≤ 2 := by
            rw [← hadd]
            exact UInt32.le_iff_toNat_le.mp (UInt32.not_lt.mp hfull)
          refine Or.inr ⟨⟨e.lastNs, e.count + 1⟩, ?_, ?_⟩
          · simp only [Option.map_some, Tumbling.accept, entryOf, hadd]
            rw [if_neg (by omega), if_pos (by omega)]
          · simp only [shouldDedup, hlookup, if_pos hover, if_neg hfull]
      · have hafter : dedupWindowNs.toNat ≤ nowNs.toNat - e.lastNs.toNat := by
          rw [← hsub]
          exact UInt64.le_iff_toNat_le.mp (UInt64.not_lt.mp hover)
        refine Or.inr ⟨⟨nowNs, 1⟩, ?_, ?_⟩
        · simp only [Option.map_some, Tumbling.accept, entryOf]
          rw [if_pos hafter]
          rfl
        · simp only [shouldDedup, hlookup, if_neg hover]

/-- The limiter sees the state as far as it is about `pid`. -/
structure Tracks (pid : UInt32) (s : DedupState) (l : Tumbling.Limiter) : Prop where
  entry : l.entry = (s.map.lookup pid).map entryOf
  passed : l.passed = passedTimes pid s.passed
  bounded : Tumbling.Bounded 2 l

/-- The limiter's move, for a move that concerns `pid`. -/
def moveOf (pid : UInt32) : DedupMove → Option Tumbling.Move
  | .event p nowNs => if p = pid then some (.arrive nowNs.toNat) else none
  | .evict p => if p = pid then some .forget else none

theorem arrivals_moveOf (pid : UInt32) (moves : List DedupMove) :
    Tumbling.arrivals (moves.filterMap (moveOf pid)) = eventTimes pid moves := by
  rw [Tumbling.arrivals, eventTimes, List.filterMap_filterMap]
  congr 1
  funext m
  cases m with
  | event p nowNs => by_cases h : p = pid <;> simp [moveOf, h]
  | evict p => by_cases h : p = pid <;> simp [moveOf, h]

theorem passedTimes_concat (pid p : UInt32) (passed : List (UInt32 × UInt64)) (nowNs : UInt64) :
    passedTimes pid (passed ++ [(p, nowNs)]) =
      passedTimes pid passed ++ if p = pid then [nowNs.toNat] else [] := by
  rw [passedTimes, List.filterMap_append]
  by_cases h : p = pid <;> simp [passedTimes, h]

theorem lookup_shouldDedup_ne {pid p : UInt32} (hp : p ≠ pid) (map : DedupMap) (nowNs : UInt64) :
    (shouldDedup map p nowNs).2.lookup pid = map.lookup pid := by
  unfold shouldDedup
  generalize (match map.lookup p with
    | some e => (e.lastNs, e.count)
    | none => ((0 : UInt64), (0 : UInt32))) = prev
  dsimp only
  by_cases hover : nowNs - prev.1 < dedupWindowNs
  · rw [if_pos hover]
    by_cases hfull : dedupMaxCount < prev.2 + 1
    · rw [if_pos hfull]
    · rw [if_neg hfull]
      exact AList.lookup_insert_ne hp.symm
  · rw [if_neg hover]
    exact AList.lookup_insert_ne hp.symm

theorem step_other {pid : UInt32} {s : DedupState} {m : DedupMove} (hm : moveOf pid m = none) :
    (s.step m).map.lookup pid = s.map.lookup pid ∧
      passedTimes pid (s.step m).passed = passedTimes pid s.passed := by
  cases m with
  | evict p =>
      have hp : p ≠ pid := by
        rintro rfl
        simp [moveOf] at hm
      exact ⟨AList.lookup_erase_ne hp.symm, rfl⟩
  | event p nowNs =>
      have hp : p ≠ pid := by
        rintro rfl
        simp [moveOf] at hm
      refine ⟨lookup_shouldDedup_ne hp s.map nowNs, ?_⟩
      show passedTimes pid
        (if (shouldDedup s.map p nowNs).1 then s.passed else s.passed ++ [(p, nowNs)]) = _
      cases (shouldDedup s.map p nowNs).1 with
      | true => rfl
      | false => rw [if_neg Bool.false_ne_true, passedTimes_concat, if_neg hp, List.append_nil]

theorem tracks_entry {pid : UInt32} {s : DedupState} {l : Tumbling.Limiter} (h : Tracks pid s l)
    {nowNs : UInt64} (hforward : l.clock ≤ nowNs.toNat) :
    ∀ e, s.map.lookup pid = some e → e.lastNs ≤ nowNs ∧ e.count.toNat ≤ 2 := by
  intro e he
  have hl : l.entry = some (entryOf e) := by rw [h.entry, he]; rfl
  exact ⟨UInt64.le_iff_toNat_le.mpr ((h.bounded.start_le _ hl).trans hforward),
    (h.bounded.bounds _ hl).2⟩

theorem tracks_step {pid : UInt32} {s : DedupState} {l : Tumbling.Limiter} {m : DedupMove}
    {m' : Tumbling.Move} (h : Tracks pid s l) (hm : moveOf pid m = some m')
    (hforward : Tumbling.Forward l m')
    (hlate : ∀ nowNs, m = .event pid nowNs → dedupWindowNs ≤ nowNs) :
    Tracks pid (s.step m) (Tumbling.step dedupWindowNs.toNat 2 l m') := by
  have hbounded := Tumbling.bounded_step dedupWindowNs.toNat (by decide) l m' hforward
    h.bounded
  cases m with
  | evict p =>
      obtain ⟨rfl, hmove⟩ := Option.ite_none_right_eq_some.mp hm
      obtain rfl := Option.some.inj hmove
      refine ⟨?_, h.passed, hbounded⟩
      show none = ((s.map.erase p).lookup p).map entryOf
      rw [AList.lookup_erase]
      rfl
  | event p nowNs =>
      obtain ⟨rfl, hmove⟩ := Option.ite_none_right_eq_some.mp hm
      obtain rfl := Option.some.inj hmove
      have hentry := tracks_entry h hforward
      rcases shouldDedup_cases hentry (hlate nowNs rfl) with ⟨haccept, heq⟩ | ⟨e, haccept, heq⟩
      · rw [← h.entry] at haccept
        rw [Tumbling.step_suppressed haccept] at hbounded ⊢
        have hstep : s.step (.event p nowNs) = s := by
          simp only [DedupState.step, heq, if_pos]
        rw [hstep]
        exact ⟨h.entry, h.passed, hbounded⟩
      · rw [← h.entry] at haccept
        rw [Tumbling.step_accepted haccept] at hbounded ⊢
        have hstep : s.step (.event p nowNs) = ⟨s.map.insert p e, s.passed ++ [(p, nowNs)]⟩ := by
          simp only [DedupState.step, heq, Bool.false_eq_true, if_false]
        rw [hstep]
        refine ⟨?_, ?_, hbounded⟩
        · rw [AList.lookup_insert]
          rfl
        · rw [passedTimes_concat, if_pos rfl, h.passed]

/-- Over a whole run the limiter follows the map. -/
theorem tracks_run {pid : UInt32} {s : DedupState} {l : Tumbling.Limiter} {moves : List DedupMove}
    (h : Tracks pid s l)
    (hforward : AtEach (Tumbling.step dedupWindowNs.toNat 2) Tumbling.Forward l
      (moves.filterMap (moveOf pid)))
    (hlate : ∀ nowNs, .event pid nowNs ∈ moves → dedupWindowNs ≤ nowNs) :
    Tracks pid (run DedupState.step s moves)
      (run (Tumbling.step dedupWindowNs.toNat 2) l (moves.filterMap (moveOf pid))) := by
  induction moves generalizing s l with
  | nil => exact h
  | cons m moves ih =>
      have hlate' : ∀ nowNs, .event pid nowNs ∈ moves → dedupWindowNs ≤ nowNs :=
        fun nowNs hmem => hlate nowNs (List.mem_cons_of_mem m hmem)
      cases hm : moveOf pid m with
      | none =>
          obtain ⟨hmap, hpassed⟩ := step_other (s := s) hm
          rw [List.filterMap_cons_none hm] at hforward ⊢
          exact ih ⟨by rw [hmap, h.entry], by rw [hpassed, h.passed], h.bounded⟩ hforward hlate'
      | some m' =>
          rw [List.filterMap_cons_some hm] at hforward ⊢
          obtain ⟨hfirst, hrest⟩ := (atEach_cons_iff _).mp hforward
          refine ih (tracks_step h hm hfirst ?_) hrest hlate'
          rintro nowNs rfl
          exact hlate nowNs List.mem_cons_self

theorem tracks_init (pid : UInt32) : Tracks pid .init Tumbling.Limiter.new where
  entry := rfl
  passed := rfl
  bounded := by constructor <;> simp [Tumbling.Limiter.new]

/-! ## Bursts -/

theorem mem_eventTimes {pid : UInt32} {nowNs : UInt64} {moves : List DedupMove}
    (h : .event pid nowNs ∈ moves) : nowNs.toNat ∈ eventTimes pid moves :=
  List.mem_filterMap.mpr ⟨_, h, if_pos rfl⟩

theorem late_of_mem {pid : UInt32} {moves : List DedupMove}
    (hlate : ∀ t ∈ eventTimes pid moves, dedupWindowNs.toNat ≤ t) {nowNs : UInt64}
    (h : .event pid nowNs ∈ moves) : dedupWindowNs ≤ nowNs :=
  UInt64.le_iff_toNat_le.mpr (hlate _ (mem_eventTimes h))

theorem eventTimes_append (pid : UInt32) (moves moves' : List DedupMove) :
    eventTimes pid (moves ++ moves') = eventTimes pid moves ++ eventTimes pid moves' :=
  List.filterMap_append

theorem tracks_before {pid : UInt32} {before : List DedupMove}
    (hsorted : (eventTimes pid before).Pairwise (· ≤ ·))
    (hlate : ∀ t ∈ eventTimes pid before, dedupWindowNs.toNat ≤ t) :
    ∃ l, Tracks pid (run DedupState.step .init before) l ∧ Tumbling.Counted l ∧
      ∀ c, (∀ t ∈ eventTimes pid before, t ≤ c) → l.clock ≤ c := by
  have hforward : AtEach (Tumbling.step dedupWindowNs.toNat 2) Tumbling.Forward
      Tumbling.Limiter.new (before.filterMap (moveOf pid)) := by
    apply Tumbling.forward_of_sorted
    · rw [arrivals_moveOf]
      exact hsorted
    · intro t _
      exact Nat.zero_le t
  refine ⟨_, tracks_run (tracks_init pid) hforward fun _ h => late_of_mem hlate h,
    (Tumbling.counted_run (by decide) hforward).2, ?_⟩
  intro c hc
  apply Tumbling.clock_run_le (Nat.zero_le c)
  rw [arrivals_moveOf]
  exact hc

section Contract

variable {pid : UInt32}

/-- An event is held back only when two events of its pid passed less than a window before
it. -/
theorem recent_of_held_back {before after : List DedupMove} {nowNs : UInt64}
    (hsorted : (eventTimes pid (before ++ .event pid nowNs :: after)).Pairwise (· ≤ ·))
    (hlate : ∀ t ∈ eventTimes pid (before ++ .event pid nowNs :: after),
      dedupWindowNs.toNat ≤ t)
    (hsuppressed : (shouldDedup (run DedupState.step .init before).map pid nowNs).1 = true) :
    2 ≤ (passedTimes pid (run DedupState.step .init before).passed).countP fun t =>
      decide (t ≤ nowNs.toNat ∧ nowNs.toNat < t + dedupWindowNs.toNat) := by
  rw [eventTimes_append] at hsorted hlate
  obtain ⟨hsorted', -, hbefore⟩ := List.pairwise_append.mp hsorted
  have hnow : nowNs.toNat ∈ eventTimes pid (.event pid nowNs :: after) :=
    mem_eventTimes List.mem_cons_self
  obtain ⟨l, htracks, hcounted, hclock⟩ := tracks_before hsorted' fun t ht =>
    hlate t (List.mem_append_left _ ht)
  have hforward : l.clock ≤ nowNs.toNat := hclock _ fun t ht => hbefore t ht _ hnow
  have hentry : ∀ e, (run DedupState.step .init before).map.lookup pid = some e →
      e.lastNs ≤ nowNs ∧ e.count.toNat ≤ 2 := tracks_entry htracks hforward
  have hlateNow : dedupWindowNs ≤ nowNs :=
    UInt64.le_iff_toNat_le.mpr (hlate _ (List.mem_append_right _ hnow))
  rw [← htracks.passed]
  rcases shouldDedup_cases hentry hlateNow with ⟨haccept, -⟩ | ⟨e, -, heq⟩
  · rw [← htracks.entry] at haccept
    exact Tumbling.recent_of_suppressed htracks.bounded hcounted hforward haccept
  · rw [heq] at hsuppressed
    exact absurd hsuppressed Bool.false_ne_true

/-- While no entry of the pid is evicted at most three of its events pass in any half-open
interval as long as a window. -/
theorem passed_at_most_three {before part after : List DedupMove}
    (hsorted : (eventTimes pid (before ++ part ++ after)).Pairwise (· ≤ ·))
    (hlate : ∀ t ∈ eventTimes pid (before ++ part ++ after), dedupWindowNs.toNat ≤ t)
    (hkept : .evict pid ∉ part) (a : Nat) :
    Tumbling.inWindow dedupWindowNs.toNat (passedTimes pid
      (run DedupState.step ⟨(run DedupState.step .init before).map, []⟩ part).passed) a ≤ 3 := by
  rw [eventTimes_append, eventTimes_append] at hsorted hlate
  obtain ⟨hboth, -, -⟩ := List.pairwise_append.mp hsorted
  obtain ⟨hsorted', hpart, hbefore⟩ := List.pairwise_append.mp hboth
  obtain ⟨l, htracks, -, hclock⟩ := tracks_before hsorted' fun t ht =>
    hlate t (List.mem_append_left _ (List.mem_append_left _ ht))
  have hforward : AtEach (Tumbling.step dedupWindowNs.toNat 2) Tumbling.Forward
      ⟨l.entry, l.clock, []⟩ (part.filterMap (moveOf pid)) := by
    apply Tumbling.forward_of_sorted
    · rw [arrivals_moveOf]
      exact hpart
    · rw [arrivals_moveOf]
      intro t ht
      exact hclock t fun u hu => hbefore u hu t ht
  have hstart : Tumbling.Bounded 2 ⟨l.entry, l.clock, []⟩ :=
    ⟨htracks.bounded.start_le, htracks.bounded.bounds⟩
  have htracks' : Tracks pid ⟨(run DedupState.step .init before).map, []⟩
      ⟨l.entry, l.clock, []⟩ := ⟨htracks.entry, rfl, hstart⟩
  have hrun := tracks_run htracks' hforward fun _ h =>
    late_of_mem (fun t ht => hlate t (List.mem_append_left _ (List.mem_append_right _ ht))) h
  rw [← hrun.passed]
  refine Tumbling.passed_window_le (by decide) (by decide) hstart hforward ?_ a
  rintro m hm rfl
  obtain ⟨move, hmem, hmove⟩ := List.mem_filterMap.mp hm
  cases move with
  | event p nowNs => by_cases hp : p = pid <;> simp [moveOf, hp] at hmove
  | evict p =>
      obtain ⟨rfl, -⟩ := Option.ite_none_right_eq_some.mp hmove
      exact hkept hmem

end Contract

/-- An event is held back only when two events of its pid passed less than a window before
it, and while no entry of the pid is evicted at most three of its events pass in any
half-open interval as long as a window. -/
theorem dedup_drops_only_bursts (pid : UInt32) (moves : List DedupMove)
    (hsorted : (eventTimes pid moves).Pairwise (· ≤ ·))
    (hlate : ∀ t ∈ eventTimes pid moves, dedupWindowNs.toNat ≤ t) :
    (∀ before nowNs after, moves = before ++ .event pid nowNs :: after →
      (shouldDedup (run DedupState.step .init before).map pid nowNs).1 = true →
        2 ≤ (passedTimes pid (run DedupState.step .init before).passed).countP fun t =>
          decide (t ≤ nowNs.toNat ∧ nowNs.toNat < t + dedupWindowNs.toNat)) ∧
    (∀ before part after, moves = before ++ part ++ after → .evict pid ∉ part → ∀ a,
      Tumbling.inWindow dedupWindowNs.toNat (passedTimes pid
        (run DedupState.step ⟨(run DedupState.step .init before).map, []⟩ part).passed) a ≤ 3) := by
  constructor
  · rintro before nowNs after rfl hsuppressed
    exact recent_of_held_back hsorted hlate hsuppressed
  · rintro before part after rfl hkept a
    exact passed_at_most_three hsorted hlate hkept a

/-- Three events within a window, the last one held back, and one in the next window. -/
def burst : List DedupMove :=
  [.event 7 200000000, .event 7 210000000, .event 7 220000000, .event 7 300000000]

theorem dedup_drops_only_bursts_at_burst :
    (shouldDedup (run DedupState.step .init (burst.take 2)).map 7 220000000).1 = true ∧
      2 ≤ (passedTimes 7 (run DedupState.step .init (burst.take 2)).passed).countP fun t =>
        decide (t ≤ 220000000 ∧ 220000000 < t + 100000000) := by
  have hcase := dedup_drops_only_bursts 7 burst (by decide) (by decide)
  have hsuppressed :
      (shouldDedup (run DedupState.step .init (burst.take 2)).map 7 220000000).1 = true := by
    decide
  exact ⟨hsuppressed, hcase.1 (burst.take 2) 220000000 (burst.drop 3) rfl hsuppressed⟩

end Threadctl.Ebpf

import Threadctl.Support.Runs
import Mathlib.Order.Basic
import Mathlib.Tactic.Linarith

/-!
# Tumbling windows

A limiter keeps the start of its current window and the number of arrivals that passed
in it.  The first arrival after the end of a window starts a new one.  The limiter may
forget its window at any time.

* `recent_of_suppressed` — what is held back has enough arrivals right before it;
* `passed_window_le` — a limiter that forgets nothing lets fewer than two windows' worth
  through in any interval as long as a window.
-/

namespace Threadctl.Support.Tumbling

open Threadctl.Support.Runs

structure Entry where
  start : Nat
  count : Nat
  deriving DecidableEq

variable (width most : Nat)

/-- The window after an arrival that passes, or `none` where it is held back. -/
def accept (entry : Option Entry) (now : Nat) : Option Entry :=
  match entry with
  | none => some ⟨now, 1⟩
  | some e =>
      if width ≤ now - e.start then some ⟨now, 1⟩
      else if e.count < most then some ⟨e.start, e.count + 1⟩
      else none

/-- A limiter together with its last arrival and with all that passed. -/
structure Limiter where
  entry : Option Entry
  clock : Nat
  passed : List Nat

def Limiter.new : Limiter := ⟨none, 0, []⟩

inductive Move where
  | arrive (now : Nat)
  | forget

def step (l : Limiter) : Move → Limiter
  | .arrive now =>
      match accept width most l.entry now with
      | some e => ⟨some e, now, l.passed ++ [now]⟩
      | none => { l with clock := now }
  | .forget => { l with entry := none }

def Forward (l : Limiter) : Move → Prop
  | .arrive now => l.clock ≤ now
  | .forget => True

variable {width most}

/-- A limiter without a window starts one; a window is left for a new one when it is over,
and else counts the arrival or holds it back. -/
theorem accept_cases (width most : Nat) (entry : Option Entry) (now : Nat) :
    (entry = none ∧ accept width most entry now = some ⟨now, 1⟩) ∨
    ∃ e, entry = some e ∧
      ((width ≤ now - e.start ∧ accept width most entry now = some ⟨now, 1⟩) ∨
       (now - e.start < width ∧ e.count < most ∧
          accept width most entry now = some ⟨e.start, e.count + 1⟩) ∨
       (now - e.start < width ∧ most ≤ e.count ∧ accept width most entry now = none)) := by
  cases entry with
  | none => exact Or.inl ⟨rfl, rfl⟩
  | some e =>
      refine Or.inr ⟨e, rfl, ?_⟩
      by_cases hover : width ≤ now - e.start
      · exact Or.inl ⟨hover, if_pos hover⟩
      · have haccept : accept width most (some e) now =
            if e.count < most then some ⟨e.start, e.count + 1⟩ else none := if_neg hover
        by_cases hroom : e.count < most
        · exact Or.inr (Or.inl ⟨by omega, hroom, by rw [haccept, if_pos hroom]⟩)
        · exact Or.inr (Or.inr ⟨by omega, by omega, by rw [haccept, if_neg hroom]⟩)

theorem step_accepted {l : Limiter} {now : Nat} {e : Entry}
    (h : accept width most l.entry now = some e) :
    step width most l (.arrive now) = ⟨some e, now, l.passed ++ [now]⟩ := by
  simp only [step, h]

theorem step_suppressed {l : Limiter} {now : Nat} (h : accept width most l.entry now = none) :
    step width most l (.arrive now) = { l with clock := now } := by
  simp only [step, h]

theorem countP_concat (p : Nat → Bool) (l : List Nat) (x : Nat) :
    (l ++ [x]).countP p = l.countP p + if p x then 1 else 0 := by
  rw [List.countP_append, List.countP_singleton]

def arrivals (moves : List Move) : List Nat :=
  moves.filterMap fun
    | .arrive now => some now
    | .forget => none

theorem clock_arrive (l : Limiter) (now : Nat) :
    (step width most l (.arrive now)).clock = now := by
  rw [step]
  split <;> rfl

theorem forward_of_sorted {l : Limiter} {moves : List Move}
    (hsorted : (arrivals moves).Pairwise (· ≤ ·)) (hclock : ∀ t ∈ arrivals moves, l.clock ≤ t) :
    AtEach (step width most) Forward l moves := by
  induction moves generalizing l with
  | nil => exact atEach_nil _ _ _
  | cons m moves ih =>
      cases m with
      | forget => exact atEach_cons _ trivial (ih hsorted hclock)
      | arrive now =>
          obtain ⟨hfirst, hrest⟩ := List.pairwise_cons.mp hsorted
          refine atEach_cons _ (hclock now List.mem_cons_self) (ih hrest ?_)
          rw [clock_arrive]
          exact hfirst

theorem clock_run_le {c : Nat} {l : Limiter} {moves : List Move} (hl : l.clock ≤ c)
    (hmoves : ∀ t ∈ arrivals moves, t ≤ c) : (run (step width most) l moves).clock ≤ c := by
  induction moves generalizing l with
  | nil => exact hl
  | cons m moves ih =>
      cases m with
      | forget => exact ih hl hmoves
      | arrive now =>
          refine ih ?_ fun t ht => hmoves t (List.mem_cons_of_mem now ht)
          rw [clock_arrive]
          exact hmoves now List.mem_cons_self

/-- The window started no later than the last arrival and has counted one to `most`. -/
structure Bounded (most : Nat) (l : Limiter) : Prop where
  start_le : ∀ e, l.entry = some e → e.start ≤ l.clock
  bounds : ∀ e, l.entry = some e → 1 ≤ e.count ∧ e.count ≤ most

theorem bounded_some {e : Entry} {clock : Nat} {passed : List Nat} (hstart : e.start ≤ clock)
    (hbounds : 1 ≤ e.count ∧ e.count ≤ most) : Bounded most ⟨some e, clock, passed⟩ where
  start_le e' he' := by rw [← Option.some.inj he']; exact hstart
  bounds e' he' := by rw [← Option.some.inj he']; exact hbounds

theorem bounded_step (width : Nat) (hmost : 1 ≤ most) (l : Limiter) (m : Move) (hm : Forward l m)
    (h : Bounded most l) : Bounded most (step width most l m) := by
  cases m with
  | forget => exact ⟨nofun, nofun⟩
  | arrive now =>
      have hnow : l.clock ≤ now := hm
      rcases accept_cases width most l.entry now with
        ⟨_, haccept⟩ | ⟨e, he, ⟨_, haccept⟩ | ⟨_, hroom, haccept⟩ | ⟨_, _, haccept⟩⟩
      · rw [step_accepted haccept]
        exact bounded_some le_rfl ⟨le_rfl, hmost⟩
      · rw [step_accepted haccept]
        exact bounded_some le_rfl ⟨le_rfl, hmost⟩
      · rw [step_accepted haccept]
        exact bounded_some ((h.start_le e he).trans hnow) ⟨Nat.le_add_left 1 _, hroom⟩
      · rw [step_suppressed haccept]
        exact ⟨fun e he => (h.start_le e he).trans hnow, h.bounds⟩

/-! ## Enough arrivals before one that is held back -/

/-- The window's count is at most the number of arrivals that passed since its start. -/
structure Counted (l : Limiter) : Prop where
  count_le : ∀ e, l.entry = some e → e.count ≤ l.passed.countP fun t => decide (e.start ≤ t)
  passed_le : ∀ t ∈ l.passed, t ≤ l.clock

theorem counted_accepted {l : Limiter} {now : Nat} {e : Entry} (h : Counted l)
    (hnow : l.clock ≤ now)
    (hcount : e.count ≤ (l.passed ++ [now]).countP fun t => decide (e.start ≤ t)) :
    Counted ⟨some e, now, l.passed ++ [now]⟩ where
  count_le e' he' := by rw [← Option.some.inj he']; exact hcount
  passed_le t ht := by
    rcases List.mem_append.mp ht with ht | ht
    · exact (h.passed_le t ht).trans hnow
    · exact (List.mem_singleton.mp ht).le

theorem counted_step (l : Limiter) (m : Move) (hm : Forward l m) (hl : Bounded most l)
    (h : Counted l) : Counted (step width most l m) := by
  cases m with
  | forget => exact ⟨nofun, h.passed_le⟩
  | arrive now =>
      have hnow : l.clock ≤ now := hm
      have hfresh : Counted ⟨some ⟨now, 1⟩, now, l.passed ++ [now]⟩ := by
        apply counted_accepted h hnow
        rw [countP_concat, if_pos (decide_eq_true le_rfl)]
        exact Nat.le_add_left 1 _
      rcases accept_cases width most l.entry now with
        ⟨_, haccept⟩ | ⟨e, he, ⟨_, haccept⟩ | ⟨_, _, haccept⟩ | ⟨_, _, haccept⟩⟩
      · rw [step_accepted haccept]
        exact hfresh
      · rw [step_accepted haccept]
        exact hfresh
      · have hstart := (hl.start_le e he).trans hnow
        rw [step_accepted haccept]
        apply counted_accepted h hnow
        rw [countP_concat, if_pos (decide_eq_true hstart)]
        exact Nat.succ_le_succ (h.count_le e he)
      · rw [step_suppressed haccept]
        exact ⟨h.count_le, fun t ht => (h.passed_le t ht).trans hnow⟩

/-- Both hold in every state that a limiter without a past gets into. -/
theorem counted_run (hmost : 1 ≤ most) {moves : List Move}
    (hmoves : AtEach (step width most) Forward Limiter.new moves) :
    Bounded most (run (step width most) Limiter.new moves) ∧
      Counted (run (step width most) Limiter.new moves) := by
  have hnew : Bounded most Limiter.new ∧ Counted Limiter.new := by
    refine ⟨⟨?_, ?_⟩, ?_, ?_⟩ <;> simp [Limiter.new]
  refine run_invariant_atEach (Q := fun l => Bounded most l ∧ Counted l) _ ?_ hnew hmoves
  intro l m hm hl
  exact ⟨bounded_step width hmost l m hm hl.1, counted_step l m hm hl.1 hl.2⟩

/-- What is held back comes less than a window after `most` arrivals that passed. -/
theorem recent_of_suppressed {l : Limiter} {now : Nat} (hl : Bounded most l) (h : Counted l)
    (hnow : l.clock ≤ now) (haccept : accept width most l.entry now = none) :
    most ≤ l.passed.countP fun t => decide (t ≤ now ∧ now < t + width) := by
  rcases accept_cases width most l.entry now with
    ⟨_, hother⟩ | ⟨e, he, ⟨_, hother⟩ | ⟨_, _, hother⟩ | ⟨hwithin, hfull, _⟩⟩
  · rw [haccept] at hother; exact absurd hother (by simp)
  · rw [haccept] at hother; exact absurd hother (by simp)
  · rw [haccept] at hother; exact absurd hother (by simp)
  · have hstart := (hl.start_le e he).trans hnow
    calc most ≤ e.count := hfull
      _ ≤ l.passed.countP fun t => decide (e.start ≤ t) := h.count_le e he
      _ ≤ l.passed.countP fun t => decide (t ≤ now ∧ now < t + width) := by
          apply List.countP_mono_left
          intro t ht hafter
          have hle := (h.passed_le t ht).trans hnow
          rw [decide_eq_true_iff] at hafter ⊢
          omega

/-! ## How many pass -/

/-- The number of arrivals in the half-open interval of length `width` from `a` on. -/
def inWindow (width : Nat) (passed : List Nat) (a : Nat) : Nat :=
  passed.countP fun t => decide (a ≤ t ∧ t < a + width)

/-- What is known of the arrivals that passed while nothing was forgotten, next to the
window `e`: none is as late as its end, its count bounds those since its start, and fewer
than `most` passed in the length of a window before it. -/
structure SpacedFrom (width most : Nat) (e : Entry) (clock : Nat) (passed : List Nat) : Prop where
  bounds : 1 ≤ e.count ∧ e.count ≤ most
  start_le : e.start ≤ clock
  before_end : ∀ t ∈ passed, t < e.start + width
  since_le : (passed.countP fun t => decide (e.start ≤ t)) ≤ e.count
  after_lt : (passed.countP fun t => decide (e.start < t)) < e.count
  earlier_lt : (passed.countP fun t => decide (e.start < t + width ∧ t < e.start)) < most

structure Spaced (width most : Nat) (l : Limiter) : Prop where
  fresh : l.entry = none → l.passed = []
  current : ∀ e, l.entry = some e → SpacedFrom width most e l.clock l.passed
  window_le : ∀ a, inWindow width l.passed a ≤ 2 * most - 1

theorem spaced_nil {entry : Option Entry} {clock : Nat} (hmost : 1 ≤ most)
    (h : Bounded most ⟨entry, clock, []⟩) : Spaced width most ⟨entry, clock, []⟩ where
  fresh _ := rfl
  current e he := ⟨h.bounds e he, h.start_le e he, nofun, Nat.zero_le _, (h.bounds e he).1, hmost⟩
  window_le _ := Nat.zero_le _

theorem countP_le_add {p q r : Nat → Bool} {l : List Nat}
    (h : ∀ t ∈ l, p t = true → q t = true ∨ r t = true) : l.countP p ≤ l.countP q + l.countP r := by
  induction l with
  | nil => exact le_rfl
  | cons t l ih =>
      have hrest := ih fun u hu => h u (List.mem_cons_of_mem t hu)
      have hhead := h t List.mem_cons_self
      simp only [List.countP_cons]
      cases hp : p t <;> cases hq : q t <;> cases hr : r t <;> simp_all <;> omega

theorem spaced_opened {e : Entry} {clock now : Nat} {passed : List Nat} (hwidth : 1 ≤ width)
    (h : SpacedFrom width most e clock passed)
    (hwindow : ∀ a, inWindow width passed a ≤ 2 * most - 1)
    (hover : e.start + width ≤ now) :
    Spaced width most ⟨some ⟨now, 1⟩, now, passed ++ [now]⟩ := by
  have hbefore : ∀ t ∈ passed, t < now := fun t ht => (h.before_end t ht).trans_le hover
  have hnone : ∀ p : Nat → Bool, (∀ t ∈ passed, p t = false) → passed.countP p = 0 := by
    intro p hp
    rw [List.countP_eq_zero]
    intro t ht
    rw [hp t ht]
    exact Bool.false_ne_true
  -- less than a window before `now` is after the start of the old window
  have hrecent : ∀ p : Nat → Bool, (∀ t ∈ passed, p t = true → now < t + width) →
      passed.countP p < most := by
    intro p hp
    calc passed.countP p ≤ passed.countP fun t => decide (e.start < t) := by
          apply List.countP_mono_left
          intro t ht hpt
          have hclose := hp t ht hpt
          exact decide_eq_true (by omega)
      _ < e.count := h.after_lt
      _ ≤ most := h.bounds.2
  refine ⟨nofun, ?_, ?_⟩
  · intro e' he'
    cases he'
    have hone : 1 ≤ most := h.bounds.1.trans h.bounds.2
    refine ⟨⟨le_rfl, hone⟩, le_rfl, ?_, ?_, ?_, ?_⟩
    · intro t ht
      rcases List.mem_append.mp ht with ht | ht
      · exact (hbefore t ht).trans_le (Nat.le_add_right now width)
      · rw [List.mem_singleton.mp ht]
        exact Nat.lt_add_of_pos_right hwidth
    · rw [countP_concat, hnone _ fun t ht => decide_eq_false (Nat.not_le.mpr (hbefore t ht))]
      dsimp only
      split <;> omega
    · rw [countP_concat, hnone _ fun t ht => decide_eq_false (Nat.not_lt.mpr (hbefore t ht).le),
        if_neg (by simp)]
      exact Nat.one_pos
    · rw [countP_concat, if_neg (by simp), Nat.add_zero]
      apply hrecent
      intro t _ ht
      exact (of_decide_eq_true ht).1
  · intro a
    have hbound := hwindow a
    unfold inWindow at hbound ⊢
    rw [countP_concat]
    split
    · rename_i hin
      have hlate := (of_decide_eq_true hin).2
      have hfew : (passed.countP fun t => decide (a ≤ t ∧ t < a + width)) < most := by
        apply hrecent
        intro t _ ht
        have hstays := (of_decide_eq_true ht).1
        omega
      omega
    · exact hbound

theorem spaced_counted {e : Entry} {clock now : Nat} {passed : List Nat}
    (h : SpacedFrom width most e clock passed)
    (hwindow : ∀ a, inWindow width passed a ≤ 2 * most - 1) (hnow : clock ≤ now)
    (hwithin : now - e.start < width) (hroom : e.count < most) :
    Spaced width most ⟨some ⟨e.start, e.count + 1⟩, now, passed ++ [now]⟩ := by
  have hstart : e.start ≤ now := h.start_le.trans hnow
  have hsince := h.since_le
  have hafter := h.after_lt
  have hearlier := h.earlier_lt
  refine ⟨nofun, ?_, ?_⟩
  · intro e' he'
    cases he'
    refine ⟨⟨Nat.le_add_left 1 _, hroom⟩, hstart, ?_, ?_, ?_, ?_⟩
    · intro t ht
      rcases List.mem_append.mp ht with ht | ht
      · exact h.before_end t ht
      · rw [List.mem_singleton.mp ht]
        show now < e.start + width
        omega
    · rw [countP_concat]
      dsimp only
      split <;> omega
    · rw [countP_concat]
      dsimp only
      split <;> omega
    · rw [countP_concat, if_neg (by simpa using fun _ => hstart), Nat.add_zero]
      exact hearlier
  · intro a
    have hbound := hwindow a
    unfold inWindow at hbound ⊢
    rw [countP_concat]
    split
    · rename_i hin
      have hlate := (of_decide_eq_true hin).2
      have hsplit : (passed.countP fun t => decide (a ≤ t ∧ t < a + width)) ≤
          (passed.countP fun t => decide (e.start ≤ t)) +
            passed.countP fun t => decide (e.start < t + width ∧ t < e.start) := by
        apply countP_le_add
        intro t _ ht
        have hstays := (of_decide_eq_true ht).1
        simp only [decide_eq_true_iff]
        omega
      omega
    · exact hbound

theorem spaced_first (hwidth : 1 ≤ width) (hmost : 1 ≤ most) (now : Nat) :
    Spaced width most ⟨some ⟨now, 1⟩, now, [now]⟩ := by
  refine ⟨nofun, ?_, ?_⟩
  · intro e he
    cases he
    refine ⟨⟨le_rfl, hmost⟩, le_rfl, ?_, ?_, ?_, ?_⟩
    · intro t ht
      rw [List.mem_singleton.mp ht]
      exact Nat.lt_add_of_pos_right hwidth
    · exact List.countP_le_length
    · simp
    · rw [List.countP_cons_of_neg (by simp)]
      exact hmost
  · intro a
    calc inWindow width [now] a ≤ 1 := List.countP_le_length
      _ ≤ 2 * most - 1 := by omega

theorem spaced_step (hwidth : 1 ≤ width) (hmost : 1 ≤ most) (l : Limiter) (now : Nat)
    (hnow : l.clock ≤ now) (h : Spaced width most l) :
    Spaced width most (step width most l (.arrive now)) := by
  rcases accept_cases width most l.entry now with
    ⟨hnone, haccept⟩ | ⟨e, he, ⟨hover, haccept⟩ | ⟨hwithin, hroom, haccept⟩ | ⟨_, _, haccept⟩⟩
  · rw [step_accepted haccept, h.fresh hnone]
    exact spaced_first hwidth hmost now
  · rw [step_accepted haccept]
    exact spaced_opened hwidth (h.current e he) h.window_le (by omega)
  · rw [step_accepted haccept]
    exact spaced_counted (h.current e he) h.window_le hnow hwithin hroom
  · rw [step_suppressed haccept]
    refine ⟨h.fresh, ?_, h.window_le⟩
    intro e he
    have hcur := h.current e he
    exact { hcur with start_le := hcur.start_le.trans hnow }

/-- While nothing is forgotten, fewer than twice `most` arrivals pass in any interval as
long as a window. -/
theorem passed_window_le (hwidth : 1 ≤ width) (hmost : 1 ≤ most) {entry : Option Entry}
    {clock : Nat} (hentry : Bounded most ⟨entry, clock, []⟩) {moves : List Move}
    (hmoves : AtEach (step width most) Forward ⟨entry, clock, []⟩ moves)
    (hkept : ∀ m ∈ moves, m ≠ .forget) (a : Nat) :
    inWindow width (run (step width most) ⟨entry, clock, []⟩ moves).passed a ≤ 2 * most - 1 := by
  have hall : AtEach (step width most) (fun l m => Forward l m ∧ m ≠ .forget)
      ⟨entry, clock, []⟩ moves := by
    intro before m after hsplit
    refine ⟨hmoves before m after hsplit, hkept m ?_⟩
    rw [hsplit]
    exact List.mem_append_right before List.mem_cons_self
  have hrun : Spaced width most (run (step width most) ⟨entry, clock, []⟩ moves) := by
    refine run_invariant_atEach _ ?_ (spaced_nil hmost hentry) hall
    intro l m hm hl
    cases m with
    | forget => exact absurd rfl hm.2
    | arrive now => exact spaced_step hwidth hmost l now hm.1 hl
  exact hrun.window_le a

end Threadctl.Support.Tumbling

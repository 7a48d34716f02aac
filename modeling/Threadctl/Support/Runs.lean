import Mathlib.Data.List.Induction
import Mathlib.Order.Lattice

/-!
# Runs of a step function

A run applies the moves of a list one after the other.  An invariant may rely on a
condition that holds in every state of the run.
-/

namespace Threadctl.Support.Runs

variable {σ μ : Type*} (step : σ → μ → σ)

def run (s : σ) (moves : List μ) : σ := moves.foldl step s

@[simp] theorem run_nil (s : σ) : run step s [] = s := rfl

theorem run_append (s : σ) (moves moves' : List μ) :
    run step s (moves ++ moves') = run step (run step s moves) moves' :=
  List.foldl_append

theorem run_concat (s : σ) (moves : List μ) (m : μ) :
    run step s (moves ++ [m]) = step (run step s moves) m :=
  run_append step s moves [m]

/-- What every move preserves holds after every run. -/
theorem run_invariant {Q : σ → Prop} (hstep : ∀ s m, Q s → Q (step s m)) {s : σ} (h : Q s)
    (moves : List μ) : Q (run step s moves) := by
  induction moves using List.reverseRecOn with
  | nil => exact h
  | append_singleton moves m ih =>
      rw [run_concat]
      exact hstep _ m ih

/-- What one move of the run brings about and all moves keep holds at its end. -/
theorem run_reaches {Q : σ → Prop} (hkeep : ∀ s m, Q s → Q (step s m)) {moves : List μ} {m : μ}
    (hm : m ∈ moves) (hreach : ∀ s, Q (step s m)) (s : σ) : Q (run step s moves) := by
  obtain ⟨before, after, rfl⟩ := List.append_of_mem hm
  rw [run_append]
  exact run_invariant step hkeep (hreach _) after

/-! ## Moves of a run -/

/-- `Q` holds of every move of the run, in the state before it. -/
def AtEach (Q : σ → μ → Prop) (s : σ) (moves : List μ) : Prop :=
  ∀ before m after, moves = before ++ m :: after → Q (run step s before) m

/-- `Q` holds of some move of the run, in the state before it. -/
def AtSome (Q : σ → μ → Prop) (s : σ) (moves : List μ) : Prop :=
  ∃ before m after, moves = before ++ m :: after ∧ Q (run step s before) m

theorem forall_split_cons_iff {P : List μ → μ → List μ → Prop} {m : μ} {moves : List μ} :
    (∀ before m' after, m :: moves = before ++ m' :: after → P before m' after) ↔
      P [] m moves ∧
        ∀ before m' after, moves = before ++ m' :: after → P (m :: before) m' after := by
  constructor
  · intro h
    refine ⟨h [] m moves rfl, ?_⟩
    rintro before m' after rfl
    exact h (m :: before) m' after rfl
  · intro ⟨h, hrest⟩ before m' after hsplit
    cases before with
    | nil =>
        obtain ⟨rfl, rfl⟩ := List.cons.inj hsplit
        exact h
    | cons m'' before =>
        obtain ⟨rfl, hmoves⟩ := List.cons.inj hsplit
        exact hrest before m' after hmoves

theorem atEach_congr {Q Q' : σ → μ → Prop} (h : ∀ s m, Q s m ↔ Q' s m) (s : σ) (moves : List μ) :
    AtEach step Q s moves ↔ AtEach step Q' s moves := by
  have hQ : Q = Q' := by
    funext s m
    exact propext (h s m)
  rw [hQ]

theorem atEach_nil (Q : σ → μ → Prop) (s : σ) : AtEach step Q s [] := by
  intro before m after hsplit
  simp at hsplit

theorem atEach_cons_iff {Q : σ → μ → Prop} {s : σ} {m : μ} {moves : List μ} :
    AtEach step Q s (m :: moves) ↔ Q s m ∧ AtEach step Q (step s m) moves :=
  forall_split_cons_iff (P := fun before m _ => Q (run step s before) m)

theorem atEach_cons {Q : σ → μ → Prop} {s : σ} {m : μ} {moves : List μ} (h : Q s m)
    (hrest : AtEach step Q (step s m) moves) : AtEach step Q s (m :: moves) :=
  (atEach_cons_iff step).mpr ⟨h, hrest⟩

theorem atEach_left {Q : σ → μ → Prop} {s : σ} {moves moves' : List μ}
    (h : AtEach step Q s (moves ++ moves')) : AtEach step Q s moves := by
  rintro before m after rfl
  exact h before m (after ++ moves') (List.append_assoc ..)

theorem atEach_append {Q : σ → μ → Prop} {s : σ} {moves moves' : List μ}
    (h : AtEach step Q s moves) (h' : AtEach step Q (run step s moves) moves') :
    AtEach step Q s (moves ++ moves') := by
  induction moves generalizing s with
  | nil => exact h'
  | cons m moves ih =>
      obtain ⟨hfirst, hrest⟩ := (atEach_cons_iff step).mp h
      exact atEach_cons step hfirst (ih hrest h')

/-- An invariant whose moves may rely on `P`. -/
theorem run_invariant_atEach {P : σ → μ → Prop} {Q : σ → Prop}
    (hstep : ∀ s m, P s m → Q s → Q (step s m)) {s : σ} (h : Q s) {moves : List μ}
    (hP : AtEach step P s moves) : Q (run step s moves) := by
  induction moves using List.reverseRecOn with
  | nil => exact h
  | append_singleton moves m ih =>
      rw [run_concat]
      exact hstep _ m (hP moves m [] rfl) (ih (atEach_left step hP))

theorem atSome_nil {Q : σ → μ → Prop} {s : σ} : ¬ AtSome step Q s [] := by
  intro ⟨before, m, after, hsplit, _⟩
  simp at hsplit

theorem atSome_concat_iff {Q : σ → μ → Prop} {s : σ} {moves : List μ} {m : μ} :
    AtSome step Q s (moves ++ [m]) ↔ AtSome step Q s moves ∨ Q (run step s moves) m := by
  constructor
  · intro ⟨before, m', after, hsplit, hm'⟩
    rcases List.eq_nil_or_concat after with rfl | ⟨after, m'', rfl⟩
    · obtain ⟨rfl, hm⟩ := List.append_inj' hsplit rfl
      rw [List.cons.injEq] at hm
      exact Or.inr (hm.1 ▸ hm')
    · rw [List.concat_eq_append, ← List.cons_append, ← List.append_assoc] at hsplit
      exact Or.inl ⟨before, m', after, (List.append_inj' hsplit rfl).1, hm'⟩
  · rintro (⟨before, m', after, hsplit, hm'⟩ | hlast)
    · refine ⟨before, m', after ++ [m], ?_, hm'⟩
      rw [hsplit, List.append_assoc, List.cons_append]
    · exact ⟨moves, m, [], rfl, hlast⟩

/-- What got smaller over a run got smaller in one of its moves. -/
theorem atSome_of_run_lt {β : Type*} [LinearOrder β] (f : σ → β) {s : σ} {moves : List μ}
    (h : f (run step s moves) < f s) : AtSome step (fun s m => f (step s m) < f s) s moves := by
  induction moves using List.reverseRecOn with
  | nil => exact absurd h (lt_irrefl _)
  | append_singleton moves m ih =>
      rw [run_concat] at h
      rw [atSome_concat_iff]
      rcases lt_or_ge (f (step (run step s moves) m)) (f (run step s moves)) with hlast | hlast
      · exact Or.inr hlast
      · exact Or.inl (ih (lt_of_le_of_lt hlast h))

/-- What the moves of a run put out, one after the other. -/
def output {β : Type*} (out : σ → μ → List β) (s : σ) : List μ → List β
  | [] => []
  | m :: moves => out s m ++ output out (step s m) moves

theorem output_append {β : Type*} (out : σ → μ → List β) (s : σ) (moves moves' : List μ) :
    output step out s (moves ++ moves') =
      output step out s moves ++ output step out (run step s moves) moves' := by
  induction moves generalizing s with
  | nil => rfl
  | cons m moves ih =>
      calc out s m ++ output step out (step s m) (moves ++ moves')
          = out s m ++ (output step out (step s m) moves ++
              output step out (run step (step s m) moves) moves') := by rw [ih]
        _ = out s m ++ output step out (step s m) moves ++
              output step out (run step s (m :: moves)) moves' := (List.append_assoc ..).symm

theorem output_concat {β : Type*} (out : σ → μ → List β) (s : σ) (moves : List μ) (m : μ) :
    output step out s (moves ++ [m]) = output step out s moves ++ out (run step s moves) m := by
  rw [output_append]
  exact congrArg (output step out s moves ++ ·) (List.append_nil _)

/-- `P` holds in every state of the run. -/
def Throughout (P : σ → Prop) (s : σ) (moves : List μ) : Prop :=
  ∀ before after, moves = before ++ after → P (run step s before)

theorem throughout_concat {P : σ → Prop} {s : σ} {moves : List μ} {m : μ}
    (h : Throughout step P s (moves ++ [m])) :
    Throughout step P s moves ∧ P (step (run step s moves) m) := by
  constructor
  · rintro before after rfl
    exact h before (after ++ [m]) (List.append_assoc _ _ _)
  · rw [← run_concat step s moves m]
    exact h (moves ++ [m]) [] (List.append_nil _).symm

theorem run_invariant_throughout {P Q : σ → Prop}
    (hstep : ∀ s m, P s → P (step s m) → Q s → Q (step s m)) {s : σ} (h : Q s) {moves : List μ}
    (hP : Throughout step P s moves) : Q (run step s moves) := by
  induction moves using List.reverseRecOn with
  | nil => exact h
  | append_singleton moves m ih =>
      obtain ⟨hbefore, hafter⟩ := throughout_concat step hP
      rw [run_concat]
      exact hstep _ m (hbefore moves [] (List.append_nil _).symm) hafter (ih hbefore)

end Threadctl.Support.Runs

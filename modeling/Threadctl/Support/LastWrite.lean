import Mathlib.Data.List.Basic

/-!
# The last write

A list of elements is read in turn, and each may write a field.  What the field holds in the
end is what the last of them wrote.
-/

namespace Threadctl.Support.LastWrite

variable {α β γ σ ε : Type}

/-- What the last element that writes leaves behind. -/
def lastWrite (f : α → Option β) (l : List α) : Option β := (l.filterMap f).getLast?

theorem lastWrite_append (f : α → Option β) (l l' : List α) :
    lastWrite f (l ++ l') = (lastWrite f l').or (lastWrite f l) := by
  rw [lastWrite, List.filterMap_append, List.getLast?_append]
  rfl

theorem lastWrite_singleton (f : α → Option β) (a : α) : lastWrite f [a] = f a := by
  rw [lastWrite, List.filterMap_cons]
  cases f a <;> rfl

theorem lastWrite_cons (f : α → Option β) (a : α) (l : List α) :
    lastWrite f (a :: l) = (lastWrite f l).or (f a) := by
  rw [← List.singleton_append, lastWrite_append, lastWrite_singleton]

theorem lastWrite_eq_none_iff {f : α → Option β} {l : List α} :
    lastWrite f l = none ↔ ∀ a ∈ l, f a = none := by
  rw [lastWrite, List.getLast?_eq_none_iff, List.filterMap_eq_nil_iff]

theorem exists_of_lastWrite {f : α → Option β} {l : List α} {b : β}
    (h : lastWrite f l = some b) : ∃ a ∈ l, f a = some b :=
  List.mem_filterMap.mp (List.mem_of_getLast? h)

theorem lastWrite_of_agree {f : α → Option β} {l : List α} {b : β} (hwrite : ∃ a ∈ l, f a = some b)
    (hagree : ∀ a ∈ l, ∀ b', f a = some b' → b' = b) : lastWrite f l = some b := by
  cases hlast : lastWrite f l with
  | none =>
      obtain ⟨a, ha, hb⟩ := hwrite
      rw [lastWrite_eq_none_iff.mp hlast a ha] at hb
      cases hb
  | some b' =>
      obtain ⟨a, ha, hb'⟩ := exists_of_lastWrite hlast
      rw [hagree a ha b' hb']

theorem lastWrite_map (g : β → γ) (f : α → Option β) (l : List α) :
    lastWrite (fun a => (f a).map g) l = (lastWrite f l).map g := by
  rw [lastWrite, lastWrite, ← List.getLast?_map, List.map_filterMap]

/-- What a loop leaves in a field that each of its steps writes or leaves alone. -/
theorem foldl_field {step : σ → α → σ} (field : σ → β) {f : α → Option β}
    (h : ∀ s a, field (step s a) = (f a).getD (field s)) (l : List α) (s : σ) :
    field (l.foldl step s) = (lastWrite f l).getD (field s) := by
  induction l generalizing s with
  | nil => rfl
  | cons a l ih =>
      rw [List.foldl_cons, ih, h, lastWrite_cons]
      cases lastWrite f l <;> rfl

theorem foldl_field_or {step : σ → α → σ} (field : σ → Option β) {f : α → Option β}
    (h : ∀ s a, field (step s a) = (f a).or (field s)) (l : List α) (s : σ) :
    field (l.foldl step s) = (lastWrite f l).or (field s) := by
  induction l generalizing s with
  | nil => rfl
  | cons a l ih => rw [List.foldl_cons, ih, h, lastWrite_cons, Option.or_assoc]

/-- What a loop that may fail makes of a field when it does not. -/
theorem foldlM_fold {step : σ → α → Except ε σ} (field : σ → β) {g : β → α → β}
    (h : ∀ s a t, step s a = .ok t → field t = g (field s) a) {l : List α} {s t : σ}
    (hrun : l.foldlM step s = .ok t) : field t = l.foldl g (field s) := by
  induction l generalizing s with
  | nil =>
      rw [List.foldlM_nil] at hrun
      cases hrun
      rfl
  | cons a l ih =>
      rw [List.foldlM_cons] at hrun
      cases hstep : step s a with
      | error e =>
          rw [hstep] at hrun
          cases hrun
      | ok s' =>
          rw [hstep] at hrun
          rw [ih hrun, h s a s' hstep, List.foldl_cons]

theorem foldlM_field {step : σ → α → Except ε σ} (field : σ → β) {f : α → Option β}
    (h : ∀ s a t, step s a = .ok t → field t = (f a).getD (field s)) {l : List α} {s t : σ}
    (hrun : l.foldlM step s = .ok t) : field t = (lastWrite f l).getD (field s) := by
  have hfold := foldlM_fold (g := fun b a => (f a).getD b) field h hrun
  exact hfold.trans (foldl_field id (fun _ _ => rfl) l (field s))

theorem foldlM_field_or {step : σ → α → Except ε σ} (field : σ → Option β) {f : α → Option β}
    (h : ∀ s a t, step s a = .ok t → field t = (f a).or (field s)) {l : List α} {s t : σ}
    (hrun : l.foldlM step s = .ok t) : field t = (lastWrite f l).or (field s) := by
  have hfold := foldlM_fold (g := fun b a => (f a).or b) field h hrun
  exact hfold.trans (foldl_field_or id (fun _ _ => rfl) l (field s))

/-- Whether a loop fails is up to its elements, if it is so of each step. -/
theorem foldlM_ok_iff {step : σ → α → Except ε σ} {good : α → Prop}
    (h : ∀ s a, (∃ t, step s a = .ok t) ↔ good a) (l : List α) (s : σ) :
    (∃ t, l.foldlM step s = .ok t) ↔ ∀ a ∈ l, good a := by
  induction l generalizing s with
  | nil => exact iff_of_true ⟨s, rfl⟩ (by simp)
  | cons a l ih =>
      rw [List.foldlM_cons, List.forall_mem_cons, ← h s a]
      cases hstep : step s a with
      | error e =>
          refine iff_of_false ?_ ?_
          · rintro ⟨t, ht⟩
            cases ht
          · rintro ⟨⟨t, ht⟩, -⟩
            cases ht
      | ok s' => exact (ih s').trans (and_iff_right ⟨s', rfl⟩).symm

end Threadctl.Support.LastWrite

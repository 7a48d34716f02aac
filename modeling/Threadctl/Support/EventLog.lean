import Mathlib.Data.List.Basic

/-!
# Programs that emit events

`Traced` keeps a log beside a state; `noting` runs a program on the bare state and
logs its answer.

`Emits step view v x R` reads: started where the view is `v`, the program `x` emits a
list of events, `step` takes the view along them, and `R` holds of the events and of the
result.  One rule per way of building a program.
-/

namespace Threadctl.Support.EventLog

variable {σ ν ε κ α β : Type}

structure Traced (κ ε : Type) where
  kernel : κ
  log : List ε

/-- Run on the bare state; the log stays. -/
def quietly (x : StateM κ α) : StateM (Traced κ ε) α := fun t =>
  let r := x.run t.kernel
  (r.1, ⟨r.2, t.log⟩)

/-- Run on the bare state and log a note of the answer. -/
def noting (note : α → ε) (x : StateM κ α) : StateM (Traced κ ε) α := fun t =>
  let r := x.run t.kernel
  (r.1, ⟨r.2, t.log ++ [note r.1]⟩)

/-! ## Emitted events -/

def Emits (step : ν → ε → ν) (view : σ → ν) (v : ν) (x : StateM σ α)
    (R : List ε → α → Prop) : Prop :=
  ∀ s, view s = v → ∃ events, view (x.run s).2 = events.foldl step v ∧ R events (x.run s).1

section Rules

variable {step : ν → ε → ν} {view : σ → ν} {v : ν} {R : List ε → α → Prop}

theorem Emits.pure {a : α} (h : R [] a) : Emits step view v (pure a) R :=
  fun _ hs => ⟨[], hs, h⟩

theorem Emits.mono {Q : List ε → α → Prop} {x : StateM σ α} (hx : Emits step view v x Q)
    (h : ∀ events a, Q events a → R events a) : Emits step view v x R := by
  intro s hs
  obtain ⟨events, hview, hQ⟩ := hx s hs
  exact ⟨events, hview, h events _ hQ⟩

/-- The rest of a program starts where the events of its first part have led. -/
theorem Emits.bind {Q : List ε → β → Prop} {x : StateM σ β} {f : β → StateM σ α}
    (hx : Emits step view v x Q)
    (hf : ∀ events b, Q events b →
      Emits step view (events.foldl step v) (f b) fun more => R (events ++ more)) :
    Emits step view v (x >>= f) R := by
  intro s hs
  obtain ⟨events, hview, hQ⟩ := hx s hs
  obtain ⟨more, hmore, hR⟩ := hf events _ hQ (x.run s).2 hview
  refine ⟨events ++ more, ?_, hR⟩
  rw [List.foldl_append]
  exact hmore

theorem Emits.get {f : σ → StateM σ α} (h : ∀ s, view s = v → Emits step view v (f s) R) :
    Emits step view v ((MonadState.get : StateM σ σ) >>= f) R := fun s hs => h s hs s hs

theorem Emits.modify_bind {g : σ → σ} {f : Unit → StateM σ α} (hg : ∀ s, view (g s) = view s)
    (h : Emits step view v (f ()) R) :
    Emits step view v ((MonadState.modifyGet fun s => ((), g s) : StateM σ Unit) >>= f) R :=
  fun s hs => h (g s) ((hg s).trans hs)

theorem Emits.silent {x : StateM σ α} (hx : ∀ s, view (x.run s).2 = view s) (h : ∀ a, R [] a) :
    Emits step view v x R :=
  fun s hs => ⟨[], (hx s).trans hs, h _⟩

/-- A loop whose turns relate what they start from, emit and end with. -/
theorem Emits.foldlM {γ : Type} {g : β → γ → StateM σ β} {T : β → List ε → β → Prop}
    (hrefl : ∀ b, T b [] b)
    (htrans : ∀ a events b more c, T a events b → T b more c → T a (events ++ more) c)
    (hg : ∀ v b c, Emits step view v (g b c) (T b)) (l : List γ) (b : β) :
    Emits step view v (l.foldlM g b) (T b) := by
  induction l generalizing v b with
  | nil => exact Emits.pure (hrefl b)
  | cons c l ih =>
      rw [List.foldlM_cons]
      refine Emits.bind (hg v b c) fun events b' hb' => ?_
      exact (ih b').mono fun more _ hmore => htrans _ _ _ _ _ hb' hmore

theorem Emits.ite {c : Prop} [Decidable c] {x y : StateM σ α}
    (hx : c → Emits step view v x R) (hy : ¬ c → Emits step view v y R) :
    Emits step view v (if c then x else y) R := by
  split
  · rename_i h
    exact hx h
  · rename_i h
    exact hy h

end Rules

end Threadctl.Support.EventLog

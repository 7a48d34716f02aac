import Mathlib.Data.List.Basic

/-!
# Programs that agree below a view

`Erases f x y` reads: forgetting by `f` what only the states of `x` have, `x` does what
`y` does, with the same result.  One rule per way of building a program.
-/

namespace Threadctl.Support.Simulation

variable {σ τ α β : Type} {f : σ → τ}

def Erases (f : σ → τ) (x : StateM σ α) (y : StateM τ α) : Prop :=
  ∀ s, y.run (f s) = ((x.run s).1, f (x.run s).2)

theorem Erases.pure {a : α} : Erases f (pure a) (pure a) := fun _ => rfl

theorem Erases.bind {x : StateM σ β} {y : StateM τ β} {g : β → StateM σ α} {h : β → StateM τ α}
    (hx : Erases f x y) (hg : ∀ b, Erases f (g b) (h b)) : Erases f (x >>= g) (y >>= h) := by
  intro s
  have hrest := hg (x.run s).1 (x.run s).2
  have hrun : (y >>= h).run (f s) = (h (y.run (f s)).1).run (y.run (f s)).2 := rfl
  rw [hrun, hx s]
  exact hrest

theorem Erases.get {g : σ → StateM σ α} {h : τ → StateM τ α}
    (hg : ∀ s, Erases f (g s) (h (f s))) :
    Erases f ((MonadState.get : StateM σ σ) >>= g) ((MonadState.get : StateM τ τ) >>= h) :=
  fun s => hg s s

theorem Erases.modify {m : σ → σ} {n : τ → τ} (h : ∀ s, f (m s) = n (f s)) :
    Erases f (modify m : StateM σ Unit) (modify n : StateM τ Unit) := by
  intro s
  exact Prod.ext rfl (h s).symm

theorem Erases.modify_bind {m : σ → σ} {n : τ → τ} {g : Unit → StateM σ α} {h : Unit → StateM τ α}
    (hm : ∀ s, f (m s) = n (f s)) (hg : Erases f (g ()) (h ())) :
    Erases f ((MonadState.modifyGet fun s => ((), m s) : StateM σ Unit) >>= g)
      ((MonadState.modifyGet fun t => ((), n t) : StateM τ Unit) >>= h) := by
  intro s
  have hrest := hg (m s)
  rw [hm] at hrest
  exact hrest

/-- Run and then write a note of the result. -/
def annotating (note : α → σ → σ) (x : StateM σ α) : StateM σ α := fun s =>
  let r := x.run s
  (r.1, note r.1 r.2)

theorem Erases.annotating {note : α → σ → σ} {x : StateM σ α} {y : StateM τ α}
    (hnote : ∀ a s, f (note a s) = f s) (hx : Erases f x y) :
    Erases f (Simulation.annotating note x) y := by
  intro s
  rw [hx s]
  exact Prod.ext rfl (hnote _ _).symm

theorem Erases.ite {c : Prop} [Decidable c] {x x' : StateM σ α} {y y' : StateM τ α}
    (hx : Erases f x y) (hx' : Erases f x' y') :
    Erases f (if c then x else x') (if c then y else y') := by
  split
  · exact hx
  · exact hx'

theorem Erases.forM {γ : Type} {g : γ → StateM σ Unit} {h : γ → StateM τ Unit} (l : List γ)
    (hg : ∀ c, Erases f (g c) (h c)) : Erases f (l.forM g) (l.forM h) := by
  induction l with
  | nil => exact Erases.pure
  | cons c l ih => exact Erases.bind (hg c) fun _ => ih

theorem Erases.foldlM {γ : Type} {g : β → γ → StateM σ β} {h : β → γ → StateM τ β} (l : List γ)
    (hg : ∀ b c, Erases f (g b c) (h b c)) (b : β) : Erases f (l.foldlM g b) (l.foldlM h b) := by
  induction l generalizing b with
  | nil => exact Erases.pure
  | cons c l ih =>
      rw [List.foldlM_cons, List.foldlM_cons]
      exact Erases.bind (hg b c) ih

end Threadctl.Support.Simulation

import Mathlib.Order.Monotone.Defs
import Threadctl.Support.StateRun

/-!
# Programs that learn

A view of the state says what is known, and a program may only add to it.
`Learns view J w x R` reads: started where `J` holds and at least `w` is known, `x` keeps both
and ends with a result of which `R` holds by what is known then.  One rule per way of
building a program: what its first part has learned is still known to the rest.
-/

namespace Threadctl.Support.Learning

open Threadctl.Support.StateRun

variable {σ ω α β : Type} [Preorder ω]

def Learns (view : σ → ω) (J : σ → Prop) (w : ω) (x : StateM σ α) (R : α → ω → Prop) : Prop :=
  Triple (fun s => w ≤ view s ∧ J s) x fun a s => R a (view s) ∧ w ≤ view s ∧ J s

/-- Nothing that is known or invariant gets lost. -/
abbrev Stays (view : σ → ω) (J : σ → Prop) (w : ω) (x : StateM σ α) : Prop :=
  Learns view J w x fun _ _ => True

variable {view : σ → ω} {J : σ → Prop} {w : ω}

theorem Learns.pure {R : α → ω → Prop} {a : α} (h : ∀ w', w ≤ w' → R a w') :
    Learns view J w (pure a) R := fun s hs => ⟨h (view s) hs.1, hs⟩

theorem Stays.pure {a : α} : Stays view J w (pure a : StateM σ α) :=
  Learns.pure fun _ _ => trivial

theorem Learns.mono {x : StateM σ α} {R R' : α → ω → Prop} (hx : Learns view J w x R)
    (h : ∀ a w', w ≤ w' → R a w' → R' a w') : Learns view J w x R' := by
  intro s hs
  obtain ⟨hR, hw, hJ⟩ := hx s hs
  exact ⟨h _ _ hw hR, hw, hJ⟩

theorem Learns.stays {x : StateM σ α} {R : α → ω → Prop} (hx : Learns view J w x R) :
    Stays view J w x := hx.mono fun _ _ _ _ => trivial

/-- The rest of a program knows what its first part has learned. -/
theorem Learns.bind {x : StateM σ α} {f : α → StateM σ β} {Q : α → ω → Prop} {R : β → ω → Prop}
    (hx : Learns view J w x Q)
    (hf : ∀ a w', w ≤ w' → Q a w' → Learns view J w' (f a) R) : Learns view J w (x >>= f) R := by
  intro s hs
  obtain ⟨hQ, hw, hJ⟩ := hx s hs
  obtain ⟨hR, hw', hJ'⟩ := hf _ _ hw hQ (x.run s).2 ⟨le_refl _, hJ⟩
  exact ⟨hR, hw.trans hw', hJ'⟩

theorem Stays.then {x : StateM σ α} {f : α → StateM σ β} {R : β → ω → Prop}
    (hx : Stays view J w x) (hf : ∀ a, Learns view J w (f a) R) : Learns view J w (x >>= f) R := by
  intro s hs
  exact hf (x.run s).1 (x.run s).2 (hx s hs).2

theorem Learns.get {f : σ → StateM σ β} {R : β → ω → Prop} (hf : ∀ s, Learns view J w (f s) R) :
    Learns view J w ((MonadState.get : StateM σ σ) >>= f) R := fun s hs => hf s s hs

/-- Reading the state: what is known in it is known to the rest. -/
theorem Learns.peek {f : σ → StateM σ β} {R : β → ω → Prop}
    (hf : ∀ s, w ≤ view s → J s → Learns view J (view s) (f s) R) :
    Learns view J w ((MonadState.get : StateM σ σ) >>= f) R := by
  intro s hs
  obtain ⟨hR, hw, hJ⟩ := hf s hs.1 hs.2 s ⟨le_refl _, hs.2⟩
  exact ⟨hR, hs.1.trans hw, hJ⟩

theorem Learns.ite_of {c : Prop} [Decidable c] {x y : StateM σ α} {R : α → ω → Prop}
    (hx : c → Learns view J w x R) (hy : ¬ c → Learns view J w y R) :
    Learns view J w (if c then x else y) R := Triple.ite_of hx hy

theorem Learns.ite {c : Prop} [Decidable c] {x y : StateM σ α} {R : α → ω → Prop}
    (hx : Learns view J w x R) (hy : Learns view J w y R) :
    Learns view J w (if c then x else y) R := Triple.ite hx hy

/-- A loop each of whose turns may rely on all that was learned before. -/
theorem Learns.foldlM {f : β → α → StateM σ β} {R : β → ω → Prop} (hR : ∀ b, Monotone (R b))
    (l : List α) {b : β} (hb : R b w)
    (hf : ∀ b, ∀ a ∈ l, ∀ w', w ≤ w' → R b w' → Learns view J w' (f b a) R) :
    Learns view J w (l.foldlM f b) R := by
  induction l generalizing b w with
  | nil => exact Learns.pure fun w' hw => hR b hw hb
  | cons a l ih =>
      rw [List.foldlM_cons]
      refine Learns.bind (hf b a List.mem_cons_self w (le_refl w) hb) fun b' w' hw hb' => ?_
      exact ih hb' fun c a' ha' w'' hw' => hf c a' (List.mem_cons_of_mem a ha') w'' (hw.trans hw')

theorem Stays.foldlM {f : β → α → StateM σ β} (l : List α) (hf : ∀ b a, Stays view J w (f b a))
    (b : β) : Stays view J w (l.foldlM f b) := by
  induction l generalizing b with
  | nil => exact Stays.pure
  | cons a l ih =>
      rw [List.foldlM_cons]
      exact (hf b a).then ih

theorem Stays.forM {f : α → StateM σ Unit} (l : List α) (hf : ∀ a, Stays view J w (f a)) :
    Stays view J w (l.forM f) := by
  induction l with
  | nil => exact Stays.pure
  | cons a l ih => exact (hf a).then fun _ => ih

end Threadctl.Support.Learning

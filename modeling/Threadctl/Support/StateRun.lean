import Mathlib.Data.List.Basic

/-!
# Programs over a state

Pre- and postconditions for `StateM` programs, with one rule per way of building
a program.  `Triple P x Q` reads: started where `P` holds, `x` ends where `Q`
holds of its result.  `Keeps I x` is the invariant form, and `Frame f x` says
that `x` leaves the view `f` of the state alone.
-/

namespace Threadctl.Support.StateRun

variable {σ τ α β : Type}

def Triple (P : σ → Prop) (x : StateM σ α) (Q : α → σ → Prop) : Prop :=
  ∀ s, P s → Q (x.run s).1 (x.run s).2

/-- `x` preserves `I`. -/
def Keeps (I : σ → Prop) (x : StateM σ α) : Prop := Triple I x fun _ => I

/-- `x` does not change what `f` reads. -/
def Frame (f : σ → τ) (x : StateM σ α) : Prop := ∀ s, f (x.run s).2 = f s

/-! ## Triples -/

theorem Triple.pure {P : σ → Prop} {Q : α → σ → Prop} {a : α} (h : ∀ s, P s → Q a s) :
    Triple P (pure a) Q := h

theorem Triple.bind {P : σ → Prop} {x : StateM σ α} {f : α → StateM σ β} {Q : α → σ → Prop}
    {R : β → σ → Prop} (hx : Triple P x Q) (hf : ∀ a, Triple (Q a) (f a) R) :
    Triple P (x >>= f) R := by
  intro s hs
  exact hf (x.run s).1 (x.run s).2 (hx s hs)

theorem Triple.bind_any {x : StateM σ α} {f : α → StateM σ β} {R : β → σ → Prop}
    (h : ∀ a, Triple (fun _ => True) (f a) R) : Triple (fun _ => True) (x >>= f) R := by
  intro s _
  exact h (x.run s).1 (x.run s).2 trivial

/-- Reading the state: from here on the program runs in a known state. -/
theorem Triple.get {P : σ → Prop} {f : σ → StateM σ β} {R : β → σ → Prop}
    (h : ∀ s, P s → Triple (fun t => t = s) (f s) R) :
    Triple P ((MonadState.get : StateM σ σ) >>= f) R := by
  intro s hs
  exact h s hs s rfl

/-- Reading the state: the precondition holds of what was read. -/
theorem Triple.peek {P : σ → Prop} {f : σ → StateM σ β} {R : β → σ → Prop}
    (h : ∀ s, P s → Triple P (f s) R) : Triple P ((MonadState.get : StateM σ σ) >>= f) R := by
  intro s hs
  exact h s hs s hs

theorem Triple.fix {P : σ → Prop} {x : StateM σ α} {Q : α → σ → Prop}
    (h : ∀ s, P s → Triple (fun t => t = s) x Q) : Triple P x Q := fun s hs => h s hs s rfl

theorem Triple.modify {P : σ → Prop} {g : σ → σ} {Q : Unit → σ → Prop}
    (h : ∀ s, P s → Q () (g s)) : Triple P (modify g : StateM σ Unit) Q := h

theorem Triple.modify_bind {s : σ} {g : σ → σ} {f : Unit → StateM σ β} {R : β → σ → Prop}
    (h : Triple (fun t => t = g s) (f ()) R) :
    Triple (fun t => t = s)
      ((MonadState.modifyGet fun t => ((), g t) : StateM σ Unit) >>= f) R := by
  rintro t rfl
  exact h (g t) rfl

theorem Triple.pre {p : Prop} {P : σ → Prop} {x : StateM σ α} {Q : α → σ → Prop}
    (h : p → Triple P x Q) : Triple (fun s => p ∧ P s) x Q := by
  intro s hs
  exact h hs.1 s hs.2

theorem Triple.exists {ι : Type} {P : ι → σ → Prop} {x : StateM σ α} {Q : α → σ → Prop}
    (h : ∀ i, Triple (P i) x Q) : Triple (fun s => ∃ i, P i s) x Q := by
  intro s ⟨i, hs⟩
  exact h i s hs

theorem Triple.mono {P P' : σ → Prop} {x : StateM σ α} {Q Q' : α → σ → Prop}
    (hx : Triple P x Q) (hP : ∀ s, P' s → P s) (hQ : ∀ a s, Q a s → Q' a s) :
    Triple P' x Q' := by
  intro s hs
  exact hQ _ _ (hx s (hP s hs))

theorem Triple.ite_of {P : σ → Prop} {c : Prop} [Decidable c] {x y : StateM σ α}
    {Q : α → σ → Prop} (hx : c → Triple P x Q) (hy : ¬ c → Triple P y Q) :
    Triple P (if c then x else y) Q := by
  split
  · rename_i h
    exact hx h
  · rename_i h
    exact hy h

theorem Triple.ite {P : σ → Prop} {c : Prop} [Decidable c] {x y : StateM σ α}
    {Q : α → σ → Prop} (hx : Triple P x Q) (hy : Triple P y Q) :
    Triple P (if c then x else y) Q := Triple.ite_of (fun _ => hx) fun _ => hy

theorem Triple.and {P P' : σ → Prop} {x : StateM σ α} {Q Q' : α → σ → Prop}
    (hx : Triple P x Q) (hx' : Triple P' x Q') :
    Triple (fun s => P s ∧ P' s) x fun a s => Q a s ∧ Q' a s := by
  intro s hs
  exact ⟨hx s hs.1, hx' s hs.2⟩

/-- A loop whose invariant is stated of the elements still to come. -/
theorem Triple.forM {I : List α → σ → Prop} {f : α → StateM σ Unit} (l : List α)
    (h : ∀ a rest, Triple (I (a :: rest)) (f a) fun _ => I rest) :
    Triple (I l) (l.forM f) fun _ => I [] := by
  induction l with
  | nil => exact Triple.pure fun _ hs => hs
  | cons a rest ih =>
      exact Triple.bind (h a rest) fun _ => ih

theorem Triple.foldlM {I : List α → β → σ → Prop} {f : β → α → StateM σ β} (l : List α) (b : β)
    (h : ∀ a rest b, Triple (I (a :: rest) b) (f b a) (I rest)) :
    Triple (I l b) (l.foldlM f b) (I []) := by
  induction l generalizing b with
  | nil => exact Triple.pure fun _ hs => hs
  | cons a rest ih =>
      rw [List.foldlM_cons]
      exact Triple.bind (h a rest b) ih

theorem foldlM_run {f : β → α → StateM σ β} (l : List α) (b : β) (s : σ) :
    (l.foldlM f b).run s = l.foldl (fun r a => (f r.1 a).run r.2) (b, s) := by
  induction l generalizing b s with
  | nil => rfl
  | cons a l ih => exact ih (f b a s).1 (f b a s).2

/-! ## Invariants -/

theorem Keeps.pure {I : σ → Prop} {a : α} : Keeps I (pure a) := Triple.pure fun _ hs => hs

theorem Keeps.bind {I : σ → Prop} {x : StateM σ α} {f : α → StateM σ β} (hx : Keeps I x)
    (hf : ∀ a, Keeps I (f a)) : Keeps I (x >>= f) := Triple.bind hx hf

theorem Keeps.get {I : σ → Prop} {f : σ → StateM σ β} (hf : ∀ s, Keeps I (f s)) :
    Keeps I ((MonadState.get : StateM σ σ) >>= f) := by
  intro s hs
  exact hf s s hs

theorem Keeps.modify {I : σ → Prop} {g : σ → σ} (h : ∀ s, I s → I (g s)) :
    Keeps I (modify g : StateM σ Unit) := Triple.modify h

theorem Keeps.ite {I : σ → Prop} {c : Prop} [Decidable c] {x y : StateM σ α} (hx : Keeps I x)
    (hy : Keeps I y) : Keeps I (if c then x else y) := by
  split
  · exact hx
  · exact hy

theorem Keeps.forM {I : σ → Prop} {f : α → StateM σ Unit} (l : List α) (h : ∀ a, Keeps I (f a)) :
    Keeps I (l.forM f) := Triple.forM (I := fun _ => I) l fun a _ => h a

theorem Keeps.foldlM {I : σ → Prop} {f : β → α → StateM σ β} (l : List α)
    (h : ∀ b a, Keeps I (f b a)) (b : β) : Keeps I (l.foldlM f b) :=
  Triple.foldlM (I := fun _ _ => I) l b fun a _ b => h b a

/-! ## Frames -/

theorem Frame.pure {f : σ → τ} {a : α} : Frame f (pure a) := fun _ => rfl

theorem Frame.bind {f : σ → τ} {x : StateM σ α} {g : α → StateM σ β} (hx : Frame f x)
    (hg : ∀ a, Frame f (g a)) : Frame f (x >>= g) := by
  intro s
  exact (hg (x.run s).1 (x.run s).2).trans (hx s)

theorem Frame.get {f : σ → τ} {g : σ → StateM σ β} (hg : ∀ s, Frame f (g s)) :
    Frame f ((MonadState.get : StateM σ σ) >>= g) := fun s => hg s s

theorem Frame.modify {f : σ → τ} {g : σ → σ} (h : ∀ s, f (g s) = f s) :
    Frame f (modify g : StateM σ Unit) := h

theorem Frame.ite {f : σ → τ} {c : Prop} [Decidable c] {x y : StateM σ α} (hx : Frame f x)
    (hy : Frame f y) : Frame f (if c then x else y) := by
  split
  · exact hx
  · exact hy

theorem Frame.forM {f : σ → τ} {g : α → StateM σ Unit} (l : List α) (h : ∀ a, Frame f (g a)) :
    Frame f (l.forM g) := by
  induction l with
  | nil => exact Frame.pure
  | cons a l ih => exact Frame.bind (h a) fun _ => ih

/-- An invariant of a view survives whatever leaves the view alone. -/
theorem Frame.keeps {f : σ → τ} {x : StateM σ α} (hx : Frame f x) (I : τ → Prop) :
    Keeps (fun s => I (f s)) x := by
  intro s hs
  rw [hx s]
  exact hs

theorem Frame.of_keeps {f : σ → τ} {x : StateM σ α} (h : ∀ v, Keeps (fun s => f s = v) x) :
    Frame f x := fun s => h (f s) s rfl

theorem Triple.bind_frame {P : σ → Prop} {x : StateM σ α} {g : α → StateM σ β} {f : σ → τ} {v : τ}
    (hx : Triple P x fun _ s => f s = v) (hg : ∀ a, Frame f (g a)) :
    Triple P (x >>= g) fun _ s => f s = v :=
  Triple.bind hx fun a => (hg a).keeps fun w => w = v

end Threadctl.Support.StateRun

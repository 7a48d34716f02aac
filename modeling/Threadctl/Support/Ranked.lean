import Mathlib.Data.List.Sort
import Mathlib.Data.List.MinMax
import Mathlib.Data.List.Perm.Basic

/-!
# Stable sorting by rank, the first best entry, and tightest bounds

A stable sort by a rank is the concatenation of the rank classes, each in its
original order, and the first hit in it is the first one of the highest class that has
any.  The second part says when a running maximum ends on an entry with a given property,
the third when the extremes of a list survive in a part of it.
-/

namespace Threadctl.Support.Ranked

variable {α κ : Type} [DecidableEq κ]

/-- The members of class `k`, in order. -/
def classOf (key : α → κ) (k : κ) (l : List α) : List α :=
  l.filter (fun a => key a = k)

def classes (key : α → κ) (ks : List κ) (l : List α) : List α :=
  ks.flatMap (fun k => classOf key k l)

section StableSort

variable {r : α → α → Prop} [DecidableRel r]

theorem orderedInsert_append_of_not {a : α} {front back : List α}
    (h : ∀ b ∈ front, ¬ r a b) :
    List.orderedInsert r a (front ++ back) = front ++ List.orderedInsert r a back := by
  induction front with
  | nil => rfl
  | cons b front ih =>
      have hb : ¬ r a b := h b (by simp)
      rw [List.cons_append, List.orderedInsert_of_not_le r _ hb,
        ih fun c hc => h c (by simp [hc]), List.cons_append]

theorem orderedInsert_of_forall {a : α} {l : List α} (h : ∀ b ∈ l, r a b) :
    List.orderedInsert r a l = a :: l := by
  cases l with
  | nil => rfl
  | cons b l => exact List.orderedInsert_cons_of_le r _ (h b (by simp))

variable {key : α → κ} {rank : κ → Nat}

theorem orderedInsert_classes {ks : List κ} (hks : ks.Pairwise (fun j k => rank k < rank j))
    (a : α) (l : List α) (ha : key a ∈ ks) :
    List.orderedInsert (fun a b => rank (key b) ≤ rank (key a)) a (classes key ks l) =
      classes key ks (a :: l) := by
  induction ks with
  | nil => simp at ha
  | cons k ks ih =>
      rw [List.pairwise_cons] at hks
      have hclasses : ∀ l, classes key (k :: ks) l = classOf key k l ++ classes key ks l := by
        intro l
        simp [classes]
      rw [hclasses, hclasses]
      by_cases hk : key a = k
      · -- `a` belongs to the leading class: every later entry has a rank not above its own
        have hlead : ∀ b ∈ classOf key k l ++ classes key ks l, rank (key b) ≤ rank (key a) := by
          intro b hb
          rcases List.mem_append.mp hb with hb | hb
          · have : key b = k := by simpa [classOf] using (List.mem_filter.mp hb).2
            rw [this, hk]
          · obtain ⟨j, hj, hb⟩ := List.mem_flatMap.mp hb
            have : key b = j := by simpa [classOf] using (List.mem_filter.mp hb).2
            rw [this, hk]
            exact Nat.le_of_lt (hks.1 j hj)
        have hrest : classes key ks (a :: l) = classes key ks l := by
          unfold classes
          apply List.flatMap_congr
          intro j hj
          have hne : key a ≠ j := by
            intro heq
            have hlt := hks.1 j hj
            rw [← heq, hk] at hlt
            exact Nat.lt_irrefl _ hlt
          simp [classOf, hne]
        rw [orderedInsert_of_forall hlead, hrest]
        simp [classOf, hk]
      · have hmem : key a ∈ ks := by
          rcases List.mem_cons.mp ha with h | h
          · exact absurd h hk
          · exact h
        have hskip : ∀ b ∈ classOf key k l, ¬ rank (key b) ≤ rank (key a) := by
          intro b hb
          have : key b = k := by simpa [classOf] using (List.mem_filter.mp hb).2
          rw [this]
          exact Nat.not_le.mpr (hks.1 _ hmem)
        rw [orderedInsert_append_of_not hskip, ih hks.2 hmem]
        simp [classOf, hk]

/-- A stable sort by descending rank lists the classes one after the other. -/
theorem insertionSort_eq_classes {ks : List κ}
    (hks : ks.Pairwise (fun j k => rank k < rank j)) (l : List α) (hl : ∀ a ∈ l, key a ∈ ks) :
    l.insertionSort (fun a b => rank (key b) ≤ rank (key a)) = classes key ks l := by
  induction l with
  | nil =>
      have : classes key ks ([] : List α) = [] := by simp [classes, classOf]
      rw [this, List.insertionSort_nil]
  | cons a l ih =>
      rw [List.insertionSort_cons, ih fun b hb => hl b (by simp [hb])]
      exact orderedInsert_classes hks a l (hl a (by simp))

theorem mem_classes {ks : List κ} {l : List α} (hl : ∀ a ∈ l, key a ∈ ks) {a : α} :
    a ∈ classes key ks l ↔ a ∈ l := by
  simp only [classes, classOf, List.mem_flatMap, List.mem_filter, decide_eq_true_iff]
  exact ⟨fun ⟨_, _, ha, _⟩ => ha, fun ha => ⟨key a, hl a ha, ha, rfl⟩⟩

end StableSort

section Highest

variable {rank : κ → Nat} {ks : List κ}

omit [DecidableEq κ] in
/-- A search through the ranks from the top ends at the highest one that has an answer. -/
theorem findSome?_ranked_iff {β : Type} (hks : ks.Pairwise fun j k => rank k < rank j)
    {f : κ → Option β} {b : β} :
    ks.findSome? f = some b ↔
      ∃ k ∈ ks, f k = some b ∧ ∀ j ∈ ks, (f j).isSome = true → rank j ≤ rank k := by
  rw [List.findSome?_eq_some_iff]
  constructor
  · rintro ⟨above, k, below, rfl, hk, hnone⟩
    refine ⟨k, by simp, hk, ?_⟩
    intro j hj hsome
    obtain ⟨-, hbelow, -⟩ := List.pairwise_append.mp hks
    rcases List.mem_append.mp hj with hj | hj
    · rw [hnone j hj] at hsome
      exact absurd hsome (by simp)
    · rcases List.mem_cons.mp hj with rfl | hj
      · exact Nat.le_refl _
      · exact Nat.le_of_lt (List.rel_of_pairwise_cons hbelow hj)
  · rintro ⟨k, hk, hb, hhighest⟩
    obtain ⟨above, below, rfl⟩ := List.append_of_mem hk
    refine ⟨above, k, below, rfl, hb, ?_⟩
    intro j hj
    have hlt : rank k < rank j := (List.pairwise_append.mp hks).2.2 j hj k (by simp)
    rw [← Option.not_isSome_iff_eq_none]
    intro hsome
    have hle := hhighest j (by simp [hj]) hsome
    omega

variable {key : α → κ} {p : α → Bool} {l : List α}

/-- `a` has `p`, no entry of a higher class has it, and no entry of its own class before it. -/
structure Leads (key : α → κ) (rank : κ → Nat) (p : α → Bool) (l : List α) (a : α) : Prop where
  holds : p a = true
  highest : ∀ b ∈ l, p b = true → rank (key b) ≤ rank (key a)
  first : ∃ before after, l = before ++ a :: after ∧
    ∀ b ∈ before, key b = key a → p b = false

theorem find?_classes_eq_some_iff (hks : ks.Pairwise fun j k => rank k < rank j)
    (hl : ∀ a ∈ l, key a ∈ ks) {a : α} :
    (classes key ks l).find? p = some a ↔ Leads key rank p l a := by
  have hclass : ∀ k, (classOf key k l).find? p = some a ↔
      key a = k ∧ p a = true ∧ ∃ before after, l = before ++ a :: after ∧
        ∀ b ∈ before, key b = key a → p b = false := by
    intro k
    rw [classOf, List.find?_filter, List.find?_eq_some_iff_append]
    simp only [decide_eq_true_iff, Bool.not_eq_true', decide_eq_false_iff_not, not_and,
      Bool.not_eq_true, and_assoc]
    constructor
    · rintro ⟨rfl, hp, hfirst⟩
      exact ⟨rfl, hp, hfirst⟩
    · rintro ⟨rfl, hp, hfirst⟩
      exact ⟨rfl, hp, hfirst⟩
  have hsome : ∀ k, ((classOf key k l).find? p).isSome = true ↔
      ∃ b ∈ l, key b = k ∧ p b = true := by
    intro k
    simp [classOf, List.find?_isSome]
  rw [classes, List.find?_flatMap, findSome?_ranked_iff hks]
  constructor
  · rintro ⟨k, -, hfind, hhighest⟩
    obtain ⟨rfl, hp, hfirst⟩ := (hclass k).mp hfind
    refine ⟨hp, ?_, hfirst⟩
    intro b hb hpb
    exact hhighest (key b) (hl b hb) ((hsome _).mpr ⟨b, hb, rfl, hpb⟩)
  · intro h
    obtain ⟨before, after, rfl, hbefore⟩ := h.first
    refine ⟨key a, hl a (by simp), (hclass _).mpr ⟨rfl, h.holds, before, after, rfl, hbefore⟩, ?_⟩
    intro j _ hj
    obtain ⟨b, hb, rfl, hpb⟩ := (hsome j).mp hj
    exact h.highest b hb hpb

end Highest

section FirstBest

variable [DecidableEq α] {β : Type} [LinearOrder β]

/-- `a` is preferred to `b`: it scores higher, or as high from an earlier place. -/
def Beats (score : α → β) (l : List α) (a b : α) : Prop :=
  score b < score a ∨ (score b = score a ∧ l.idxOf a < l.idxOf b)

variable {score : α → β} {l : List α}

theorem argmax_beats {m a : α} (hm : l.argmax score = some m) (ha : a ∈ l) (hne : m ≠ a) :
    Beats score l m a := by
  have hle : score a ≤ score m := List.le_of_mem_argmax ha hm
  rcases lt_or_eq_of_le hle with hlt | heq
  · exact Or.inl hlt
  · have hfirst : l.idxOf m ≤ l.idxOf a := List.index_of_argmax hm ha (le_of_eq heq.symm)
    have hidx : l.idxOf m ≠ l.idxOf a := fun h => hne ((List.idxOf_inj (List.argmax_mem hm)).mp h)
    exact Or.inr ⟨heq, lt_of_le_of_ne hfirst hidx⟩

theorem not_beats_argmax {m a : α} (hm : l.argmax score = some m) (ha : a ∈ l) :
    ¬ Beats score l a m := by
  have hle : score a ≤ score m := List.le_of_mem_argmax ha hm
  rintro (hlt | ⟨heq, hidx⟩)
  · exact absurd hlt (not_lt_of_ge hle)
  · exact absurd hidx (not_lt_of_ge (List.index_of_argmax hm ha (le_of_eq heq)))

theorem argmax_congr {score' : α → β} (h : ∀ a ∈ l, score a = score' a) :
    l.argmax score = l.argmax score' := by
  cases hm : l.argmax score with
  | none =>
      rw [List.argmax_eq_none.mp hm]
      rfl
  | some m =>
      obtain ⟨hmem, hmax, hfirst⟩ := List.argmax_eq_some_iff.mp hm
      refine (List.argmax_eq_some_iff.mpr ⟨hmem, ?_, ?_⟩).symm
      · intro a ha
        rw [← h a ha, ← h m hmem]
        exact hmax a ha
      · intro a ha hle
        rw [← h a ha, ← h m hmem] at hle
        exact hfirst a ha hle

/-- The first best entry is good exactly when every bad entry is beaten by a good one. -/
theorem argmax_good_iff {good : α → Prop} :
    (∀ m, l.argmax score = some m → good m) ↔
      ∀ a ∈ l, ¬ good a → ∃ b ∈ l, good b ∧ Beats score l b a := by
  constructor
  · intro h a ha hbad
    cases hm : l.argmax score with
    | none => rw [List.argmax_eq_none.mp hm] at ha; simp at ha
    | some m =>
        have hgood := h m hm
        have hne : m ≠ a := by
          rintro rfl
          exact hbad hgood
        exact ⟨m, List.argmax_mem hm, hgood, argmax_beats hm ha hne⟩
  · intro h m hm
    by_contra hbad
    obtain ⟨b, hb, -, hbeats⟩ := h m (List.argmax_mem hm) hbad
    exact not_beats_argmax hm hb hbeats

end FirstBest

section Bounds

variable {β : Type} [LinearOrder β]

theorem max?_eq_max?_iff {part whole : List β} (hsub : ∀ a ∈ part, a ∈ whole) (hne : part ≠ []) :
    part.max? = whole.max? ↔ ∀ b ∈ whole, ∃ a ∈ part, b ≤ a := by
  cases hmax : part.max? with
  | none => exact absurd (List.max?_eq_none_iff.mp hmax) hne
  | some m =>
      obtain ⟨hm, hle⟩ := List.max?_eq_some_iff.mp hmax
      rw [eq_comm, List.max?_eq_some_iff]
      constructor
      · rintro ⟨-, hall⟩ b hb
        exact ⟨m, hm, hall b hb⟩
      · intro hdom
        refine ⟨hsub m hm, ?_⟩
        intro b hb
        obtain ⟨a, ha, hba⟩ := hdom b hb
        exact le_trans hba (hle a ha)

/-- The maximum of a preferred list, or of its fallback when it is empty, is the
maximum of both exactly when the preferred list dominates the fallback. -/
theorem max?_preferred_iff {preferred fallback whole : List β}
    (hwhole : ∀ a, a ∈ whole ↔ a ∈ preferred ∨ a ∈ fallback) :
    (if preferred = [] then fallback else preferred).max? = whole.max? ↔
      (preferred ≠ [] → ∀ b ∈ fallback, ∃ a ∈ preferred, b ≤ a) := by
  by_cases hnil : preferred = []
  · have hsame : fallback.max? = whole.max? := by
      ext m
      simp [List.max?_eq_some_iff, hwhole, hnil]
    simp [hnil, hsame]
  · rw [if_neg hnil, max?_eq_max?_iff (fun a ha => (hwhole a).mpr (Or.inl ha)) hnil]
    constructor
    · intro hdom _ b hb
      exact hdom b ((hwhole b).mpr (Or.inr hb))
    · intro hdom b hb
      rcases (hwhole b).mp hb with hpref | hfall
      · exact ⟨b, hpref, le_refl b⟩
      · exact hdom hnil b hfall

theorem min?_preferred_iff {preferred fallback whole : List β}
    (hwhole : ∀ a, a ∈ whole ↔ a ∈ preferred ∨ a ∈ fallback) :
    (if preferred = [] then fallback else preferred).min? = whole.min? ↔
      (preferred ≠ [] → ∀ b ∈ fallback, ∃ a ∈ preferred, a ≤ b) :=
  max?_preferred_iff (β := βᵒᵈ) hwhole

theorem max?_le_min?_iff {lows highs : List β} {lo hi : β} (hlo : lows.max? = some lo)
    (hhi : highs.min? = some hi) : lo ≤ hi ↔ ∀ a ∈ lows, ∀ b ∈ highs, a ≤ b := by
  obtain ⟨hlomem, hlomax⟩ := List.max?_eq_some_iff.mp hlo
  obtain ⟨hhimem, hhimin⟩ := List.min?_eq_some_iff.mp hhi
  constructor
  · intro hle a ha b hb
    exact le_trans (hlomax a ha) (le_trans hle (hhimin b hb))
  · intro h
    exact h lo hlomem hi hhimem

end Bounds

end Threadctl.Support.Ranked

import Mathlib.Data.List.Forall2
import Mathlib.Data.List.Perm.Basic

/-!
# First hits under reordering

A list is made of blocks, a block of tiers.  The blocks may be permuted, and the
members of each tier among themselves, but tiers keep their order.  `leads` holds
the values that the first hit of a search can have under any such reordering.
-/

namespace Threadctl.Support.FirstHit

variable {α β ι : Type}

def firstHits (f : α → Option β) : List (List α) → List β
  | [] => []
  | tier :: tiers =>
      if (tier.filterMap f).isEmpty then firstHits f tiers else tier.filterMap f

theorem findSome?_flatten (f : α → Option β) (tiers : List (List α)) :
    tiers.flatten.findSome? f = (firstHits f tiers).head? := by
  induction tiers with
  | nil => rfl
  | cons tier tiers ih =>
      rw [List.flatten_cons, List.findSome?_append, ih, firstHits, ← List.head?_filterMap]
      split
      · rename_i h
        rw [List.isEmpty_iff.mp h, List.head?_nil, Option.none_or]
      · rename_i h
        rw [Option.or_of_isSome]
        simpa [List.isEmpty_iff, Option.isSome_iff_ne_none] using h

theorem firstHits_perm (f : α → Option β) {tiers tiers' : List (List α)}
    (h : List.Forall₂ List.Perm tiers tiers') :
    (firstHits f tiers).Perm (firstHits f tiers') := by
  induction h with
  | nil => exact List.Perm.refl _
  | @cons tier tier' tiers tiers' hhead _ ih =>
      have hmap := hhead.filterMap f
      rw [firstHits, firstHits]
      by_cases hempty : (tier.filterMap f).isEmpty = true
      · have hempty' : (tier'.filterMap f).isEmpty = true := by
          rw [List.isEmpty_iff] at hempty ⊢
          exact List.Perm.eq_nil (hempty ▸ hmap.symm)
        rwa [if_pos hempty, if_pos hempty']
      · have hempty' : ¬ (tier'.filterMap f).isEmpty = true := by
          rw [List.isEmpty_iff] at hempty ⊢
          exact fun hnil => hempty (List.Perm.eq_nil (hnil ▸ hmap))
        rwa [if_neg hempty, if_neg hempty']

theorem mem_firstHits {f : α → Option β} {tiers : List (List α)} {b : β}
    (h : b ∈ firstHits f tiers) :
    ∃ before tier after, tiers = before ++ tier :: after ∧
      (∀ t ∈ before, t.filterMap f = []) ∧ b ∈ tier.filterMap f := by
  induction tiers with
  | nil => simp [firstHits] at h
  | cons tier tiers ih =>
      rw [firstHits] at h
      split at h
      · rename_i hempty
        obtain ⟨before, lead, after, rfl, hbefore, hb⟩ := ih h
        refine ⟨tier :: before, lead, after, rfl, ?_, hb⟩
        intro t ht
        rcases List.mem_cons.mp ht with rfl | ht
        · exact List.isEmpty_iff.mp hempty
        · exact hbefore t ht
      · exact ⟨[], tier, tiers, rfl, by simp, h⟩

theorem firstHits_cons_of_nil {f : α → Option β} {tier : List α} (h : tier.filterMap f = [])
    (tiers : List (List α)) : firstHits f (tier :: tiers) = firstHits f tiers := by
  rw [firstHits, h, List.isEmpty_nil, if_pos rfl]

theorem firstHits_append {f : α → Option β} {before : List (List α)}
    (h : ∀ t ∈ before, t.filterMap f = []) (after : List (List α)) :
    firstHits f (before ++ after) = firstHits f after := by
  induction before with
  | nil => rfl
  | cons t before ih =>
      rw [List.cons_append, firstHits_cons_of_nil (h t (by simp))]
      exact ih fun u hu => h u (by simp [hu])

theorem firstHits_cons_of_mem {f : α → Option β} {tier : List α} {b : β}
    (h : b ∈ tier.filterMap f) (after : List (List α)) :
    firstHits f (tier :: after) = tier.filterMap f := by
  rw [firstHits, if_neg]
  intro hempty
  rw [List.isEmpty_iff.mp hempty] at h
  simp at h

theorem head?_firstHits_cons {f : α → Option β} {tier : List α} {b : β}
    (h : (tier.filterMap f).head? = some b) (tiers : List (List α)) :
    (firstHits f (tier :: tiers)).head? = some b := by
  rw [firstHits_cons_of_mem (List.mem_of_mem_head? h), h]

/-! ## Blocks -/

/-- The values a first hit can have, over all blocks. -/
def leads (f : α → Option β) (tiers : ι → List (List α)) (blocks : List ι) : List β :=
  blocks.flatMap fun i => firstHits f (tiers i)

def possible (values : List β) : List (Option β) :=
  if values.isEmpty then [none] else values.map some

theorem findSome?_blocks (f : α → Option β) (tiers : ι → List (List α)) (blocks : List ι) :
    (blocks.flatMap fun i => (tiers i).flatten).findSome? f = (leads f tiers blocks).head? := by
  induction blocks with
  | nil => rfl
  | cons i blocks ih =>
      rw [List.flatMap_cons, List.findSome?_append, findSome?_flatten, ih, leads, leads,
        List.flatMap_cons, List.head?_append]

theorem leads_perm (f : α → Option β) {tiers tiers' : ι → List (List α)} {blocks blocks' : List ι}
    (hblocks : blocks.Perm blocks') (htiers : ∀ i, List.Forall₂ List.Perm (tiers i) (tiers' i)) :
    (leads f tiers blocks).Perm (leads f tiers' blocks') :=
  (hblocks.flatMap_right _).trans
    (List.Perm.flatMap_left _ fun i _ => firstHits_perm f (htiers i))

theorem head?_mem_possible (values : List β) : values.head? ∈ possible values := by
  cases values <;> simp [possible]

theorem possible_none_iff (values : List β) :
    (∀ v ∈ possible values, v = none) ↔ values.head? = none := by
  cases values <;> simp [possible]

theorem mem_possible_of_perm {values values' : List β} (h : values.Perm values') {v : Option β}
    (hv : v ∈ possible values) : v ∈ possible values' := by
  unfold possible at hv ⊢
  by_cases hnil : values = []
  · subst hnil
    rwa [h.nil_eq] at hv
  · have hnil' : values' ≠ [] := fun h' => hnil (h'▸ h).eq_nil
    rw [if_neg (by simpa [List.isEmpty_iff] using hnil)] at hv
    rw [if_neg (by simpa [List.isEmpty_iff] using hnil')]
    exact (h.map some).mem_iff.mp hv

/-! ## Several searches in turn -/

/-- Search with each function in turn; the first that finds anything decides. -/
def stagedSearch (fs : List (α → Option β)) (l : List α) : Option β :=
  fs.findSome? fun f => l.findSome? f

/-- The leads of the first search that has any. -/
def stagedLeads (fs : List (α → Option β)) (tiers : ι → List (List α)) (blocks : List ι) :
    List β :=
  firstHits some (fs.map fun f => leads f tiers blocks)

theorem stagedSearch_eq (fs : List (α → Option β)) (tiers : ι → List (List α))
    (blocks : List ι) :
    stagedSearch fs (blocks.flatMap fun i => (tiers i).flatten) =
      (stagedLeads fs tiers blocks).head? := by
  rw [stagedLeads, ← findSome?_flatten]
  unfold stagedSearch
  induction fs with
  | nil => rfl
  | cons f fs ih =>
      have hsome : (leads f tiers blocks).findSome? some = (leads f tiers blocks).head? := by
        cases leads f tiers blocks <;> rfl
      rw [List.findSome?_cons, findSome?_blocks, List.map_cons, List.flatten_cons,
        List.findSome?_append, ← ih, hsome]
      cases (leads f tiers blocks).head? <;> rfl

theorem stagedLeads_perm (fs : List (α → Option β)) {tiers tiers' : ι → List (List α)}
    {blocks blocks' : List ι} (hblocks : blocks.Perm blocks')
    (htiers : ∀ i, List.Forall₂ List.Perm (tiers i) (tiers' i)) :
    (stagedLeads fs tiers blocks).Perm (stagedLeads fs tiers' blocks') := by
  apply firstHits_perm
  rw [List.forall₂_map_left_iff, List.forall₂_map_right_iff]
  exact List.forall₂_same.mpr fun f _ => leads_perm f hblocks htiers

/-- Whatever the order, the search finds a possible value. -/
theorem stagedSearch_mem_possible (fs : List (α → Option β)) {tiers tiers' : ι → List (List α)}
    {blocks blocks' : List ι} (hblocks : blocks'.Perm blocks)
    (htiers : ∀ i, List.Forall₂ List.Perm (tiers' i) (tiers i)) :
    stagedSearch fs (blocks'.flatMap fun i => (tiers' i).flatten) ∈
      possible (stagedLeads fs tiers blocks) := by
  rw [stagedSearch_eq]
  exact mem_possible_of_perm (stagedLeads_perm fs hblocks htiers) (head?_mem_possible _)

theorem mem_stagedLeads {fs : List (α → Option β)} {tiers : ι → List (List α)} {blocks : List ι}
    {b : β} (h : b ∈ stagedLeads fs tiers blocks) :
    ∃ before f after i, fs = before ++ f :: after ∧
      (∀ g ∈ before, leads g tiers blocks = []) ∧ i ∈ blocks ∧ b ∈ firstHits f (tiers i) := by
  obtain ⟨before, values, after, heq, hbefore, hb⟩ := mem_firstHits h
  obtain ⟨fs₁, rest, rfl, rfl, hrest⟩ := List.map_eq_append_iff.mp heq
  obtain ⟨f, fs₂, rfl, rfl, -⟩ := List.map_eq_cons_iff.mp hrest
  rw [List.filterMap_some] at hb
  obtain ⟨i, hi, hb⟩ := List.mem_flatMap.mp hb
  refine ⟨fs₁, f, fs₂, i, rfl, ?_, hi, hb⟩
  intro g hg
  have hnil := hbefore _ (List.mem_map_of_mem hg)
  rwa [List.filterMap_some] at hnil

/-- The deciding search decides once the searches before it find nothing. -/
theorem head?_stagedLeads {before after : List (α → Option β)} {f : α → Option β}
    {tiers : ι → List (List α)} {blocks : List ι} {b : β}
    (hbefore : ∀ g ∈ before, leads g tiers blocks = [])
    (hb : (leads f tiers blocks).head? = some b) :
    (stagedLeads (before ++ f :: after) tiers blocks).head? = some b := by
  rw [stagedLeads, List.map_append, List.map_cons, firstHits_append]
  · exact head?_firstHits_cons (by rwa [List.filterMap_some]) _
  · intro values hvalues
    obtain ⟨g, hg, rfl⟩ := List.mem_map.mp hvalues
    rw [hbefore g hg, List.filterMap_nil]

/-- The members with a property first, both parts in their order. -/
def bringFront (p : α → Bool) (l : List α) : List α :=
  l.filter p ++ l.filter fun a => !p a

theorem bringFront_perm (p : α → Bool) (l : List α) : (bringFront p l).Perm l :=
  List.filter_append_perm p l

theorem bringFront_eq_cons {p : α → Bool} {l : List α} (hnodup : l.Nodup) {a : α} (ha : a ∈ l)
    (hp : ∀ b ∈ l, p b = true ↔ b = a) :
    bringFront p l = a :: l.filter fun b => !p b := by
  have hfilter : l.filter p = [a] := by
    apply List.perm_singleton.mp
    apply (List.perm_ext_iff_of_nodup (hnodup.filter _) (by simp)).mpr
    intro b
    rw [List.mem_filter, List.mem_singleton]
    constructor
    · rintro ⟨hb, hpb⟩
      exact (hp b hb).mp hpb
    · rintro rfl
      exact ⟨ha, (hp b ha).mpr rfl⟩
  rw [bringFront, hfilter, List.singleton_append]

/-- Where only one block contributes, the order of the blocks does not matter. -/
theorem flatMap_eq_of_perm {l l' : List ι} {f : ι → List α} (hperm : l.Perm l')
    (hnodup : l.Nodup) (hone : ∀ a ∈ l, ∀ b ∈ l, f a ≠ [] → f b ≠ [] → a = b) :
    l.flatMap f = l'.flatMap f := by
  induction hperm with
  | nil => rfl
  | cons a hrest ih =>
      rw [List.flatMap_cons, List.flatMap_cons, ih (List.nodup_cons.mp hnodup).2]
      intro b hb c hc
      exact hone b (List.mem_cons_of_mem a hb) c (List.mem_cons_of_mem a hc)
  | swap a b l =>
      have hne : b ≠ a := by
        rintro rfl
        exact (List.nodup_cons.mp hnodup).1 List.mem_cons_self
      simp only [List.flatMap_cons]
      by_cases ha : f a = []
      · simp [ha]
      · have hb : f b = [] := by
          by_contra hb
          exact hne (hone b (by simp) a (by simp) hb ha)
        simp [hb]
  | trans hfirst _ ih ih' =>
      rw [ih hnodup hone]
      apply ih' (hfirst.nodup_iff.mp hnodup)
      intro a ha b hb
      exact hone a (hfirst.mem_iff.mpr ha) b (hfirst.mem_iff.mpr hb)

end Threadctl.Support.FirstHit

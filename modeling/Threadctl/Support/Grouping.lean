import Mathlib.Data.List.Induction
import Mathlib.Data.List.Sort

/-!
# Values grouped by key

An ordered map whose keys hold lists, filled one entry at a time.  The keys ascend, a key
holds its values in the order they came, and no key is held without a value.
-/

namespace Threadctl.Support.Grouping

variable {κ ν : Type*} [LinearOrder κ]

/-- `map.entry(k).or_default().push(v)` -/
def push (k : κ) (v : ν) : List (κ × List ν) → List (κ × List ν)
  | [] => [(k, [v])]
  | (l, vs) :: rest =>
      if k < l then (k, [v]) :: (l, vs) :: rest
      else if k = l then (l, vs ++ [v]) :: rest
      else (l, vs) :: push k v rest

/-- The values that came with the key. -/
def heldAt (entries : List (κ × ν)) (k : κ) : List ν :=
  entries.filterMap fun e => if e.1 = k then some e.2 else none

theorem mem_heldAt {entries : List (κ × ν)} {k : κ} {v : ν} :
    v ∈ heldAt entries k ↔ (k, v) ∈ entries := by
  rw [heldAt, List.mem_filterMap]
  constructor
  · rintro ⟨⟨l, w⟩, hmem, hval⟩
    split at hval
    · rename_i hkey
      obtain rfl : l = k := hkey
      obtain rfl : w = v := Option.some.inj hval
      exact hmem
    · exact absurd hval (by simp)
  · intro hmem
    exact ⟨(k, v), hmem, if_pos rfl⟩

@[simp] theorem heldAt_nil (k : κ) : heldAt ([] : List (κ × ν)) k = [] := rfl

theorem heldAt_concat (entries : List (κ × ν)) (k l : κ) (v : ν) :
    heldAt (entries ++ [(k, v)]) l = heldAt entries l ++ if k = l then [v] else [] := by
  unfold heldAt
  rw [List.filterMap_append]
  by_cases h : k = l <;> simp [h]

variable {m : List (κ × List ν)} {k l : κ} {v : ν} {vs : List ν}

theorem mem_keys_push : l ∈ (push k v m).map Prod.fst ↔ l = k ∨ l ∈ m.map Prod.fst := by
  induction m with
  | nil => simp [push]
  | cons g m ih =>
      obtain ⟨n, ws⟩ := g
      unfold push
      split_ifs with hlt heq
      · simp
      · subst heq
        simp
      · simp only [List.map_cons, List.mem_cons, ih]
        tauto

theorem ascending_push (h : (m.map Prod.fst).Pairwise (· < ·)) :
    ((push k v m).map Prod.fst).Pairwise (· < ·) := by
  induction m with
  | nil => exact List.pairwise_singleton _ _
  | cons g m ih =>
      obtain ⟨n, ws⟩ := g
      obtain ⟨hfirst, hrest⟩ := List.pairwise_cons.mp h
      unfold push
      split_ifs with hlt heq
      · apply List.pairwise_cons.mpr
        refine ⟨fun l hl => ?_, h⟩
        rcases List.mem_cons.mp hl with rfl | hl
        · exact hlt
        · exact hlt.trans (hfirst l hl)
      · exact h
      · apply List.pairwise_cons.mpr
        refine ⟨fun l hl => ?_, ih hrest⟩
        rcases mem_keys_push.mp hl with rfl | hl
        · exact lt_of_le_of_ne (not_lt.mp hlt) (Ne.symm heq)
        · exact hfirst l hl

omit [LinearOrder κ] in
theorem mem_keys_of_mem (h : (l, vs) ∈ m) : l ∈ m.map Prod.fst :=
  List.mem_map_of_mem h

theorem mem_push (h : (m.map Prod.fst).Pairwise (· < ·)) :
    (l, vs) ∈ push k v m ↔
      l ≠ k ∧ (l, vs) ∈ m ∨
        l = k ∧ ((∃ ws, (k, ws) ∈ m ∧ vs = ws ++ [v]) ∨ k ∉ m.map Prod.fst ∧ vs = [v]) := by
  induction m with
  | nil => simp [push]
  | cons g m ih =>
      obtain ⟨n, ws⟩ := g
      obtain ⟨hfirst, hrest⟩ := List.pairwise_cons.mp h
      have hhead : ∀ us, (n, us) ∉ m := fun us hmem =>
        lt_irrefl n (hfirst n (mem_keys_of_mem hmem))
      unfold push
      split_ifs with hlt heq
      · -- the key comes first, so no other group has it
        have hnew : k ∉ ((n, ws) :: m).map Prod.fst := by
          intro hmem
          rcases List.mem_cons.mp hmem with rfl | hmem
          · exact lt_irrefl _ hlt
          · exact lt_asymm hlt (hfirst k hmem)
        have hnone : ∀ us, (k, us) ∉ (n, ws) :: m := fun us hmem => hnew (mem_keys_of_mem hmem)
        rw [List.mem_cons, Prod.mk.injEq]
        by_cases hl : l = k
        · subst hl
          have hnew' : l ∉ n :: m.map Prod.fst := hnew
          simp [hnone, hnew']
        · simp [hl]
      · subst heq
        by_cases hl : l = k
        · subst hl
          simp [hhead]
        · simp [hl]
      · rw [List.mem_cons, Prod.mk.injEq, ih hrest]
        by_cases hl : l = k
        · subst hl
          simp [heq]
        · simp [hl]

/-! ## Grouping -/

def group (entries : List (κ × ν)) : List (κ × List ν) :=
  entries.foldl (fun m e => push e.1 e.2 m) []

/-- `m` is what the entries are grouped into. -/
structure Groups (entries : List (κ × ν)) (m : List (κ × List ν)) : Prop where
  ascending : (m.map Prod.fst).Pairwise (· < ·)
  holds : ∀ k vs, (k, vs) ∈ m ↔ vs = heldAt entries k ∧ vs ≠ []

variable {entries : List (κ × ν)}

theorem Groups.mem_keys (h : Groups entries m) : k ∈ m.map Prod.fst ↔ heldAt entries k ≠ [] := by
  rw [List.mem_map]
  constructor
  · rintro ⟨⟨_, vs⟩, hmem, rfl⟩
    obtain ⟨rfl, hne⟩ := (h.holds _ vs).mp hmem
    exact hne
  · intro hne
    exact ⟨(k, heldAt entries k), (h.holds k _).mpr ⟨rfl, hne⟩, rfl⟩

theorem Groups.push (h : Groups entries m) (k : κ) (v : ν) :
    Groups (entries ++ [(k, v)]) (push k v m) where
  ascending := ascending_push h.ascending
  holds l vs := by
    rw [mem_push h.ascending, heldAt_concat]
    by_cases hl : l = k
    · subst hl
      have hold : ∀ ws, (l, ws) ∈ m ↔ ws = heldAt entries l ∧ ws ≠ [] := h.holds l
      simp only [ne_eq, not_true_eq_false, false_and, hold, h.mem_keys, not_not, true_and,
        false_or, if_true]
      constructor
      · rintro (⟨ws, ⟨rfl, -⟩, rfl⟩ | ⟨hnil, rfl⟩)
        · simp
        · simp [hnil]
      · rintro ⟨rfl, -⟩
        by_cases hnil : heldAt entries l = []
        · exact Or.inr ⟨hnil, by rw [hnil]; rfl⟩
        · exact Or.inl ⟨_, ⟨rfl, hnil⟩, rfl⟩
    · have hkl : ¬ k = l := fun hkl => hl hkl.symm
      simp [hl, hkl, h.holds]

theorem groups_group (entries : List (κ × ν)) : Groups entries (group entries) := by
  induction entries using List.reverseRecOn with
  | nil => exact ⟨List.Pairwise.nil, fun k vs => by simp [group]⟩
  | append_singleton entries e ih =>
      have hpush := ih.push e.1 e.2
      unfold group at hpush ⊢
      rwa [List.foldl_concat]

/-- The keys in order, each with what it holds. -/
theorem group_eq (entries : List (κ × ν)) :
    group entries = ((group entries).map Prod.fst).map fun k => (k, heldAt entries k) := by
  rw [List.map_map]
  have hid : (group entries).map id = (group entries).map
      ((fun k => (k, heldAt entries k)) ∘ Prod.fst) := by
    apply List.map_congr_left
    intro g hg
    obtain ⟨hvs, -⟩ := ((groups_group entries).holds g.1 g.2).mp hg
    exact Prod.ext rfl hvs
  rwa [List.map_id] at hid

/-- The order of the entries shows in the order of the values only. -/
theorem group_perm {entries' : List (κ × ν)} (h : entries.Perm entries') :
    (group entries').map Prod.fst = (group entries).map Prod.fst ∧
      ∀ k, (heldAt entries' k).Perm (heldAt entries k) := by
  have hheld : ∀ k, (heldAt entries' k).Perm (heldAt entries k) := fun k => h.symm.filterMap _
  refine ⟨?_, hheld⟩
  apply List.Pairwise.eq_of_mem_iff (groups_group entries').ascending
    (groups_group entries).ascending
  intro k
  rw [(groups_group entries').mem_keys, (groups_group entries).mem_keys]
  have hnil : heldAt entries' k = [] ↔ heldAt entries k = [] := by
    rw [← List.length_eq_zero_iff, (hheld k).length_eq, List.length_eq_zero_iff]
  exact not_congr hnil

theorem ascending_mergeSort (h : (entries.map Prod.fst).Nodup) :
    ((entries.mergeSort fun a b => a.1 ≤ b.1).map Prod.fst).Pairwise (· < ·) := by
  have hdistinct : ((entries.mergeSort fun a b => a.1 ≤ b.1).map Prod.fst).Nodup :=
    ((List.mergeSort_perm _ _).map Prod.fst).nodup_iff.mpr h
  have htrans : ∀ a b c : κ × ν, decide (a.1 ≤ b.1) = true → decide (b.1 ≤ c.1) = true →
      decide (a.1 ≤ c.1) = true := by
    simp only [decide_eq_true_eq]
    exact fun a b c => le_trans
  have htotal : ∀ a b : κ × ν, (decide (a.1 ≤ b.1) || decide (b.1 ≤ a.1)) = true := by
    intro a b
    rw [Bool.or_eq_true, decide_eq_true_eq, decide_eq_true_eq]
    exact le_total a.1 b.1
  have hsorted := List.pairwise_mergeSort htrans htotal entries
  rw [List.pairwise_map]
  apply hsorted.imp₂ _ (List.pairwise_map.mp hdistinct)
  intro a b hle hne
  exact lt_of_le_of_ne (of_decide_eq_true hle) hne

end Threadctl.Support.Grouping

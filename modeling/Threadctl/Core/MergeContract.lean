import Threadctl.Core.Merge
import Mathlib.Order.Bounds.Basic

/-!
# The merge of any matches

The matches may come in any order and from any of the sources.  What the merge makes of
them is stated here without sorting and without groups: `Merged` says it field by field,
and the table of the sorted groups is the only policy of which it holds.
-/

namespace Threadctl.Core

open Threadctl.Support.Ranked

/-! ## The policy of the listed rules -/

def matchedPolicy (rules : List CompiledRule) (m : RuleMatch) : Policy := rules[m.index]!.policy

/-- Some listed rule of `source` sets the field, and none of a higher source does. -/
def TopSource (found : List RuleMatch) (rules : List CompiledRule) (sets : Policy → Bool)
    (source : RuleSource) : Prop :=
  (∃ m ∈ found, m.source = source ∧ sets (matchedPolicy rules m) = true) ∧
    ∀ m ∈ found, sets (matchedPolicy rules m) = true → m.source.priority ≤ source.priority

/-- The rule of the highest source that sets the field, and the first of that source. -/
def Decides (found : List RuleMatch) (rules : List CompiledRule) (sets : Policy → Bool)
    (m : RuleMatch) : Prop :=
  Leads RuleMatch.source RuleSource.priority (fun m => sets (matchedPolicy rules m)) found m

/-- `v` is what the deciding rule says, or `unset` where no listed rule sets the field. -/
def FromDecider {β : Type} (found : List RuleMatch) (rules : List CompiledRule)
    (sets : Policy → Bool) (value : Policy → β) (unset v : β) : Prop :=
  (∃ m, Decides found rules sets m ∧ v = value (matchedPolicy rules m)) ∨
    ((∀ m ∈ found, sets (matchedPolicy rules m) = false) ∧ v = unset)

def valuesOf (found : List RuleMatch) (rules : List CompiledRule) (field : Policy → Option Nat) :
    Set Nat :=
  {v | ∃ m ∈ found, field (matchedPolicy rules m) = some v}

/-- What the listed rules give together. -/
structure Merged (found : List RuleMatch) (rules : List CompiledRule) (p : Policy) : Prop where
  cpus : (∃ source, TopSource found rules (fun pol => 0 < pol.cpus.count) source ∧
      ∀ cpu, p.cpus.isSet cpu = true ↔
        ∃ m ∈ found, m.source = source ∧ (matchedPolicy rules m).cpus.isSet cpu = true) ∨
    ((∀ m ∈ found, (matchedPolicy rules m).cpus.count = 0) ∧ p.cpus = .new)
  cpusetDir : p.cpusetDir = p.cpus.toRangeString
  sched : FromDecider found rules (·.sched.isSome) (fun pol => (pol.sched, pol.schedPrio))
    (none, none) (p.sched, p.schedPrio)
  nice : FromDecider found rules (·.nice.isSome) (·.nice) none p.nice
  uclampMin : ∀ v, p.uclampMin = some v ↔ IsGreatest (valuesOf found rules (·.uclampMin)) v
  uclampMax : ∀ v, p.uclampMax = some v ↔ IsLeast (valuesOf found rules (·.uclampMax)) v

/-! ## The groups in order -/

theorem sourcesByPriority_ranked :
    sourcesByPriority.Pairwise fun j k => k.priority < j.priority := by decide

theorem source_mem (found : List RuleMatch) : ∀ m ∈ found, m.source ∈ sourcesByPriority := by
  intro m _
  cases m.source <;> decide

theorem priority_injective : Function.Injective RuleSource.priority := by
  intro j k
  cases j <;> cases k <;> decide

def groupsOf (found : List RuleMatch) (rules : List CompiledRule) : List (List Policy) :=
  sourcesByPriority.map (policiesFrom found rules)

section Groups

variable {found : List RuleMatch} {rules : List CompiledRule}

theorem flatten_groupsOf : (groupsOf found rules).flatten =
    (classes RuleMatch.source sourcesByPriority found).map (matchedPolicy rules) := by
  rw [groupsOf, classes, List.map_flatMap, ← List.flatMap_def]
  rfl

theorem mem_flatten_groupsOf {p : Policy} :
    p ∈ (groupsOf found rules).flatten ↔ ∃ m ∈ found, matchedPolicy rules m = p := by
  rw [flatten_groupsOf, List.mem_map]
  simp only [mem_classes (source_mem found)]

theorem mem_policiesFrom {source : RuleSource} {p : Policy} :
    p ∈ policiesFrom found rules source ↔
      ∃ m ∈ found, m.source = source ∧ matchedPolicy rules m = p := by
  simp [policiesFrom, classOf, matchedPolicy, and_assoc]

/-! ## The field that the first rule decides -/

theorem decides_iff {sets : Policy → Bool} {m : RuleMatch} :
    (classes RuleMatch.source sourcesByPriority found).find? (sets ∘ matchedPolicy rules) = some m ↔
      Decides found rules sets m :=
  find?_classes_eq_some_iff sourcesByPriority_ranked (source_mem found)

theorem decides_unique {sets : Policy → Bool} {m m' : RuleMatch}
    (h : Decides found rules sets m) (h' : Decides found rules sets m') : m = m' :=
  Option.some.inj ((decides_iff.mpr h).symm.trans (decides_iff.mpr h'))

theorem Decides.mem {sets : Policy → Bool} {m : RuleMatch} (h : Decides found rules sets m) :
    m ∈ found := by
  obtain ⟨before, after, hfound, -⟩ := h.first
  rw [hfound]
  exact List.mem_append_right _ List.mem_cons_self

/-- A search through the groups finds the policy of the deciding rule, if any sets the field. -/
theorem find?_groupsOf (found : List RuleMatch) (rules : List CompiledRule) (sets : Policy → Bool) :
    (∃ m, Decides found rules sets m ∧
      (groupsOf found rules).flatten.find? sets = some (matchedPolicy rules m)) ∨
    ((∀ m ∈ found, sets (matchedPolicy rules m) = false) ∧
      (groupsOf found rules).flatten.find? sets = none) := by
  rw [flatten_groupsOf, List.find?_map]
  cases hfind : (classes RuleMatch.source sourcesByPriority found).find?
      (sets ∘ matchedPolicy rules) with
  | some m => exact Or.inl ⟨m, decides_iff.mp hfind, rfl⟩
  | none =>
      refine Or.inr ⟨fun m hm => ?_, rfl⟩
      have hmem := (mem_classes (source_mem found)).mpr hm
      simpa using List.find?_eq_none.mp hfind m hmem

theorem fromDecider_find? {β : Type} (found : List RuleMatch) (rules : List CompiledRule)
    (sets : Policy → Bool) (value : Policy → β) (unset : β) :
    FromDecider found rules sets value unset
      (((groupsOf found rules).flatten.find? sets).elim unset value) := by
  rcases find?_groupsOf found rules sets with ⟨m, hm, hfind⟩ | ⟨hnone, hfind⟩
  · rw [hfind]
    exact Or.inl ⟨m, hm, rfl⟩
  · rw [hfind]
    exact Or.inr ⟨hnone, rfl⟩

theorem fromDecider_unique {β : Type} {sets : Policy → Bool} {value : Policy → β} {unset v w : β}
    (hv : FromDecider found rules sets value unset v)
    (hw : FromDecider found rules sets value unset w) : v = w := by
  have hsets : ∀ m, Decides found rules sets m →
      ¬ ∀ m ∈ found, sets (matchedPolicy rules m) = false := by
    intro m hm hnone
    exact absurd (hm.holds.symm.trans (hnone m hm.mem)) (by simp)
  rcases hv with ⟨m, hm, rfl⟩ | ⟨hnone, rfl⟩
  · rcases hw with ⟨m', hm', rfl⟩ | ⟨hnone, -⟩
    · rw [decides_unique hm hm']
    · exact absurd hnone (hsets m hm)
  · rcases hw with ⟨m, hm, -⟩ | ⟨-, rfl⟩
    · exact absurd hnone (hsets m hm)
    · rfl

theorem topSource_unique {sets : Policy → Bool} {j k : RuleSource}
    (hj : TopSource found rules sets j) (hk : TopSource found rules sets k) : j = k := by
  obtain ⟨⟨m, hm, rfl, hset⟩, hhighest⟩ := hj
  obtain ⟨⟨m', hm', rfl, hset'⟩, hhighest'⟩ := hk
  have hle := hhighest m' hm' hset'
  have hge := hhighest' m hm hset
  exact priority_injective (by omega)

theorem groupCpusOf_policiesFrom (found : List RuleMatch) (rules : List CompiledRule)
    (source : RuleSource) :
    (groupCpusOf (policiesFrom found rules source)).isSome = true ↔
      ∃ m ∈ found, m.source = source ∧ 0 < (matchedPolicy rules m).cpus.count := by
  have hcount : 0 < (unionCpus (policiesFrom found rules source)).count ↔
      ∃ m ∈ found, m.source = source ∧ 0 < (matchedPolicy rules m).cpus.count := by
    rw [unionCpus_count_pos]
    constructor
    · rintro ⟨p, hp, hpos⟩
      obtain ⟨m, hm, hsource, rfl⟩ := mem_policiesFrom.mp hp
      exact ⟨m, hm, hsource, hpos⟩
    · rintro ⟨m, hm, hsource, hpos⟩
      exact ⟨_, mem_policiesFrom.mpr ⟨m, hm, hsource, rfl⟩, hpos⟩
  rw [← hcount, groupCpusOf]
  split <;> simp_all

theorem findSome?_groupCpusOf (found : List RuleMatch) (rules : List CompiledRule) :
    (∃ source, TopSource found rules (fun pol => 0 < pol.cpus.count) source ∧
      (groupsOf found rules).findSome? groupCpusOf =
        some (unionCpus (policiesFrom found rules source))) ∨
    ((∀ m ∈ found, (matchedPolicy rules m).cpus.count = 0) ∧
      (groupsOf found rules).findSome? groupCpusOf = none) := by
  rw [groupsOf, List.findSome?_map]
  cases hfind : sourcesByPriority.findSome? (groupCpusOf ∘ policiesFrom found rules) with
  | some cpus =>
      obtain ⟨source, -, hsource, hhighest⟩ :=
        (findSome?_ranked_iff sourcesByPriority_ranked).mp hfind
      have hunion : unionCpus (policiesFrom found rules source) = cpus := by
        rw [Function.comp, groupCpusOf] at hsource
        split at hsource
        · exact Option.some.inj hsource
        · exact absurd hsource (by simp)
      obtain ⟨m, hm, hmsource, hpos⟩ :=
        (groupCpusOf_policiesFrom found rules source).mp (Option.isSome_of_eq_some hsource)
      refine Or.inl ⟨source, ⟨⟨m, hm, hmsource, decide_eq_true hpos⟩, ?_⟩, by rw [hunion]⟩
      intro m' hm' hpos'
      exact hhighest m'.source (source_mem found m' hm')
        ((groupCpusOf_policiesFrom found rules _).mpr ⟨m', hm', rfl, of_decide_eq_true hpos'⟩)
  | none =>
      refine Or.inr ⟨fun m hm => ?_, rfl⟩
      by_contra hpos
      have hnone := List.findSome?_eq_none_iff.mp hfind m.source (source_mem found m hm)
      have hsome := (groupCpusOf_policiesFrom found rules m.source).mpr
        ⟨m, hm, rfl, Nat.pos_of_ne_zero hpos⟩
      rw [Function.comp] at hnone
      rw [hnone] at hsome
      exact absurd hsome (by simp)

theorem isSet_unionCpus_policiesFrom (source : RuleSource) (cpu : Nat) :
    (unionCpus (policiesFrom found rules source)).isSet cpu = true ↔
      ∃ m ∈ found, m.source = source ∧ (matchedPolicy rules m).cpus.isSet cpu = true := by
  rw [isSet_unionCpus]
  constructor
  · rintro ⟨p, hp, hset⟩
    obtain ⟨m, hm, hsource, rfl⟩ := mem_policiesFrom.mp hp
    exact ⟨m, hm, hsource, hset⟩
  · rintro ⟨m, hm, hsource, hset⟩
    exact ⟨_, mem_policiesFrom.mpr ⟨m, hm, hsource, rfl⟩, hset⟩

/-! ## The table is what the rules give -/

theorem mem_valuesOf {field : Policy → Option Nat} {v : Nat} :
    v ∈ (groupsOf found rules).flatten.filterMap field ↔ v ∈ valuesOf found rules field := by
  rw [List.mem_filterMap]
  constructor
  · rintro ⟨p, hp, hv⟩
    obtain ⟨m, hm, rfl⟩ := mem_flatten_groupsOf.mp hp
    exact ⟨m, hm, hv⟩
  · rintro ⟨m, hm, hv⟩
    exact ⟨_, mem_flatten_groupsOf.mpr ⟨m, hm, rfl⟩, hv⟩

theorem max?_valuesOf (field : Policy → Option Nat) (v : Nat) :
    ((groupsOf found rules).flatten.filterMap field).max? = some v ↔
      IsGreatest (valuesOf found rules field) v := by
  rw [List.max?_eq_some_iff, mem_valuesOf]
  simp only [mem_valuesOf]
  rfl

theorem min?_valuesOf (field : Policy → Option Nat) (v : Nat) :
    ((groupsOf found rules).flatten.filterMap field).min? = some v ↔
      IsLeast (valuesOf found rules field) v := by
  rw [List.min?_eq_some_iff, mem_valuesOf]
  simp only [mem_valuesOf]
  rfl

theorem findSome?_eq_bind_find? {β : Type} (field : Policy → Option β) (l : List Policy) :
    l.findSome? field = (l.find? fun p => (field p).isSome).bind field := by
  induction l with
  | nil => rfl
  | cons p l ih =>
      rw [List.findSome?_cons, List.find?_cons]
      cases hp : field p with
      | none => exact ih
      | some v => exact hp.symm

theorem merged_table : Merged found rules (strategyTable (groupsOf found rules)) where
  cpus := by
    rcases findSome?_groupCpusOf found rules with ⟨source, htop, hunion⟩ | ⟨hnone, hempty⟩
    · refine Or.inl ⟨source, htop, fun cpu => ?_⟩
      rw [strategyTable, hunion, Option.getD_some]
      exact isSet_unionCpus_policiesFrom source cpu
    · refine Or.inr ⟨hnone, ?_⟩
      rw [strategyTable, hempty, Option.getD_none]
  cpusetDir := rfl
  sched := by
    have hfrom := fromDecider_find? found rules (·.sched.isSome)
      (fun pol => (pol.sched, pol.schedPrio)) (none, none)
    rw [strategyTable]
    cases hfind : (groupsOf found rules).flatten.find? (·.sched.isSome) with
    | none => rwa [hfind] at hfrom
    | some pol => rwa [hfind] at hfrom
  nice := by
    have hfrom := fromDecider_find? found rules (·.nice.isSome) (·.nice) none
    rw [strategyTable, findSome?_eq_bind_find?]
    cases hfind : (groupsOf found rules).flatten.find? (·.nice.isSome) with
    | none => rwa [hfind] at hfrom
    | some pol => rwa [hfind] at hfrom
  uclampMin := max?_valuesOf _
  uclampMax := min?_valuesOf _

/-- The statement leaves no choice. -/
theorem merged_unique {p q : Policy} (hp : Merged found rules p) (hq : Merged found rules q) :
    p = q := by
  have hcpus : p.cpus = q.cpus := by
    rcases hp.cpus with ⟨source, htop, hset⟩ | ⟨hnone, hempty⟩
    · rcases hq.cpus with ⟨source', htop', hset'⟩ | ⟨hnone', -⟩
      · obtain rfl := topSource_unique htop htop'
        exact CpuSet.ext_isSet fun cpu => by rw [Bool.eq_iff_iff, hset, hset']
      · obtain ⟨⟨m, hm, -, hpos⟩, -⟩ := htop
        have hzero := hnone' m hm
        have hpos' := of_decide_eq_true hpos
        omega
    · rcases hq.cpus with ⟨source', ⟨⟨m, hm, -, hpos⟩, -⟩, -⟩ | ⟨-, hempty'⟩
      · have hzero := hnone m hm
        have hpos' := of_decide_eq_true hpos
        omega
      · rw [hempty, hempty']
  have hsched := fromDecider_unique hp.sched hq.sched
  have hnice := fromDecider_unique hp.nice hq.nice
  have hmin : p.uclampMin = q.uclampMin := by
    ext v
    rw [hp.uclampMin, hq.uclampMin]
  have hmax : p.uclampMax = q.uclampMax := by
    ext v
    rw [hp.uclampMax, hq.uclampMax]
  have hdir : p.cpusetDir = q.cpusetDir := by rw [hp.cpusetDir, hq.cpusetDir, hcpus]
  cases p
  cases q
  simp_all

theorem mergeRules_eq_some_iff {p : Policy} :
    mergeRules found rules = some p ↔
      (∃ m ∈ found, (matchedPolicy rules m).setsAny = true) ∧ Merged found rules p := by
  have hsets : (strategyTable (groupsOf found rules)).setsAny = true ↔
      ∃ m ∈ found, (matchedPolicy rules m).setsAny = true := by
    rw [strategyTable_setsAny]
    constructor
    · rintro ⟨p, hp, hset⟩
      obtain ⟨m, hm, rfl⟩ := mem_flatten_groupsOf.mp hp
      exact ⟨m, hm, hset⟩
    · rintro ⟨m, hm, hset⟩
      exact ⟨_, mem_flatten_groupsOf.mpr ⟨m, hm, rfl⟩, hset⟩
  have htable : mergeRules found rules = mergeTable (groupsOf found rules) :=
    mergeRules_eq_strategyTable found rules
  rw [htable, mergeTable, ← hsets]
  by_cases hset : (strategyTable (groupsOf found rules)).setsAny = true
  · rw [if_pos hset, Option.some.injEq]
    constructor
    · rintro rfl
      exact ⟨hset, merged_table⟩
    · exact fun h => merged_unique merged_table h.2
  · rw [if_neg hset]
    constructor
    · exact fun h => absurd h (by simp)
    · exact fun h => absurd h.1 hset

end Groups

/-! ## Contract: any order -/

def SameWithinSources (found' found : List RuleMatch) : Prop :=
  ∀ source, classOf RuleMatch.source source found' = classOf RuleMatch.source source found

theorem SameWithinSources.perm {found' found : List RuleMatch}
    (h : SameWithinSources found' found) : found'.Perm found := by
  have hsorted : found'.insertionSort (fun a b => b.source.priority ≤ a.source.priority) =
      found.insertionSort (fun a b => b.source.priority ≤ a.source.priority) := by
    rw [sorted_eq, sorted_eq]
    exact List.flatMap_congr fun source _ => h source
  have hperm' := List.perm_insertionSort
    (fun a b : RuleMatch => b.source.priority ≤ a.source.priority) found'
  rw [hsorted] at hperm'
  exact hperm'.symm.trans (List.perm_insertionSort _ found)

/-- The merge of any matches of any sources: none where no rule sets a field, else what the
rules give together, and the same for every order that keeps the one within each source. -/
theorem merge_of_any_matches (found : List RuleMatch) (rules : List CompiledRule) :
    (mergeRules found rules = none ↔ ∀ m ∈ found, (matchedPolicy rules m).setsAny = false) ∧
    (∀ p, mergeRules found rules = some p ↔
      (∃ m ∈ found, (matchedPolicy rules m).setsAny = true) ∧ Merged found rules p) ∧
    ∀ found', SameWithinSources found' found →
      mergeRules found' rules = mergeRules found rules := by
  refine ⟨?_, fun _ => mergeRules_eq_some_iff, ?_⟩
  · rw [Option.eq_none_iff_forall_ne_some]
    constructor
    · intro hnone m hm
      by_contra hset
      have hsome : ∃ m ∈ found, (matchedPolicy rules m).setsAny = true :=
        ⟨m, hm, Bool.eq_true_of_not_eq_false hset⟩
      exact hnone _ (mergeRules_eq_some_iff.mpr ⟨hsome, merged_table⟩)
    · intro hblank p hp
      obtain ⟨⟨m, hm, hset⟩, -⟩ := mergeRules_eq_some_iff.mp hp
      exact absurd (hset.symm.trans (hblank m hm)) (by simp)
  · intro found' hsame
    have hpolicies : policiesFrom found' rules = policiesFrom found rules := by
      funext source
      rw [policiesFrom, policiesFrom, hsame source]
    rw [mergeRules_eq_strategyTable, mergeRules_eq_strategyTable, hpolicies]

/-- Rules that set a nice value and a floor. -/
def twoRules : List CompiledRule :=
  [⟨"app", "", none, { (default : Policy) with nice := some 1, uclampMin := some 200 }⟩,
    ⟨"app", "", none, { (default : Policy) with nice := some 2, uclampMin := some 100 }⟩]

/-- A match of the higher source may stand behind one of the lower. -/
theorem merge_of_any_matches_at_twoRules :
    mergeRules [⟨0, .global⟩, ⟨1, .threadExact⟩] twoRules =
      mergeRules [⟨1, .threadExact⟩, ⟨0, .global⟩] twoRules :=
  (merge_of_any_matches [⟨1, .threadExact⟩, ⟨0, .global⟩] twoRules).2.2
    [⟨0, .global⟩, ⟨1, .threadExact⟩] fun source => by cases source <;> rfl

end Threadctl.Core

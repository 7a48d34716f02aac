import Threadctl.Core.RuleSet
import Threadctl.Support.Ranked

/-!
# Policy merge

`mergeRules` folds the matched rules of all sources into one policy.  The loop
works on a sorted list and flushes the CPU union whenever the source changes;
`mergeRules_eq_strategyTable` says that it computes the merge table field by
field.
-/

namespace Threadctl.Core

open Threadctl.Support.Ranked

/-! ## The loop -/

structure MergeState where
  cpus : CpuSet
  cpusSet : Bool
  sched : Option SchedPolicy
  schedPrio : Option Int
  nice : Option Int
  uclampMin : Option Nat
  uclampMax : Option Nat
  groupCpus : CpuSet
  groupHasCpus : Bool
  curSource : Option RuleSource

def MergeState.initial : MergeState where
  cpus := CpuSet.new
  cpusSet := false
  sched := none
  schedPrio := none
  nice := none
  uclampMin := none
  uclampMax := none
  groupCpus := CpuSet.new
  groupHasCpus := false
  curSource := none

/-- Adopt the union of the group that ends here, unless a group before it set CPUs. -/
def MergeState.flushGroup (st : MergeState) : MergeState :=
  if st.groupHasCpus ∧ ¬ st.cpusSet then
    { st with cpus := st.groupCpus, cpusSet := true }
  else st

def MergeState.enterGroup (st : MergeState) (source : RuleSource) : MergeState :=
  if st.curSource = some source then st
  else
    { st.flushGroup with
      groupCpus := CpuSet.new
      groupHasCpus := false
      curSource := some source }

def MergeState.addCpus (st : MergeState) (cpus : CpuSet) : MergeState :=
  if 0 < cpus.count then { st with groupCpus := st.groupCpus.or cpus, groupHasCpus := true }
  else st

/-- The body of the merge loop for one matched rule. -/
def mergeStep (st : MergeState) (source : RuleSource) (pol : Policy) : MergeState :=
  { (st.enterGroup source).addCpus pol.cpus with
    sched := if st.sched.isNone ∧ pol.sched.isSome then pol.sched else st.sched
    schedPrio := if st.sched.isNone ∧ pol.sched.isSome then pol.schedPrio else st.schedPrio
    nice := if st.nice.isNone then pol.nice else st.nice
    uclampMin := st.uclampMin.merge max pol.uclampMin
    uclampMax := st.uclampMax.merge min pol.uclampMax }

def mergeRules (found : List RuleMatch) (rules : List CompiledRule) : Option Policy :=
  let sorted := found.insertionSort (fun a b => b.source.priority ≤ a.source.priority)
  let st := (sorted.foldl (fun st m => mergeStep st m.source rules[m.index]!.policy)
    MergeState.initial).flushGroup
  if ¬ st.cpusSet ∧ st.sched.isNone ∧ st.nice.isNone ∧ st.uclampMin.isNone ∧
      st.uclampMax.isNone then
    none
  else
    some {
      cpus := st.cpus
      cpusetDir := st.cpus.toRangeString
      sched := st.sched
      schedPrio := st.schedPrio
      nice := st.nice
      uclampMin := st.uclampMin
      uclampMax := st.uclampMax }

/-- Fill the unset fields of `primary` from `fallback`. -/
def fillMissing (primary fallback : Policy) : Policy where
  cpus := if primary.cpus.count = 0 then fallback.cpus else primary.cpus
  cpusetDir := primary.cpusetDir
  sched := if primary.sched.isNone then fallback.sched else primary.sched
  schedPrio := if primary.sched.isNone then fallback.schedPrio else primary.schedPrio
  nice := if primary.nice.isNone then fallback.nice else primary.nice
  uclampMin := if primary.uclampMin.isNone then fallback.uclampMin else primary.uclampMin
  uclampMax := if primary.uclampMax.isNone then fallback.uclampMax else primary.uclampMax

/-! ## The strategy table -/

def unionCpus (ps : List Policy) : CpuSet :=
  ps.foldl (fun acc p => acc.or p.cpus) CpuSet.new

/-- What one source contributes to `cpus`. -/
def groupCpusOf (ps : List Policy) : Option CpuSet :=
  if 0 < (unionCpus ps).count then some (unionCpus ps) else none

/-- The merge table over the policies of each source, highest priority first:
`cpus` is the union of the first source that has any, `sched` (with its priority)
and `nice` come from the first rule that sets them, `uclamp` is the tightest bound. -/
def strategyTable (groups : List (List Policy)) : Policy :=
  let cpus := (groups.findSome? groupCpusOf).getD CpuSet.new
  let decider := groups.flatten.find? (fun p => p.sched.isSome)
  { cpus := cpus
    cpusetDir := cpus.toRangeString
    sched := decider.bind (·.sched)
    schedPrio := decider.bind (·.schedPrio)
    nice := groups.flatten.findSome? (·.nice)
    uclampMin := (groups.flatten.filterMap (·.uclampMin)).max?
    uclampMax := (groups.flatten.filterMap (·.uclampMax)).min? }

/-- A table that sets nothing is no policy. -/
def mergeTable (groups : List (List Policy)) : Option Policy :=
  if (strategyTable groups).setsAny then some (strategyTable groups) else none

theorem unionCpus_concat (ps : List Policy) (p : Policy) :
    unionCpus (ps ++ [p]) = (unionCpus ps).or p.cpus := by
  simp [unionCpus]

@[simp] theorem isSet_unionCpus {ps : List Policy} {i : Nat} :
    (unionCpus ps).isSet i = true ↔ ∃ p ∈ ps, p.cpus.isSet i = true := by
  induction ps using List.reverseRecOn with
  | nil => simp [unionCpus]
  | append_singleton ps p ih => simp [unionCpus_concat, ih]

theorem unionCpus_count_pos {ps : List Policy} :
    0 < (unionCpus ps).count ↔ ∃ p ∈ ps, 0 < p.cpus.count := by
  simp only [CpuSet.count_pos_iff, isSet_unionCpus]
  constructor
  · rintro ⟨i, p, hp, hi⟩
    exact ⟨p, hp, i, hi⟩
  · rintro ⟨p, hp, i, hi⟩
    exact ⟨i, p, hp, hi⟩

/-! ## The loop computes the table: scalar fields -/

section Scalars

variable (st : MergeState) (source : RuleSource) (pol : Policy)

theorem mergeStep_sched : (mergeStep st source pol).sched = st.sched.or pol.sched := by
  cases hs : st.sched <;> cases hp : pol.sched <;> simp [mergeStep, hs, hp]

theorem mergeStep_schedPrio : (mergeStep st source pol).schedPrio =
    if st.sched.isNone ∧ pol.sched.isSome then pol.schedPrio else st.schedPrio := rfl

theorem mergeStep_nice : (mergeStep st source pol).nice = st.nice.or pol.nice := by
  cases hs : st.nice <;> simp [mergeStep, hs]

theorem mergeStep_uclampMin :
    (mergeStep st source pol).uclampMin = st.uclampMin.merge max pol.uclampMin := rfl

theorem mergeStep_uclampMax :
    (mergeStep st source pol).uclampMax = st.uclampMax.merge min pol.uclampMax := rfl

end Scalars

def mergeLoop (st : MergeState) (l : List (RuleSource × Policy)) : MergeState :=
  l.foldl (fun st m => mergeStep st m.1 m.2) st

theorem mergeLoop_concat (st : MergeState) (l : List (RuleSource × Policy))
    (m : RuleSource × Policy) :
    mergeLoop st (l ++ [m]) = mergeStep (mergeLoop st l) m.1 m.2 := by
  simp [mergeLoop]

theorem merge_max?_concat (l : List Nat) (a : Option Nat) :
    l.max?.merge max a = (l ++ a.toList).max? := by
  cases l <;> cases a <;> simp [List.max?, Option.merge]

theorem merge_min?_concat (l : List Nat) (a : Option Nat) :
    l.min?.merge min a = (l ++ a.toList).min? := by
  cases l <;> cases a <;> simp [List.min?, Option.merge]

/-- `sched` and its priority come from one rule: the first that sets `sched`. -/
theorem mergeLoop_sched (l : List (RuleSource × Policy)) :
    let decider := (l.map Prod.snd).find? (fun p => p.sched.isSome)
    (mergeLoop MergeState.initial l).sched = decider.bind (·.sched) ∧
      (mergeLoop MergeState.initial l).schedPrio = decider.bind (·.schedPrio) := by
  induction l using List.reverseRecOn with
  | nil => simp [mergeLoop, MergeState.initial]
  | append_singleton l m ih =>
      obtain ⟨hsched, hprio⟩ := ih
      rw [mergeLoop_concat, mergeStep_sched, mergeStep_schedPrio, hsched, hprio, List.map_append,
        List.find?_append]
      cases hd : (l.map Prod.snd).find? (fun p => p.sched.isSome) with
      | none => cases hm : m.2.sched <;> simp [hm]
      | some p =>
          have hp : p.sched.isSome = true := by simpa using List.find?_some hd
          obtain ⟨v, hv⟩ := Option.isSome_iff_exists.mp hp
          simp [hv]

theorem mergeLoop_nice (l : List (RuleSource × Policy)) :
    (mergeLoop MergeState.initial l).nice = (l.map Prod.snd).findSome? (·.nice) := by
  induction l using List.reverseRecOn with
  | nil => simp [mergeLoop, MergeState.initial]
  | append_singleton l m ih =>
      rw [mergeLoop_concat, mergeStep_nice, ih, List.map_append, List.findSome?_append]
      simp

theorem mergeLoop_uclamp (l : List (RuleSource × Policy)) :
    (mergeLoop MergeState.initial l).uclampMin =
        ((l.map Prod.snd).filterMap (·.uclampMin)).max? ∧
      (mergeLoop MergeState.initial l).uclampMax =
        ((l.map Prod.snd).filterMap (·.uclampMax)).min? := by
  induction l using List.reverseRecOn with
  | nil => simp [mergeLoop, MergeState.initial]
  | append_singleton l m ih =>
      rw [mergeLoop_concat, mergeStep_uclampMin, mergeStep_uclampMax, ih.1, ih.2,
        merge_max?_concat, merge_min?_concat, List.map_append, List.filterMap_append,
        List.filterMap_append]
      constructor
      · cases hm : m.2.uclampMin <;> simp [hm]
      · cases hm : m.2.uclampMax <;> simp [hm]

/-! ## The loop computes the table: CPU groups -/

/-- The CPUs adopted once the running group is flushed. -/
def MergeState.decided (st : MergeState) : Option CpuSet :=
  if st.flushGroup.cpusSet then some st.flushGroup.cpus else none

/-- Within the group of `source`: `done` was decided by the groups before, and
`ps` are the policies of the group so far. -/
structure InGroup (source : RuleSource) (done : Option CpuSet) (ps : List Policy)
    (st : MergeState) : Prop where
  source_eq : st.curSource = some source
  set_eq : st.cpusSet = done.isSome
  cpus_eq : st.cpus = done.getD CpuSet.new
  union_eq : st.groupCpus = unionCpus ps
  has_eq : st.groupHasCpus = decide (0 < (unionCpus ps).count)

theorem InGroup.decided {source : RuleSource} {done : Option CpuSet} {ps : List Policy}
    {st : MergeState} (h : InGroup source done ps st) :
    st.decided = done.or (groupCpusOf ps) := by
  have hset := h.set_eq
  have hcpus := h.cpus_eq
  have hhas := h.has_eq
  unfold MergeState.decided MergeState.flushGroup groupCpusOf
  cases done <;> by_cases hc : 0 < (unionCpus ps).count <;>
    simp_all [h.union_eq]

theorem inGroup_addCpus {source : RuleSource} {done : Option CpuSet} {ps : List Policy}
    {st : MergeState} (h : InGroup source done ps st) (p : Policy) :
    InGroup source done (ps ++ [p]) (st.addCpus p.cpus) := by
  have hcount : 0 < (unionCpus (ps ++ [p])).count ↔
      0 < (unionCpus ps).count ∨ 0 < p.cpus.count := by
    simp [unionCpus_count_pos, or_and_right, exists_or]
  unfold MergeState.addCpus
  by_cases hp : 0 < p.cpus.count
  · rw [if_pos hp]
    exact ⟨h.source_eq, h.set_eq, h.cpus_eq, by simp [h.union_eq, unionCpus_concat],
      by simp [hcount, hp]⟩
  · have hempty : p.cpus = CpuSet.new := CpuSet.count_eq_zero.mp (by omega)
    have hsame : unionCpus (ps ++ [p]) = unionCpus ps := by
      rw [unionCpus_concat, hempty]
      exact CpuSet.ext_isSet fun i => by simp
    rw [if_neg hp]
    exact ⟨h.source_eq, h.set_eq, h.cpus_eq, by rw [hsame]; exact h.union_eq,
      by rw [hsame]; exact h.has_eq⟩

/-- CPUs that were never adopted are the empty set. -/
def MergeState.Tidy (st : MergeState) : Prop :=
  st.cpusSet = false → st.cpus = CpuSet.new

theorem tidy_initial : MergeState.initial.Tidy := fun _ => rfl

theorem InGroup.tidy {source : RuleSource} {done : Option CpuSet} {ps : List Policy}
    {st : MergeState} (h : InGroup source done ps st) : st.Tidy := by
  intro hset
  have hnone : done = none := by simpa [h.set_eq] using hset
  rw [h.cpus_eq, hnone, Option.getD_none]

theorem MergeState.Tidy.flushGroup_cpus {st : MergeState} (h : st.Tidy) :
    st.flushGroup.cpus = st.decided.getD CpuSet.new := by
  unfold MergeState.decided
  by_cases hset : st.flushGroup.cpusSet = true
  · rw [if_pos hset, Option.getD_some]
  · have hkeep : st.flushGroup = st := by
      unfold MergeState.flushGroup at hset ⊢
      split at hset
      · simp at hset
      · rw [if_neg (by assumption)]
    rw [hkeep] at hset
    rw [hkeep, if_neg hset, Option.getD_none, h (by simpa using hset)]

theorem inGroup_enterGroup {source : RuleSource} {st : MergeState} (htidy : st.Tidy)
    (hsource : st.curSource ≠ some source) :
    InGroup source st.decided [] (st.enterGroup source) := by
  have hcpus := htidy.flushGroup_cpus
  unfold MergeState.enterGroup
  rw [if_neg hsource]
  refine ⟨rfl, ?_, hcpus, rfl, ?_⟩
  · unfold MergeState.decided
    cases st.flushGroup.cpusSet <;> simp
  · have hzero : CpuSet.new.count = 0 := CpuSet.count_eq_zero.mpr rfl
    simp [unionCpus, hzero]

theorem inGroup_mergeLoop {source : RuleSource} {st : MergeState} (htidy : st.Tidy)
    (hsource : st.curSource ≠ some source) {ps : List Policy} (hps : ps ≠ []) :
    InGroup source st.decided ps (mergeLoop st (ps.map (source, ·))) := by
  induction ps using List.reverseRecOn with
  | nil => exact absurd rfl hps
  | append_singleton ps p ih =>
      rw [List.map_append, List.map_singleton, mergeLoop_concat]
      have hentered : InGroup source st.decided ps
          ((mergeLoop st (ps.map (source, ·))).enterGroup source) := by
        by_cases hnil : ps = []
        · subst hnil
          exact inGroup_enterGroup htidy hsource
        · have h := ih hnil
          rw [MergeState.enterGroup, if_pos h.source_eq]
          exact h
      have h := inGroup_addCpus hentered p
      exact ⟨h.source_eq, h.set_eq, h.cpus_eq, h.union_eq, h.has_eq⟩

/-- The loop over whole groups decides the CPUs of the first group that has any. -/
theorem mergeLoop_groups (policies : RuleSource → List Policy) {ks : List RuleSource}
    (hks : ks.Nodup) {st : MergeState} (htidy : st.Tidy)
    (hfresh : ∀ k ∈ ks, st.curSource ≠ some k) :
    let st' := mergeLoop st (ks.flatMap fun k => (policies k).map (k, ·))
    st'.Tidy ∧ st'.decided = st.decided.or (ks.findSome? fun k => groupCpusOf (policies k)) := by
  induction ks generalizing st with
  | nil => simpa [mergeLoop] using htidy
  | cons k ks ih =>
      rw [List.nodup_cons] at hks
      have happend : ∀ l, mergeLoop st ((policies k).map (k, ·) ++ l) =
          mergeLoop (mergeLoop st ((policies k).map (k, ·))) l := by
        intro l
        simp [mergeLoop]
      rw [List.flatMap_cons, happend, List.findSome?_cons]
      by_cases hempty : policies k = []
      · have hnone : groupCpusOf ([] : List Policy) = none := by decide
        rw [hempty, hnone]
        exact ih hks.2 htidy fun j hj => hfresh j (by simp [hj])
      · have hgroup := inGroup_mergeLoop htidy (hfresh k (by simp)) hempty
        have hfresh' : ∀ j ∈ ks,
            (mergeLoop st ((policies k).map (k, ·))).curSource ≠ some j := by
          intro j hj heq
          rw [hgroup.source_eq] at heq
          exact hks.1 (Option.some.inj heq ▸ hj)
        obtain ⟨htidy', hdecided⟩ := ih hks.2 hgroup.tidy hfresh'
        refine ⟨htidy', hdecided.trans ?_⟩
        rw [hgroup.decided]
        cases st.decided <;> cases groupCpusOf (policies k) <;> simp

/-! ## `mergeRules` is the table -/

def sourcesByPriority : List RuleSource :=
  [.threadExact, .threadType, .packageExact, .packageWildcard, .group, .profile, .global]

theorem nodup_sourcesByPriority : sourcesByPriority.Nodup := by decide

def policiesFrom (found : List RuleMatch) (rules : List CompiledRule) (source : RuleSource) :
    List Policy :=
  (classOf RuleMatch.source source found).map fun m => rules[m.index]!.policy

theorem sorted_eq (found : List RuleMatch) :
    found.insertionSort (fun a b => b.source.priority ≤ a.source.priority) =
      sourcesByPriority.flatMap fun k => classOf RuleMatch.source k found := by
  apply insertionSort_eq_classes
  · decide
  · intro m _
    cases m.source <;> decide

theorem mergeRules_loop (found : List RuleMatch) (rules : List CompiledRule) :
    (found.insertionSort (fun a b => b.source.priority ≤ a.source.priority)).foldl
        (fun st m => mergeStep st m.source rules[m.index]!.policy) MergeState.initial =
      mergeLoop MergeState.initial
        (sourcesByPriority.flatMap fun k => (policiesFrom found rules k).map (k, ·)) := by
  have hgroups : (sourcesByPriority.flatMap fun k => (policiesFrom found rules k).map (k, ·)) =
      (sourcesByPriority.flatMap fun k => classOf RuleMatch.source k found).map
        fun m => (m.source, rules[m.index]!.policy) := by
    rw [List.map_flatMap]
    apply List.flatMap_congr
    intro k _
    rw [policiesFrom, List.map_map]
    apply List.map_congr_left
    intro m hm
    have hk : m.source = k := by simpa [classOf] using (List.mem_filter.mp hm).2
    simp [hk]
  rw [sorted_eq, hgroups, mergeLoop, List.foldl_map]

theorem flushGroup_scalars (st : MergeState) :
    st.flushGroup.sched = st.sched ∧ st.flushGroup.schedPrio = st.schedPrio ∧
      st.flushGroup.nice = st.nice ∧ st.flushGroup.uclampMin = st.uclampMin ∧
      st.flushGroup.uclampMax = st.uclampMax := by
  unfold MergeState.flushGroup
  split <;> simp

theorem count_pos_of_groupCpusOf {ps : List Policy} {cpus : CpuSet}
    (h : groupCpusOf ps = some cpus) : 0 < cpus.count := by
  unfold groupCpusOf at h
  split at h
  · rwa [← Option.some.inj h]
  · simp at h

theorem strategyTable_cpus_pos (groups : List (List Policy)) :
    decide (0 < (strategyTable groups).cpus.count) = (groups.findSome? groupCpusOf).isSome := by
  unfold strategyTable
  cases hfind : groups.findSome? groupCpusOf with
  | none =>
      have hzero : CpuSet.new.count = 0 := CpuSet.count_eq_zero.mpr rfl
      simp [hzero]
  | some cpus =>
      obtain ⟨ps, -, hps⟩ := List.exists_of_findSome?_eq_some hfind
      simpa using count_pos_of_groupCpusOf hps

/-- The flushed loop state over whole groups holds the table's fields. -/
theorem flushGroup_mergeLoop (policies : RuleSource → List Policy) {ks : List RuleSource}
    (hks : ks.Nodup) :
    let st := (mergeLoop MergeState.initial
      (ks.flatMap fun k => (policies k).map (k, ·))).flushGroup
    let table := strategyTable (ks.map policies)
    st.cpusSet = decide (0 < table.cpus.count) ∧ st.cpus = table.cpus ∧
      st.sched = table.sched ∧ st.schedPrio = table.schedPrio ∧ st.nice = table.nice ∧
      st.uclampMin = table.uclampMin ∧ st.uclampMax = table.uclampMax := by
  have hflat : (ks.flatMap fun k => (policies k).map (k, ·)).map Prod.snd =
      (ks.map policies).flatten := by
    rw [List.map_flatMap, ← List.flatMap_def]
    apply List.flatMap_congr
    intro k _
    simp
  have hsched := mergeLoop_sched (ks.flatMap fun k => (policies k).map (k, ·))
  have hnice := mergeLoop_nice (ks.flatMap fun k => (policies k).map (k, ·))
  have huclamp := mergeLoop_uclamp (ks.flatMap fun k => (policies k).map (k, ·))
  obtain ⟨htidy, hdecided⟩ := mergeLoop_groups policies hks tidy_initial
    (by simp [MergeState.initial])
  rw [hflat] at hsched hnice huclamp
  generalize mergeLoop MergeState.initial
    (ks.flatMap fun k => (policies k).map (k, ·)) = st at *
  have hgroups : st.decided = (ks.map policies).findSome? groupCpusOf := by
    rw [hdecided, List.findSome?_map]
    rfl
  obtain ⟨f₁, f₂, f₃, f₄, f₅⟩ := flushGroup_scalars st
  refine ⟨?_, ?_, f₁.trans hsched.1, f₂.trans hsched.2, f₃.trans hnice, f₄.trans huclamp.1,
    f₅.trans huclamp.2⟩
  · rw [strategyTable_cpus_pos, ← hgroups, MergeState.decided]
    cases st.flushGroup.cpusSet <;> simp
  · rw [htidy.flushGroup_cpus, hgroups]
    rfl

/-- The merge loop computes the strategy table over the policies of each source. -/
theorem mergeRules_eq_strategyTable (found : List RuleMatch) (rules : List CompiledRule) :
    mergeRules found rules = mergeTable (sourcesByPriority.map (policiesFrom found rules)) := by
  obtain ⟨hset, hcpus, hsched, hprio, hnice, hmin, hmax⟩ :=
    flushGroup_mergeLoop (policiesFrom found rules) nodup_sourcesByPriority
  have hdir : (strategyTable (sourcesByPriority.map (policiesFrom found rules))).cpusetDir =
      (strategyTable (sourcesByPriority.map (policiesFrom found rules))).cpus.toRangeString := rfl
  rw [mergeRules, mergeRules_loop]
  simp only [hset, hcpus, hsched, hprio, hnice, hmin, hmax, mergeTable, ← hdir]
  generalize strategyTable (sourcesByPriority.map (policiesFrom found rules)) = table
  have hblank : (¬ decide (0 < table.cpus.count) = true ∧ table.sched.isNone = true ∧
      table.nice.isNone = true ∧ table.uclampMin.isNone = true ∧ table.uclampMax.isNone = true) ↔
      ¬ table.setsAny = true := by
    simp [Policy.setsAny]
    tauto
  rw [if_congr hblank rfl rfl, ite_not]

/-! ## What a table sets -/

theorem strategyTable_sched_isSome (groups : List (List Policy)) :
    (strategyTable groups).sched.isSome = true ↔
      ∃ p ∈ groups.flatten, p.sched.isSome = true := by
  unfold strategyTable
  cases hfind : groups.flatten.find? (fun p => p.sched.isSome) with
  | none =>
      have hall := List.find?_eq_none.mp hfind
      simp only [Option.bind_none, Option.isSome_none, Bool.false_eq_true, false_iff]
      rintro ⟨p, hp, hsched⟩
      exact hall p hp hsched
  | some p =>
      have hp := List.find?_some hfind
      have hmem := List.mem_of_find?_eq_some hfind
      simp only [Option.bind_some]
      exact ⟨fun _ => ⟨p, hmem, hp⟩, fun _ => hp⟩

theorem strategyTable_nice_isSome (groups : List (List Policy)) :
    (strategyTable groups).nice.isSome = true ↔
      ∃ p ∈ groups.flatten, p.nice.isSome = true := by
  rw [strategyTable, List.findSome?_isSome_iff]

theorem strategyTable_cpus_isSome (groups : List (List Policy)) :
    0 < (strategyTable groups).cpus.count ↔ ∃ p ∈ groups.flatten, 0 < p.cpus.count := by
  have hgroup : ∀ ps, (groupCpusOf ps).isSome = true ↔ ∃ p ∈ ps, 0 < p.cpus.count := by
    intro ps
    rw [← unionCpus_count_pos, groupCpusOf]
    split <;> simp_all
  rw [← decide_eq_true_iff (p := 0 < _), strategyTable_cpus_pos, List.findSome?_isSome_iff]
  simp only [hgroup, List.mem_flatten]
  constructor
  · rintro ⟨ps, hps, p, hp, hpos⟩
    exact ⟨p, ⟨ps, hps, hp⟩, hpos⟩
  · rintro ⟨p, ⟨ps, hps, hp⟩, hpos⟩
    exact ⟨ps, hps, p, hp, hpos⟩

theorem strategyTable_uclamp_isSome (groups : List (List Policy)) :
    ((strategyTable groups).uclampMin.isSome = true ↔
        ∃ p ∈ groups.flatten, p.uclampMin.isSome = true) ∧
      ((strategyTable groups).uclampMax.isSome = true ↔
        ∃ p ∈ groups.flatten, p.uclampMax.isSome = true) := by
  have hmax : ∀ l : List Nat, l.max?.isSome = true ↔ ∃ n, n ∈ l := by
    intro l
    cases l <;> simp [List.max?]
  have hmin : ∀ l : List Nat, l.min?.isSome = true ↔ ∃ n, n ∈ l := by
    intro l
    cases l <;> simp [List.min?]
  constructor
  · simp only [strategyTable, hmax, List.mem_filterMap, Option.isSome_iff_exists]
    exact ⟨fun ⟨n, p, hp, hn⟩ => ⟨p, hp, n, hn⟩, fun ⟨p, hp, n, hn⟩ => ⟨n, p, hp, hn⟩⟩
  · simp only [strategyTable, hmin, List.mem_filterMap, Option.isSome_iff_exists]
    exact ⟨fun ⟨n, p, hp, hn⟩ => ⟨p, hp, n, hn⟩, fun ⟨p, hp, n, hn⟩ => ⟨n, p, hp, hn⟩⟩

theorem strategyTable_setsAny (groups : List (List Policy)) :
    (strategyTable groups).setsAny = true ↔ ∃ p ∈ groups.flatten, p.setsAny = true := by
  obtain ⟨hmin, hmax⟩ := strategyTable_uclamp_isSome groups
  simp only [Policy.setsAny, Bool.or_eq_true, decide_eq_true_iff, strategyTable_cpus_isSome,
    strategyTable_sched_isSome, strategyTable_nice_isSome, hmin, hmax, and_or_left, exists_or]

end Threadctl.Core

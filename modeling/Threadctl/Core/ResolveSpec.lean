import Threadctl.Core.Resolve

/-!
# What `resolve` answers

For every field the answer is the value of the counting rules of the deciding
source.  The last section says exactly when there is no answer.
-/

namespace Threadctl.Core

/-! ## The deciding source -/

def Policy.setsCpus (p : Policy) : Bool := 0 < p.cpus.count
def Policy.setsSched (p : Policy) : Bool := p.sched.isSome
def Policy.setsNice (p : Policy) : Bool := p.nice.isSome

/-- The exact rules if any of them sets the field, otherwise the wildcard rules. -/
def decidingSource (sets : Policy → Bool) (exact wildcard : List CompiledRule) :
    List CompiledRule :=
  if exact.any (fun r => sets r.policy) then exact else wildcard

def ruleCpus (rules : List CompiledRule) : CpuSet :=
  unionCpus (rules.map (·.policy))

def firstSched (rules : List CompiledRule) : Option SchedPolicy × Option Int :=
  match rules.find? (fun r => r.policy.setsSched) with
  | some r => (r.policy.sched, r.policy.schedPrio)
  | none => (none, none)

def firstNice (rules : List CompiledRule) : Option Int :=
  rules.findSome? (·.policy.nice)

def sourceTable (exact wildcard : List CompiledRule) : Policy :=
  strategyTable [exact.map (·.policy), wildcard.map (·.policy)]

variable (exact wildcard : List CompiledRule)

theorem unionCpus_eq_new {ps : List Policy} (h : ¬ 0 < (unionCpus ps).count) :
    unionCpus ps = CpuSet.new :=
  CpuSet.count_eq_zero.mp (by omega)

theorem sourceTable_cpus :
    (sourceTable exact wildcard).cpus =
      ruleCpus (decidingSource Policy.setsCpus exact wildcard) := by
  have hany : exact.any (fun r => r.policy.setsCpus) = true ↔
      0 < (unionCpus (exact.map (·.policy))).count := by
    simp [unionCpus_count_pos, Policy.setsCpus]
  have hwild : (groupCpusOf (wildcard.map (·.policy))).getD CpuSet.new = ruleCpus wildcard := by
    unfold groupCpusOf ruleCpus
    split
    · rfl
    · exact (unionCpus_eq_new (by assumption)).symm
  unfold sourceTable strategyTable decidingSource
  by_cases hexact : 0 < (unionCpus (exact.map (·.policy))).count
  · rw [if_pos (hany.mpr hexact)]
    simp [groupCpusOf, hexact, ruleCpus]
  · rw [if_neg (fun h => hexact (hany.mp h)), ← hwild]
    have hnone : groupCpusOf (exact.map (·.policy)) = none := by simp [groupCpusOf, hexact]
    simp only [List.findSome?_cons, hnone, List.findSome?_nil]
    cases groupCpusOf (wildcard.map (·.policy)) <;> rfl

theorem find?_decidingSource (sets : Policy → Bool) :
    (exact ++ wildcard).find? (fun r => sets r.policy) =
      (decidingSource sets exact wildcard).find? (fun r => sets r.policy) := by
  rw [List.find?_append, decidingSource]
  by_cases hexact : exact.any (fun r => sets r.policy) = true
  · rw [if_pos hexact, Option.or_of_isSome]
    rwa [List.find?_isSome, ← List.any_eq_true]
  · have hnone : exact.find? (fun r => sets r.policy) = none := by
      simpa using hexact
    rw [if_neg hexact, hnone, Option.none_or]

theorem sourceTable_sched :
    ((sourceTable exact wildcard).sched, (sourceTable exact wildcard).schedPrio) =
      firstSched (decidingSource Policy.setsSched exact wildcard) := by
  have hfind : [exact.map (·.policy), wildcard.map (·.policy)].flatten.find?
      (fun p => p.sched.isSome) =
        ((exact ++ wildcard).find? (fun r => r.policy.setsSched)).map (·.policy) := by
    rw [List.flatten_cons, List.flatten_cons, List.flatten_nil, List.append_nil,
      ← List.map_append, List.find?_map]
    rfl
  unfold sourceTable strategyTable firstSched
  rw [hfind, find?_decidingSource]
  cases (decidingSource Policy.setsSched exact wildcard).find? (fun r => r.policy.setsSched) <;> rfl

theorem findSome?_of_forall_none {α β : Type} {f : α → Option β} {l : List α}
    (h : l.any (fun a => (f a).isSome) = false) : l.findSome? f = none := by
  rw [List.findSome?_eq_none_iff]
  intro a ha
  simpa using List.any_eq_false.mp h a ha

theorem sourceTable_nice :
    (sourceTable exact wildcard).nice =
      firstNice (decidingSource Policy.setsNice exact wildcard) := by
  have hflat : (sourceTable exact wildcard).nice = firstNice (exact ++ wildcard) := by
    unfold sourceTable strategyTable firstNice
    rw [List.flatten_cons, List.flatten_cons, List.flatten_nil, List.append_nil,
      ← List.map_append, List.findSome?_map]
    rfl
  rw [hflat, firstNice, List.findSome?_append, decidingSource, firstNice]
  by_cases hexact : exact.any (fun r => r.policy.setsNice) = true
  · rw [if_pos hexact, Option.or_of_isSome]
    rwa [List.findSome?_isSome_iff, ← List.any_eq_true]
  · rw [if_neg hexact, findSome?_of_forall_none (by simpa [Policy.setsNice] using hexact),
      Option.none_or]

theorem strategyTable_setsCpus (groups : List (List Policy)) :
    (strategyTable groups).setsCpus = true ↔ ∃ p ∈ groups.flatten, p.setsCpus = true := by
  simpa [Policy.setsCpus] using strategyTable_cpus_isSome groups

/-! ## `resolve` as one overlay -/

theorem strategyTable_blank {groups : List (List Policy)}
    (h : (strategyTable groups).setsAny = false) : strategyTable groups = strategyTable [] := by
  have hcpus : (strategyTable groups).cpus = CpuSet.new :=
    CpuSet.count_eq_zero.mp (by simp_all [Policy.setsAny])
  have hsched : groups.flatten.find? (fun p => p.sched.isSome) = none := by
    rw [List.find?_eq_none]
    intro p hp hset
    have := (strategyTable_sched_isSome groups).mpr ⟨p, hp, hset⟩
    simp_all [Policy.setsAny]
  have hnice : (strategyTable groups).nice = none := by simp_all [Policy.setsAny]
  have hmin : (strategyTable groups).uclampMin = none := by simp_all [Policy.setsAny]
  have hmax : (strategyTable groups).uclampMax = none := by simp_all [Policy.setsAny]
  unfold strategyTable at hcpus hnice hmin hmax ⊢
  simp only [hsched] at hcpus hnice hmin hmax ⊢
  simp only [hcpus, hnice, hmin, hmax]
  rfl

theorem strategyTable_schedPrio {groups : List (List Policy)}
    (h : (strategyTable groups).sched = none) : (strategyTable groups).schedPrio = none := by
  have hfind : groups.flatten.find? (fun p => p.sched.isSome) = none := by
    rw [List.find?_eq_none]
    intro p hp hset
    have := (strategyTable_sched_isSome groups).mpr ⟨p, hp, hset⟩
    simp [h] at this
  simp [strategyTable, hfind]

theorem finish_congr {p q : Policy} (h : { p with cpusetDir := "" } = { q with cpusetDir := "" }) :
    finish p = finish q := by
  simp only [Policy.mk.injEq] at h
  obtain ⟨h₁, -, h₂, h₃, h₄, h₅, h₆⟩ := h
  simp [finish, h₁, h₂, h₃, h₄, h₅, h₆]

theorem finish_fillMissing_blank (groups : List (List Policy)) :
    finish (fillMissing (strategyTable groups) (strategyTable [])) =
      finish (strategyTable groups) := by
  apply finish_congr
  simp only [fillMissing, Policy.mk.injEq, true_and]
  refine ⟨?_, ?_, ?_, ?_, ?_, ?_⟩
  · split
    · rename_i h
      rw [CpuSet.count_eq_zero.mp h]
      rfl
    · rfl
  · cases (strategyTable groups).sched <;> rfl
  · cases h : (strategyTable groups).sched
    · rw [strategyTable_schedPrio h]
      rfl
    · rfl
  · cases (strategyTable groups).nice <;> rfl
  · cases (strategyTable groups).uclampMin <;> rfl
  · cases (strategyTable groups).uclampMax <;> rfl

theorem finish_blank_fillMissing (p : Policy) :
    finish (fillMissing (strategyTable []) p) = finish p := by
  apply finish_congr
  have hzero : (strategyTable []).cpus.count = 0 := by decide
  have hsched : (strategyTable []).sched = none := rfl
  have hnice : (strategyTable []).nice = none := rfl
  have hmin : (strategyTable []).uclampMin = none := rfl
  have hmax : (strategyTable []).uclampMax = none := rfl
  simp [fillMissing, hzero, hsched, hnice, hmin, hmax]

section Fields

variable (fnmatch : String → String → Bool) (thread : String)

def threadTable : Policy :=
  sourceTable (exact.filter (·.hitsThread fnmatch thread))
    (wildcard.filter (·.hitsThread fnmatch thread))

def pkgTable : Policy :=
  sourceTable (exact.filter (·.isPkgLevel)) (wildcard.filter (·.isPkgLevel))

theorem finish_blank {p : Policy} (h : p.setsAny = false) : finish p = none := by
  unfold finish
  rw [if_pos]
  simp_all [Policy.setsAny]

theorem mergeSources_eq :
    mergeSources exact wildcard =
      if (sourceTable exact wildcard).setsAny then some (sourceTable exact wildcard) else none :=
  rfl

theorem threadTable_of_no_hit
    (h : ¬ (exact ++ wildcard).any (·.hitsThread fnmatch thread) = true) :
    threadTable exact wildcard fnmatch thread = strategyTable [] := by
  have hnohit : ∀ l : List CompiledRule, (∀ r ∈ l, r ∈ exact ++ wildcard) →
      l.filter (·.hitsThread fnmatch thread) = [] := by
    intro l hl
    rw [List.filter_eq_nil_iff]
    intro r hr hset
    exact h (List.any_eq_true.mpr ⟨r, hl r hr, hset⟩)
  have hblank : sourceTable [] [] = strategyTable [] := by decide
  rw [threadTable, hnohit exact (by simp +contextual), hnohit wildcard (by simp +contextual),
    hblank]

theorem sourceTable_filter_sets_iff {sets : Policy → Bool}
    (h : ∀ groups, sets (strategyTable groups) = true ↔ ∃ p ∈ groups.flatten, sets p = true)
    (keep : CompiledRule → Bool) :
    sets (sourceTable (exact.filter keep) (wildcard.filter keep)) = true ↔
      ∃ r ∈ exact ++ wildcard, keep r = true ∧ sets r.policy = true := by
  have hflat : [(exact.filter keep).map (·.policy), (wildcard.filter keep).map (·.policy)].flatten =
      ((exact ++ wildcard).filter keep).map (·.policy) := by
    simp
  rw [sourceTable, h, hflat]
  constructor
  · rintro ⟨p, hp, hset⟩
    obtain ⟨r, hr, rfl⟩ := List.mem_map.mp hp
    exact ⟨r, (List.mem_filter.mp hr).1, (List.mem_filter.mp hr).2, hset⟩
  · rintro ⟨r, hr, hkeep, hset⟩
    exact ⟨r.policy, List.mem_map_of_mem (List.mem_filter.mpr ⟨hr, hkeep⟩), hset⟩

/-- The package-level table fills the gaps of the thread table; but thread hits
that set nothing at all end the lookup. -/
theorem resolveRules_eq :
    resolveRules fnmatch thread exact wildcard =
      if (exact ++ wildcard).any (·.hitsThread fnmatch thread) = true ∧
          (threadTable exact wildcard fnmatch thread).setsAny = false then none
      else finish (fillMissing (threadTable exact wildcard fnmatch thread)
        (pkgTable exact wildcard)) := by
  have hfill : (pkgTable exact wildcard).setsAny = false →
      finish (fillMissing (threadTable exact wildcard fnmatch thread)
        (pkgTable exact wildcard)) = finish (threadTable exact wildcard fnmatch thread) := by
    intro hpkg
    have hblank : pkgTable exact wildcard = strategyTable [] := strategyTable_blank hpkg
    rw [hblank]
    exact finish_fillMissing_blank _
  have hnohit := threadTable_of_no_hit exact wildcard fnmatch thread
  unfold resolveRules
  rw [mergeSources_eq, mergeSources_eq]
  change (if (exact ++ wildcard).any (·.hitsThread fnmatch thread) = true then
      Option.map (inherit · (if (pkgTable exact wildcard).setsAny then
        some (pkgTable exact wildcard) else none))
        (if (threadTable exact wildcard fnmatch thread).setsAny then
          some (threadTable exact wildcard fnmatch thread) else none)
    else if (pkgTable exact wildcard).setsAny then some (pkgTable exact wildcard)
    else none).bind finish = _
  by_cases hhit : (exact ++ wildcard).any (·.hitsThread fnmatch thread) = true
  · rw [if_pos hhit]
    cases hthread : (threadTable exact wildcard fnmatch thread).setsAny with
    | false => simp [hhit]
    | true =>
        cases hpkg : (pkgTable exact wildcard).setsAny with
        | true => simp [inherit]
        | false => simp [inherit, hfill hpkg]
  · have hguard : ¬ ((exact ++ wildcard).any (·.hitsThread fnmatch thread) = true ∧
        (threadTable exact wildcard fnmatch thread).setsAny = false) := fun h => hhit h.1
    rw [if_neg hhit, if_neg hguard, hnohit hhit, finish_blank_fillMissing]
    cases hpkg : (pkgTable exact wildcard).setsAny with
    | true => simp
    | false => simp [finish_blank hpkg]

/-! ## The value of each field -/

/-- The rules of one source that count for a field: the thread rules that hit, if
one of them (in either source) sets it, otherwise the package-level rules. -/
def countingRules (sets : Policy → Bool) (source : List CompiledRule) : List CompiledRule :=
  if (exact ++ wildcard).any (fun r => r.hitsThread fnmatch thread && sets r.policy) then
    source.filter (·.hitsThread fnmatch thread)
  else source.filter (·.isPkgLevel)

def decidingRules (sets : Policy → Bool) : List CompiledRule :=
  decidingSource sets (countingRules exact wildcard fnmatch thread sets exact)
    (countingRules exact wildcard fnmatch thread sets wildcard)

theorem threadTable_sets_iff {sets : Policy → Bool}
    (h : ∀ groups, sets (strategyTable groups) = true ↔ ∃ p ∈ groups.flatten, sets p = true) :
    sets (threadTable exact wildcard fnmatch thread) = true ↔
      (exact ++ wildcard).any (fun r => r.hitsThread fnmatch thread && sets r.policy) = true := by
  rw [threadTable, sourceTable_filter_sets_iff exact wildcard h, List.any_eq_true]
  simp only [Bool.and_eq_true]

theorem fillMissing_field {γ : Type} {sets : Policy → Bool} (val : Policy → γ)
    (ref : List CompiledRule → List CompiledRule → γ)
    (hsets : ∀ groups, sets (strategyTable groups) = true ↔ ∃ p ∈ groups.flatten, sets p = true)
    (hfill : ∀ p q, val (fillMissing p q) = if sets p then val p else val q)
    (hval : ∀ e w, val (sourceTable e w) = ref e w) :
    val (fillMissing (threadTable exact wildcard fnmatch thread) (pkgTable exact wildcard)) =
      ref (countingRules exact wildcard fnmatch thread sets exact)
        (countingRules exact wildcard fnmatch thread sets wildcard) := by
  have hthread := threadTable_sets_iff exact wildcard fnmatch thread hsets
  unfold countingRules
  rw [hfill]
  by_cases h : sets (threadTable exact wildcard fnmatch thread) = true
  · rw [if_pos h, if_pos (hthread.mp h), if_pos (hthread.mp h), threadTable, hval]
  · have hnot := fun ha => h (hthread.mpr ha)
    rw [if_neg h, if_neg hnot, if_neg hnot, pkgTable, hval]

/-- The first-wins fields and the CPUs of the overlay are those of the counting rules
of the deciding source. -/
theorem fillMissing_fields :
    let p := fillMissing (threadTable exact wildcard fnmatch thread) (pkgTable exact wildcard)
    p.cpus = ruleCpus (decidingRules exact wildcard fnmatch thread Policy.setsCpus) ∧
      (p.sched, p.schedPrio) =
        firstSched (decidingRules exact wildcard fnmatch thread Policy.setsSched) ∧
      p.nice = firstNice (decidingRules exact wildcard fnmatch thread Policy.setsNice) := by
  refine ⟨?_, ?_, ?_⟩
  · apply fillMissing_field _ _ _ _ (·.cpus) _ strategyTable_setsCpus _ sourceTable_cpus
    intro p q
    by_cases h : p.cpus.count = 0
    · simp [fillMissing, Policy.setsCpus, h]
    · simp [fillMissing, Policy.setsCpus, h, Nat.pos_of_ne_zero h]
  · apply fillMissing_field _ _ _ _ (fun p => (p.sched, p.schedPrio)) _
      strategyTable_sched_isSome _ sourceTable_sched
    intro p q
    cases h : p.sched <;> simp [fillMissing, Policy.setsSched, h]
  · apply fillMissing_field _ _ _ _ (·.nice) _ strategyTable_nice_isSome _ sourceTable_nice
    intro p q
    cases h : p.nice <;> simp [fillMissing, Policy.setsNice, h]

/-- The constraints: the tightest bound among the counting rules of both sources. -/
theorem fillMissing_uclamp :
    let counting := fun sets => countingRules exact wildcard fnmatch thread sets exact ++
      countingRules exact wildcard fnmatch thread sets wildcard
    let p := fillMissing (threadTable exact wildcard fnmatch thread) (pkgTable exact wildcard)
    p.uclampMin =
        ((counting (·.uclampMin.isSome)).filterMap (·.policy.uclampMin)).max? ∧
      p.uclampMax =
        ((counting (·.uclampMax.isSome)).filterMap (·.policy.uclampMax)).min? := by
  have hflat : ∀ (e w : List CompiledRule) (bound : Policy → Option Nat),
      [e.map (·.policy), w.map (·.policy)].flatten.filterMap bound =
        (e ++ w).filterMap fun r => bound r.policy := by
    intro e w bound
    simp [List.filterMap_map]
  constructor
  · apply fillMissing_field _ _ _ _ (·.uclampMin)
      (fun e w => ((e ++ w).filterMap (·.policy.uclampMin)).max?)
      (fun groups => (strategyTable_uclamp_isSome groups).1)
    · intro p q
      cases h : p.uclampMin <;> simp [fillMissing, h]
    · intro e w
      rw [← hflat]
      rfl
  · apply fillMissing_field _ _ _ _ (·.uclampMax)
      (fun e w => ((e ++ w).filterMap (·.policy.uclampMax)).min?)
      (fun groups => (strategyTable_uclamp_isSome groups).2)
    · intro p q
      cases h : p.uclampMax <;> simp [fillMissing, h]
    · intro e w
      rw [← hflat]
      rfl

end Fields

theorem eq_fillMissing_of_resolve {fnmatch : String → String → Bool} {rs : RuleSet}
    {pkg thread : String} {p : Policy} (h : rs.resolve fnmatch pkg thread = some p) :
    let filled := fillMissing
      (threadTable (rs.exactRules pkg) (rs.wildcardRules fnmatch pkg) fnmatch thread)
      (pkgTable (rs.exactRules pkg) (rs.wildcardRules fnmatch pkg))
    p = { filled with cpusetDir := filled.cpus.toRangeString } := by
  rw [resolve_eq, resolveRules_eq] at h
  split at h
  · exact absurd h (by simp)
  · exact eq_of_finish h

/-! ## Contract: the fields of the answer -/

/-- `cpus`, `sched` with its priority, and `nice` of the answer are those of the
counting rules of the deciding source. -/
theorem resolve_fields (fnmatch : String → String → Bool) (rs : RuleSet) (pkg thread : String)
    (p : Policy) (h : rs.resolve fnmatch pkg thread = some p) :
    let exact := rs.exactRules pkg
    let wildcard := rs.wildcardRules fnmatch pkg
    p.cpus = ruleCpus (decidingRules exact wildcard fnmatch thread Policy.setsCpus) ∧
      (p.sched, p.schedPrio) =
        firstSched (decidingRules exact wildcard fnmatch thread Policy.setsSched) ∧
      p.nice = firstNice (decidingRules exact wildcard fnmatch thread Policy.setsNice) := by
  intro exact wildcard
  have hfields := fillMissing_fields exact wildcard fnmatch thread
  simp only [eq_fillMissing_of_resolve h]
  exact hfields

theorem resolve_fields_at_com_a :
    ∃ p, (compile [.ofCpus "com.a" "" "0-3", .ofCpus "com.*" "Render*" "4-7"]
        (.flat 8)).rules.resolve glob "com.a" "RenderThread" = some p ∧
      p.cpus = parseCpuRanges "4-7" none := by
  have hsome : (compile [.ofCpus "com.a" "" "0-3", .ofCpus "com.*" "Render*" "4-7"]
      (.flat 8)).rules.resolve glob "com.a" "RenderThread" =
        some ⟨parseCpuRanges "4-7" none, "4-7", none, none, none, none, none⟩ := by
    decide +kernel
  refine ⟨_, hsome, ?_⟩
  rw [(resolve_fields glob _ _ _ _ hsome).1]
  decide +kernel

/-- A rule whose package name is a pattern is not found under that very name: the
first of two tied patterns answers. -/
theorem resolve_pattern_as_package :
    let rs := (compile [.ofCpus "a*" "" "0", .ofCpus "a?" "" "1"] (.flat 8)).rules
    (rs.resolve glob "a?" "main").map (·.cpus) = some (parseCpuRanges "0" none) ∧
      ruleCpus (decidingRules (rs.rules.filter fun r => decide (r.pkg = "a?"))
        (rs.wildcardRules glob "a?") glob "main" Policy.setsCpus) = parseCpuRanges "1" none ∧
      parseCpuRanges "0" none ≠ parseCpuRanges "1" none := by
  decide +kernel

/-! ## Contract: when there is no answer -/

/-- The fields the final check of `resolve` looks at. -/
def Policy.setsPlacement (p : Policy) : Bool :=
  p.setsCpus || p.setsSched || p.setsNice

theorem strategyTable_setsPlacement (groups : List (List Policy)) :
    (strategyTable groups).setsPlacement = true ↔
      ∃ p ∈ groups.flatten, p.setsPlacement = true := by
  have hsched := strategyTable_sched_isSome groups
  have hnice := strategyTable_nice_isSome groups
  simp only [Policy.setsPlacement, Bool.or_eq_true, strategyTable_setsCpus, Policy.setsSched,
    Policy.setsNice, hsched, hnice, and_or_left, exists_or]

theorem finish_eq_none_iff (p : Policy) : finish p = none ↔ p.setsPlacement = false := by
  unfold finish Policy.setsPlacement Policy.setsCpus Policy.setsSched Policy.setsNice
  cases p.sched <;> cases p.nice <;> simp

theorem fillMissing_setsCpus (p q : Policy) :
    (fillMissing p q).setsCpus = (p.setsCpus || q.setsCpus) := by
  unfold fillMissing Policy.setsCpus
  by_cases h : p.cpus.count = 0
  · simp [h]
  · simp [h, Nat.pos_of_ne_zero h]

theorem fillMissing_setsPlacement (p q : Policy) :
    (fillMissing p q).setsPlacement = (p.setsPlacement || q.setsPlacement) := by
  have hsched : (fillMissing p q).setsSched = (p.setsSched || q.setsSched) := by
    unfold fillMissing Policy.setsSched
    cases p.sched <;> simp
  have hnice : (fillMissing p q).setsNice = (p.setsNice || q.setsNice) := by
    unfold fillMissing Policy.setsNice
    cases p.nice <;> simp
  unfold Policy.setsPlacement
  rw [fillMissing_setsCpus, hsched, hnice]
  cases p.setsCpus <;> cases q.setsCpus <;> cases p.setsSched <;> cases q.setsSched <;> simp

/-- A rule that applies to a thread: package-level, or a thread rule that hits. -/
def CompiledRule.applies (fnmatch : String → String → Bool) (thread : String)
    (r : CompiledRule) : Bool :=
  r.isPkgLevel || r.hitsThread fnmatch thread

def RuleSet.applicableRules (fnmatch : String → String → Bool) (rs : RuleSet)
    (pkg thread : String) : List CompiledRule :=
  (rs.exactRules pkg ++ rs.wildcardRules fnmatch pkg).filter (·.applies fnmatch thread)

section Applicable

variable (fnmatch : String → String → Bool) (rs : RuleSet) (pkg thread : String)

theorem mem_applicableRules {r : CompiledRule} :
    r ∈ rs.applicableRules fnmatch pkg thread ↔
      r ∈ rs.exactRules pkg ++ rs.wildcardRules fnmatch pkg ∧
        (r.isPkgLevel = true ∨ r.hitsThread fnmatch thread = true) := by
  rw [RuleSet.applicableRules, List.mem_filter, CompiledRule.applies, Bool.or_eq_true]

theorem any_hitsThread_iff :
    (rs.exactRules pkg ++ rs.wildcardRules fnmatch pkg).any (·.hitsThread fnmatch thread) = true ↔
      ∃ r ∈ rs.applicableRules fnmatch pkg thread, r.hitsThread fnmatch thread = true := by
  rw [List.any_eq_true]
  constructor
  · rintro ⟨r, hr, hhit⟩
    exact ⟨r, (mem_applicableRules ..).mpr ⟨hr, Or.inr hhit⟩, hhit⟩
  · rintro ⟨r, hr, hhit⟩
    exact ⟨r, ((mem_applicableRules ..).mp hr).1, hhit⟩

theorem threadTable_setsAny_iff :
    (threadTable (rs.exactRules pkg) (rs.wildcardRules fnmatch pkg) fnmatch thread).setsAny =
        true ↔
      ∃ r ∈ rs.applicableRules fnmatch pkg thread,
        r.hitsThread fnmatch thread = true ∧ r.policy.setsAny = true := by
  rw [threadTable, sourceTable_filter_sets_iff _ _ strategyTable_setsAny]
  constructor
  · rintro ⟨r, hr, hhit, hset⟩
    exact ⟨r, (mem_applicableRules ..).mpr ⟨hr, Or.inr hhit⟩, hhit, hset⟩
  · rintro ⟨r, hr, hhit, hset⟩
    exact ⟨r, ((mem_applicableRules ..).mp hr).1, hhit, hset⟩

theorem overlay_sets_iff {sets : Policy → Bool}
    (hfill : ∀ p q, sets (fillMissing p q) = (sets p || sets q))
    (htable : ∀ groups, sets (strategyTable groups) = true ↔ ∃ p ∈ groups.flatten, sets p = true)
    (exact wildcard : List CompiledRule) :
    sets (fillMissing (threadTable exact wildcard fnmatch thread) (pkgTable exact wildcard)) =
        true ↔
      ∃ r ∈ (exact ++ wildcard).filter (·.applies fnmatch thread), sets r.policy = true := by
  rw [hfill, Bool.or_eq_true, threadTable, pkgTable, sourceTable_filter_sets_iff _ _ htable,
    sourceTable_filter_sets_iff _ _ htable]
  simp only [List.mem_filter, CompiledRule.applies, Bool.or_eq_true]
  constructor
  · rintro (⟨r, hr, hhit, hset⟩ | ⟨r, hr, hlevel, hset⟩)
    · exact ⟨r, ⟨hr, Or.inr hhit⟩, hset⟩
    · exact ⟨r, ⟨hr, Or.inl hlevel⟩, hset⟩
  · rintro ⟨r, ⟨hr, hlevel | hhit⟩, hset⟩
    · exact Or.inr ⟨r, hr, hlevel, hset⟩
    · exact Or.inl ⟨r, hr, hhit, hset⟩

theorem overlay_setsPlacement_iff :
    (fillMissing (threadTable (rs.exactRules pkg) (rs.wildcardRules fnmatch pkg) fnmatch thread)
        (pkgTable (rs.exactRules pkg) (rs.wildcardRules fnmatch pkg))).setsPlacement = true ↔
      ∃ r ∈ rs.applicableRules fnmatch pkg thread, r.policy.setsPlacement = true :=
  overlay_sets_iff fnmatch thread fillMissing_setsPlacement strategyTable_setsPlacement _ _

/-- The three emptiness tests together: no answer when the thread rules that hit
set nothing at all, or when no rule that applies sets `cpus`, `sched` or `nice`. -/
theorem resolve_eq_none_iff :
    rs.resolve fnmatch pkg thread = none ↔
      ((∃ r ∈ rs.applicableRules fnmatch pkg thread, r.hitsThread fnmatch thread = true) ∧
        ¬ ∃ r ∈ rs.applicableRules fnmatch pkg thread,
          r.hitsThread fnmatch thread = true ∧ r.policy.setsAny = true) ∨
      ¬ ∃ r ∈ rs.applicableRules fnmatch pkg thread, r.policy.setsPlacement = true := by
  rw [resolve_eq, resolveRules_eq, ← any_hitsThread_iff, ← threadTable_setsAny_iff,
    ← overlay_setsPlacement_iff, Bool.not_eq_true, Bool.not_eq_true, ← finish_eq_none_iff]
  split
  · rename_i hguard
    exact ⟨fun _ => Or.inl hguard, fun _ => rfl⟩
  · rename_i hguard
    exact ⟨Or.inr, fun h => h.resolve_left hguard⟩

theorem setsAny_of_setsPlacement {p : Policy} (h : p.setsPlacement = true) :
    p.setsAny = true := by
  simp only [Policy.setsPlacement, Policy.setsCpus, Policy.setsSched, Policy.setsNice] at h
  simp [Policy.setsAny, h]

/-- "No answer exactly when no rule that applies sets a field" holds if and only if
whenever some rule sets a field, some rule sets `cpus`, `sched` or `nice`, and the
thread rules that hit are not all blank. -/
theorem resolve_none_iff_nothing_set :
    (rs.resolve fnmatch pkg thread = none ↔
        ¬ ∃ r ∈ rs.applicableRules fnmatch pkg thread, r.policy.setsAny = true) ↔
      ((∃ r ∈ rs.applicableRules fnmatch pkg thread, r.policy.setsAny = true) →
        (∃ r ∈ rs.applicableRules fnmatch pkg thread, r.policy.setsPlacement = true) ∧
        ((∃ r ∈ rs.applicableRules fnmatch pkg thread, r.hitsThread fnmatch thread = true) →
          ∃ r ∈ rs.applicableRules fnmatch pkg thread,
            r.hitsThread fnmatch thread = true ∧ r.policy.setsAny = true)) := by
  have hplace : (∃ r ∈ rs.applicableRules fnmatch pkg thread, r.policy.setsPlacement = true) →
      ∃ r ∈ rs.applicableRules fnmatch pkg thread, r.policy.setsAny = true :=
    fun ⟨r, hr, hset⟩ => ⟨r, hr, setsAny_of_setsPlacement hset⟩
  rw [resolve_eq_none_iff]
  by_cases hany : ∃ r ∈ rs.applicableRules fnmatch pkg thread, r.policy.setsAny = true
  · simp only [hany, not_true_eq_false, iff_false, not_or, not_and, not_not, forall_const]
    exact and_comm
  · simp only [hany, not_false_eq_true, iff_true, false_imp_iff]
    exact Or.inr (mt hplace hany)

end Applicable

/-- A package whose only rule sets `uclamp_min` has no policy. -/
theorem resolve_uclamp_only :
    let rs := (compile [⟨"com.a", "", "", none, none, some 300, none⟩] (.flat 8)).rules
    rs.resolve glob "com.a" "main" = none ∧
      ∃ r ∈ rs.applicableRules glob "com.a" "main", r.policy.setsAny = true := by
  decide +kernel

end Threadctl.Core

import Threadctl.Core.PackageMatch
import Threadctl.Core.RangeCodec
import Threadctl.Core.Stages

/-!
# The shape of resolved policies

Compilation, merging and gap filling keep to the present CPUs and to the priorities that
come with a scheduling class.  The directory name is written last, from the final CPUs.
-/

namespace Threadctl.Core

theorem CpuSet.isEmpty_iff {s : CpuSet} : s.isEmpty = true ↔ s.count = 0 := by
  rw [CpuSet.isEmpty, List.all_eq_true, CpuSet.count, List.sum_eq_zero_iff_forall_eq_nat]
  simp [countOnes_eq_zero]

theorem CpuSet.toRangeString_eq_empty_iff {s : CpuSet} :
    s.toRangeString = "" ↔ s.isEmpty = true := by
  rw [CpuSet.isEmpty_iff]
  constructor
  · intro htext
    by_contra hcount
    exact CpuSet.toRangeString_ne_empty (Nat.pos_of_ne_zero hcount) htext
  · intro hcount
    rw [CpuSet.count_eq_zero.mp hcount]
    decide

/-! ## What every step keeps -/

/-- A policy within the present CPUs whose priority belongs to a scheduling class. -/
structure Policy.Sane (present : CpuSet) (p : Policy) : Prop where
  cpus : p.cpus.within present
  prio : p.schedPrio.isSome = true → p.sched.isSome = true

theorem CpuSet.new_within (s : CpuSet) : CpuSet.new.within s := by
  intro i hi
  rw [CpuSet.isSet_new] at hi
  exact absurd hi Bool.false_ne_true

theorem sane_policy (topo : CpuTopology) (rc : RuleConfig) :
    (rc.policy topo).Sane topo.presentCpus where
  cpus := by
    intro i hi
    have hcpus : (rc.policy topo).cpus =
        (parseCpuRanges rc.cpus none).and topo.presentCpus := by
      rw [← parseCpuRanges_present]
      rfl
    rw [hcpus, CpuSet.isSet_and, Bool.and_eq_true] at hi
    exact hi.2
  prio := by
    unfold RuleConfig.policy
    cases rc.schedSpec with
    | none => exact fun h => absurd h Bool.false_ne_true
    | some spec => exact fun _ => rfl

section Merging

variable {present : CpuSet}

theorem unionCpus_within {ps : List Policy} (h : ∀ p ∈ ps, p.Sane present) :
    (unionCpus ps).within present := by
  intro i hi
  obtain ⟨p, hp, hset⟩ := isSet_unionCpus.mp hi
  exact (h p hp).cpus i hset

/-- The table takes its CPUs from one source and `sched` with its priority from one rule. -/
theorem sane_strategyTable {groups : List (List Policy)}
    (h : ∀ p ∈ groups.flatten, p.Sane present) : (strategyTable groups).Sane present where
  cpus := by
    unfold strategyTable
    cases hfind : groups.findSome? groupCpusOf with
    | none => exact CpuSet.new_within present
    | some cpus =>
        obtain ⟨ps, hps, hcpus⟩ := List.exists_of_findSome?_eq_some hfind
        unfold groupCpusOf at hcpus
        split at hcpus
        · rw [← Option.some.inj hcpus]
          exact unionCpus_within fun p hp => h p (List.mem_flatten.mpr ⟨ps, hps, hp⟩)
        · exact absurd hcpus (by simp)
  prio := by
    intro hprio
    by_contra hsched
    have hnone : (strategyTable groups).sched = none := by simpa using hsched
    rw [strategyTable_schedPrio hnone] at hprio
    exact Bool.false_ne_true hprio

theorem sane_fillMissing {p q : Policy} (hp : p.Sane present) (hq : q.Sane present) :
    (fillMissing p q).Sane present where
  cpus := by
    unfold fillMissing
    dsimp only
    split
    · exact hq.cpus
    · exact hp.cpus
  prio := by
    unfold fillMissing
    dsimp only
    split
    · exact hq.prio
    · exact hp.prio

end Merging

/-! ## Resolved policies -/

section Resolved

variable (fnmatch : String → String → Bool)

theorem sane_sourceTable {present : CpuSet} {rules exact wildcard : List CompiledRule}
    (h : ∀ r ∈ rules, r.policy.Sane present) (hexact : exact ⊆ rules)
    (hwildcard : wildcard ⊆ rules) : (sourceTable exact wildcard).Sane present := by
  apply sane_strategyTable
  intro p hp
  simp only [List.flatten_cons, List.flatten_nil, List.append_nil, List.mem_append,
    List.mem_map] at hp
  rcases hp with ⟨r, hr, rfl⟩ | ⟨r, hr, rfl⟩
  · exact h r (hexact hr)
  · exact h r (hwildcard hr)

theorem sane_overlay {present : CpuSet} {rules : List CompiledRule}
    (h : ∀ r ∈ rules, r.policy.Sane present) (pkg thread : String) (group : Option String) :
    (overlay fnmatch pkg thread group rules).Sane present := by
  have hsub (keep keep' : CompiledRule → Bool) : (rules.filter keep).filter keep' ⊆ rules :=
    List.Subset.trans (List.filter_subset_self _) (List.filter_subset_self _)
  unfold overlay threadTable pkgTable
  apply sane_fillMissing
  · exact sane_sourceTable h (hsub _ _) (hsub _ _)
  · exact sane_sourceTable h (hsub _ _) (hsub _ _)

/-- What a rule set resolves to is as sane as its rules, and its directory is that of its
CPUs. -/
theorem sane_resolve {present : CpuSet} {rs : RuleSet} {pkg thread : String} {p : Policy}
    (hrules : ∀ r ∈ rs.rules, r.policy.Sane present)
    (h : rs.resolve fnmatch pkg thread = some p) :
    p.Sane present ∧ p.cpusetDir = p.cpus.toRangeString := by
  rcases resolve_cases fnmatch pkg thread rs with ⟨-, hnone⟩ | ⟨-, hsome⟩
  · rw [hnone] at h
    exact absurd h (by simp)
  · have hoverlay := sane_overlay fnmatch hrules pkg thread (rs.chosenPattern fnmatch pkg)
    generalize overlay fnmatch pkg thread (rs.chosenPattern fnmatch pkg) rs.rules = merged at *
    rw [hsome, Option.some.injEq] at h
    subst h
    exact ⟨⟨hoverlay.cpus, hoverlay.prio⟩, rfl⟩

/-- A policy that fits its topology and whose directory names exactly its CPUs. -/
structure Policy.WellFormed (topo : CpuTopology) (p : Policy) : Prop where
  present : ∀ i, p.cpus.isSet i = true → topo.presentCpus.isSet i = true
  dir : parseCpuRanges p.cpusetDir none = p.cpus
  dir_empty : p.cpusetDir = "" ↔ p.cpus.isEmpty = true
  prio : p.schedPrio.isSome = true → p.sched.isSome = true

theorem wellFormed_of_sane {topo : CpuTopology} {p : Policy} (h : p.Sane topo.presentCpus)
    (hdir : p.cpusetDir = p.cpus.toRangeString) : p.WellFormed topo where
  present := h.cpus
  dir := by rw [hdir, parseCpuRanges_toRangeString]
  dir_empty := by rw [hdir, CpuSet.toRangeString_eq_empty_iff]
  prio := h.prio

theorem Policy.WellFormed.cpusetDir_eq_iff {topo topo' : CpuTopology} {p q : Policy}
    (hp : p.WellFormed topo) (hq : q.WellFormed topo')
    (hpdir : p.cpusetDir = p.cpus.toRangeString) (hqdir : q.cpusetDir = q.cpus.toRangeString) :
    p.cpusetDir = q.cpusetDir ↔ p.cpus = q.cpus := by
  constructor
  · intro hdir
    rw [← hp.dir, hdir, hq.dir]
  · intro hcpus
    rw [hpdir, hqdir, hcpus]

theorem resolve_shape (configs : List RuleConfig) (topo : CpuTopology) {pkg thread : String}
    {p : Policy} (h : (compile configs topo).rules.resolve fnmatch pkg thread = some p) :
    p.Sane topo.presentCpus ∧ p.cpusetDir = p.cpus.toRangeString := by
  refine sane_resolve fnmatch (fun r hr => ?_) h
  obtain ⟨rc, -, -, rfl⟩ := mem_compile_rules.mp hr
  exact sane_policy topo rc

/-- Whatever a compiled rule set resolves to is well formed, and two resolved policies
share a cpuset directory exactly when their CPU sets are equal. -/
theorem resolved_well_formed (configs : List RuleConfig) (topo : CpuTopology)
    (pkg thread : String) (p : Policy)
    (h : (compile configs topo).rules.resolve fnmatch pkg thread = some p) :
    p.WellFormed topo ∧
      ∀ (configs' : List RuleConfig) (topo' : CpuTopology) (pkg' thread' : String) (q : Policy),
        (compile configs' topo').rules.resolve fnmatch pkg' thread' = some q →
          (p.cpusetDir = q.cpusetDir ↔ p.cpus = q.cpus) := by
  obtain ⟨hsane, hdir⟩ := resolve_shape fnmatch configs topo h
  refine ⟨wellFormed_of_sane hsane hdir, fun configs' topo' pkg' thread' q h' => ?_⟩
  obtain ⟨hsane', hdir'⟩ := resolve_shape fnmatch configs' topo' h'
  exact (wellFormed_of_sane hsane hdir).cpusetDir_eq_iff (wellFormed_of_sane hsane' hdir') hdir
    hdir'

end Resolved

theorem resolved_well_formed_at_com_a :
    Policy.WellFormed (.flat 4) ⟨.firstN 2, "0-1", none, none, none, none, none⟩ :=
  (resolved_well_formed glob [.ofCpus "com.a" "" "0-1,6"] (.flat 4) "com.a" "" _
    (by decide +kernel)).1

end Threadctl.Core

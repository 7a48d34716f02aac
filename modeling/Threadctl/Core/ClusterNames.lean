import Threadctl.Core.Config
import Threadctl.Core.RangeText

/-!
# Clusters by name

The CPUs are grouped by capacity and every group is given a kind.  A policy names a
kind and gets the first cluster of it; from five groups on more than one cluster may be
a big one.
-/

namespace Threadctl.Core

open Threadctl.Support.Text

/-! ## The source's functions -/

/-- The CPUs of one capacity. -/
structure CapacityGroup where
  capacity : Nat
  cpus : List Nat
  deriving DecidableEq

def allBigMinCapacity : Nat := 300

/-- The quotient of two `u32` is less than `2.0` in `f64` exactly when it is less than two;
for a smallest capacity of zero it is `f64::MAX`. -/
def isAllBig (minCap maxCap : Nat) : Bool :=
  decide (maxCap < 2 * minCap) && decide (allBigMinCapacity < minCap)

def kindAt (n i : Nat) : CpuClusterKind :=
  if i = 0 then .little
  else if i = n - 1 then .prime
  else if 4 ≤ n ∧ i = 1 then .mid
  else .big

def classifyClusters (groups : List CapacityGroup) : List CpuClusterKind :=
  match groups with
  | [] => []
  | [_] => [.unknown]
  | [lowest, highest] =>
      if isAllBig lowest.capacity highest.capacity then [.big, .prime] else [.little, .big]
  | _ => (List.range groups.length).map (kindAt groups.length)

def clusterOf (group : CapacityGroup) (kind : CpuClusterKind) : CpuCluster :=
  let cpus := group.cpus.foldl CpuSet.set .new
  ⟨kind, cpus, cpus.toRangeString, group.capacity⟩

/-- The clusters of the groups read from sysfs; without any, one of the online CPUs. -/
def detectClusters (online : Option String) (groups : List CapacityGroup) : List CpuCluster :=
  if groups.isEmpty then
    let cpus := (online.map fun text => parseCpuRanges (trim text) none).getD .new
    [⟨.unknown, cpus, cpus.toRangeString, 0⟩]
  else (groups.zip (classifyClusters groups)).map fun gk => clusterOf gk.1 gk.2

/-! ## Which kinds repeat -/

variable {groups : List CapacityGroup}

theorem classifyClusters_of_three (h : 3 ≤ groups.length) :
    classifyClusters groups = (List.range groups.length).map (kindAt groups.length) := by
  match groups, h with
  | _ :: _ :: _ :: _, _ => rfl

theorem length_classifyClusters (groups : List CapacityGroup) :
    (classifyClusters groups).length = groups.length := by
  match groups with
  | [] => rfl
  | [_] => rfl
  | [lowest, highest] => simp only [classifyClusters]; split <;> rfl
  | _ :: _ :: _ :: _ => simp [classifyClusters]

theorem kind_of_three (h : 3 ≤ groups.length) {i : Nat} (hi : i < groups.length) :
    (classifyClusters groups)[i]? = some (kindAt groups.length i) := by
  rw [classifyClusters_of_three h, List.getElem?_map, List.getElem?_range hi]
  rfl

theorem kindAt_eq_big_iff {n i : Nat} (hn : 5 ≤ n) (hi : i < n) :
    kindAt n i = .big ↔ 2 ≤ i ∧ i + 1 < n := by
  unfold kindAt
  split_ifs <;> simp <;> omega

theorem kinds_of_two_ne (lowest highest : CapacityGroup) :
    (classifyClusters [lowest, highest])[0]? ≠ (classifyClusters [lowest, highest])[1]? := by
  simp only [classifyClusters]
  split <;> simp

theorem kind_big_iff (h : 5 ≤ groups.length) {i : Nat} (hi : i < groups.length) :
    (classifyClusters groups)[i]? = some .big ↔ 2 ≤ i ∧ i + 1 < groups.length := by
  rw [kind_of_three (by omega) hi, Option.some.injEq, kindAt_eq_big_iff h hi]

/-- Only the big kind is given twice, and only from the third group on. -/
theorem kind_repeats {k : CpuClusterKind} {i j : Nat} (hij : i < j)
    (hi : (classifyClusters groups)[i]? = some k) (hj : (classifyClusters groups)[j]? = some k) :
    k = .big ∧ 5 ≤ groups.length ∧ j + 1 < groups.length := by
  have hlt : j < groups.length := by
    rw [← length_classifyClusters groups]
    exact (List.getElem?_eq_some_iff.mp hj).1
  by_cases hthree : 3 ≤ groups.length
  · rw [kind_of_three hthree (hij.trans hlt), Option.some.injEq] at hi
    rw [kind_of_three hthree hlt, Option.some.injEq] at hj
    rw [← hj] at hi ⊢
    unfold kindAt at hi ⊢
    split_ifs at hi ⊢ <;> simp at hi ⊢ <;> omega
  · have htwo : groups.length = 2 := by omega
    obtain rfl : j = 1 := by omega
    obtain rfl : i = 0 := by omega
    obtain ⟨lowest, highest, rfl⟩ := List.length_eq_two.mp htwo
    exact absurd (hi.trans hj.symm) (kinds_of_two_ne lowest highest)

theorem isSet_foldl_set (cpus : List Nat) (set : CpuSet) (i : Nat) :
    (cpus.foldl CpuSet.set set).isSet i = true ↔
      set.isSet i = true ∨ i ∈ cpus ∧ i < cpuSetSize := by
  induction cpus generalizing set with
  | nil => simp
  | cons c cpus ih =>
      rw [List.foldl_cons, ih, CpuSet.isSet_set, Bool.or_eq_true, Bool.and_eq_true,
        decide_eq_true_iff, decide_eq_true_iff, List.mem_cons, eq_comm (a := i)]
      show _ ∨ i ∈ cpus ∧ i < 1024 ↔ _ ∨ (c = i ∨ i ∈ cpus) ∧ i < 1024
      tauto

theorem rule_of_first (online : Option String) {k : CpuClusterKind} {g : CapacityGroup}
    (hfind : ((groups.zip (classifyClusters groups)).find? fun gk => gk.2 = k) = some (g, k))
    {pol : PolicyModel} {name : String} (hcpus : pol.cpus = none)
    (hcluster : pol.cluster = some name) (hname : toLowercase name = k.lowerName)
    (pkg thread : String) :
    ∃ rc, policyToRules pkg thread pol (detectClusters online groups) = [rc] ∧
      ∀ cpu, (parseCpuRanges rc.cpus none).isSet cpu = true ↔
        cpu ∈ g.cpus ∧ cpu < cpuSetSize := by
  have hany : hasAnyPolicy pol = true := by simp [hasAnyPolicy, hasCpus, hcluster]
  have hne : groups.isEmpty = false := by
    rcases groups with _ | ⟨g', groups⟩
    · simp at hfind
    · rfl
  have hlower : Function.Injective CpuClusterKind.lowerName := by
    intro a b
    cases a <;> cases b <;> decide
  have hcluster' : (detectClusters online groups).find?
      (fun c => c.kind.lowerName = toLowercase name) = some (clusterOf g k) := by
    rw [detectClusters, hne, if_neg Bool.false_ne_true, List.find?_map]
    have hsame : ((fun c : CpuCluster => decide (c.kind.lowerName = toLowercase name)) ∘
        fun gk : CapacityGroup × CpuClusterKind => clusterOf gk.1 gk.2) =
          fun gk => decide (gk.2 = k) := by
      funext gk
      simp only [Function.comp, clusterOf, hname, hlower.eq_iff]
    rw [hsame, hfind]
    rfl
  have htext : cpusText pol (detectClusters online groups) = (clusterOf g k).rangeStr := by
    rw [cpusText, hcpus, hcluster, Option.none_or, Option.bind_some, clusterRange, hcluster']
    rfl
  refine ⟨ruleOf pkg thread pol (detectClusters online groups), by rw [policyToRules, if_pos hany],
    fun cpu => ?_⟩
  have hparse : parseCpuRanges (ruleOf pkg thread pol (detectClusters online groups)).cpus none =
      g.cpus.foldl CpuSet.set .new := by
    show parseCpuRanges (cpusText pol (detectClusters online groups)) none = _
    rw [htext]
    exact parseCpuRanges_toRangeString _
  rw [hparse, isSet_foldl_set, CpuSet.isSet_new]
  simp

/-! ## Names and classes -/

def InKind (groups : List CapacityGroup) (k : CpuClusterKind) (cpu : Nat) : Prop :=
  ∃ g, (g, k) ∈ groups.zip (classifyClusters groups) ∧ cpu ∈ g.cpus

/-- Every policy that names `k` gets exactly the CPUs of all groups of that kind. -/
def NamesKind (online : Option String) (groups : List CapacityGroup) (k : CpuClusterKind) : Prop :=
  ∀ pkg thread pol name, pol.cpus = none → pol.cluster = some name →
    toLowercase name = k.lowerName →
      ∃ rc, policyToRules pkg thread pol (detectClusters online groups) = [rc] ∧
        ∀ cpu, (parseCpuRanges rc.cpus none).isSet cpu = true ↔ InKind groups k cpu

def Addressable (online : Option String) (groups : List CapacityGroup) (cpu : Nat) : Prop :=
  ∃ k ∈ classifyClusters groups, ∃ rc,
    policyToRules "" "" { PolicyModel.default with cluster := some k.lowerName }
      (detectClusters online groups) = [rc] ∧ (parseCpuRanges rc.cpus none).isSet cpu = true

theorem exists_first {k : CpuClusterKind} (hk : k ∈ classifyClusters groups) :
    ∃ i g, ((groups.zip (classifyClusters groups)).find? fun gk => gk.2 = k) = some (g, k) ∧
      groups[i]? = some g ∧ (classifyClusters groups)[i]? = some k ∧
      ∀ j : Nat, (classifyClusters groups)[j]? = some k → i ≤ j := by
  have hlen := length_classifyClusters groups
  have hget : ∀ (j : Nat) gk, (groups.zip (classifyClusters groups))[j]? = some gk ↔
      groups[j]? = some gk.1 ∧ (classifyClusters groups)[j]? = some gk.2 := fun j gk =>
    List.getElem?_zip_eq_some
  obtain ⟨⟨g, k'⟩, hfind⟩ : ∃ gk,
      (groups.zip (classifyClusters groups)).find? (fun gk => gk.2 = k) = some gk := by
    rw [← Option.isSome_iff_exists, List.find?_isSome]
    obtain ⟨j, hj, rfl⟩ := List.getElem_of_mem hk
    have hj' : j < groups.length := hlen ▸ hj
    exact ⟨(groups[j], (classifyClusters groups)[j]), List.mem_of_getElem?
      ((hget j _).mpr ⟨List.getElem?_eq_getElem hj', List.getElem?_eq_getElem hj⟩), by simp⟩
  obtain ⟨hkind, i, hi, hat, hbefore⟩ := List.find?_eq_some_iff_getElem.mp hfind
  obtain rfl : k' = k := of_decide_eq_true hkind
  obtain ⟨hg, hk'⟩ := (hget i (g, k')).mp (List.getElem?_eq_some_iff.mpr ⟨hi, hat⟩)
  refine ⟨i, g, hfind, hg, hk', ?_⟩
  intro j hj
  by_contra hlt
  have hji : j < i := by omega
  have hjlt : j < (groups.zip (classifyClusters groups)).length := hji.trans hi
  have hjth := (hget j _).mp (List.getElem?_eq_getElem hjlt)
  have hother := hbefore j hji
  rw [Option.some.inj (hjth.2.symm.trans hj)] at hother
  simp at hother

/-- No group after the third and before the last has a CPU that the third one lacks. -/
def LaterBigWithin (groups : List CapacityGroup) : Prop :=
  ∀ (i : Nat) g first, 2 < i → i + 1 < groups.length → groups[i]? = some g →
    groups[2]? = some first → ∀ cpu ∈ g.cpus, cpu ∈ first.cpus

/-- The CPU numbers that a CPU set can hold. -/
def CpusFit (groups : List CapacityGroup) : Prop :=
  ∀ g ∈ groups, ∀ cpu ∈ g.cpus, cpu < cpuSetSize

/-- With nothing beyond the first big group, a name stands for its whole class. -/
theorem namesKind_of_within (online : Option String) (hfit : CpusFit groups)
    (hwithin : LaterBigWithin groups) {k : CpuClusterKind} (hk : k ∈ classifyClusters groups) :
    NamesKind online groups k := by
  intro pkg thread pol name hcpus hcluster hname
  obtain ⟨i, g, hfind, hg, hki, hleast⟩ := exists_first hk
  obtain ⟨rc, hrc, hset⟩ := rule_of_first online hfind hcpus hcluster hname pkg thread
  refine ⟨rc, hrc, fun cpu => ?_⟩
  rw [hset]
  constructor
  · rintro ⟨hcpu, -⟩
    exact ⟨g, List.mem_of_find?_eq_some hfind, hcpu⟩
  · rintro ⟨g', hmem, hcpu⟩
    refine ⟨?_, hfit g' (List.of_mem_zip hmem).1 cpu hcpu⟩
    obtain ⟨j, hj⟩ := List.getElem?_of_mem hmem
    obtain ⟨hg', hkj⟩ := List.getElem?_zip_eq_some.mp hj
    rcases (hleast j hkj).lt_or_eq with hlt | rfl
    · obtain ⟨rfl, hfive, hlast⟩ := kind_repeats hlt hki hkj
      have hlow : 2 ≤ i := ((kind_big_iff hfive (by omega)).mp hki).1
      have hhigh : i ≤ 2 := hleast 2 ((kind_big_iff hfive (by omega)).mpr ⟨le_rfl, by omega⟩)
      obtain rfl : i = 2 := by omega
      exact hwithin j g' g hlt hlast hg' hg cpu hcpu
    · rw [hg, Option.some.injEq] at hg'
      rwa [hg']

def bigPolicy : PolicyModel := { PolicyModel.default with cluster := some "big" }

/-- The name of the big kind reaches only the third of five or more groups. -/
theorem within_of_namesKind {online : Option String}
    (h : ∀ k ∈ classifyClusters groups, NamesKind online groups k) : LaterBigWithin groups := by
  intro i g first hi hlast hg hfirst cpu hcpu
  have hfive : 5 ≤ groups.length := by omega
  have hki := (kind_big_iff hfive (i := i) (by omega)).mpr ⟨hi.le, hlast⟩
  have hk2 := (kind_big_iff hfive (i := 2) (by omega)).mpr ⟨le_rfl, by omega⟩
  have hmem := List.mem_of_getElem? hki
  obtain ⟨j, g', hfind, hg', hkj, hleast⟩ := exists_first hmem
  obtain rfl : j = 2 := by
    have hle := hleast 2 hk2
    have hge := ((kind_big_iff hfive (List.getElem?_eq_some_iff.mp hg').1).mp hkj).1
    omega
  rw [hfirst, Option.some.injEq] at hg'
  have hname : toLowercase "big" = CpuClusterKind.big.lowerName := by decide
  have hcpus : bigPolicy.cpus = none := rfl
  obtain ⟨rc, hrc, hset⟩ := h .big hmem "" "" bigPolicy "big" rfl rfl hname
  obtain ⟨rc', hrc', hset'⟩ := rule_of_first online hfind hcpus rfl hname "" ""
  obtain rfl : rc = rc' := List.singleton_inj.mp (hrc.symm.trans hrc')
  have hin : InKind groups .big cpu :=
    ⟨g, List.mem_of_getElem? (List.getElem?_zip_eq_some.mpr ⟨hg, hki⟩), hcpu⟩
  rw [hg']
  exact ((hset' cpu).mp ((hset cpu).mpr hin)).1

theorem inKind_of_mem {g : CapacityGroup} (hg : g ∈ groups) {cpu : Nat} (hcpu : cpu ∈ g.cpus) :
    ∃ k ∈ classifyClusters groups, InKind groups k cpu := by
  obtain ⟨i, hi⟩ := List.getElem?_of_mem hg
  have hlt : i < (classifyClusters groups).length := by
    rw [length_classifyClusters]
    exact (List.getElem?_eq_some_iff.mp hi).1
  have hk := List.getElem?_eq_getElem hlt
  exact ⟨_, List.getElem_mem hlt, g,
    List.mem_of_getElem? (List.getElem?_zip_eq_some.mpr ⟨hi, hk⟩), hcpu⟩

theorem toLowercase_lowerName (k : CpuClusterKind) : toLowercase k.lowerName = k.lowerName := by
  cases k <;> decide

/-- The kind names reach the whole of their classes, and with that every CPU, exactly when
all CPU numbers fit a CPU set and no group between the third and the last has a CPU that
the third one lacks. -/
theorem cluster_names_cover_iff (online : Option String) (groups : List CapacityGroup) :
    ((∀ k ∈ classifyClusters groups, NamesKind online groups k) ∧
      ∀ g ∈ groups, ∀ cpu ∈ g.cpus, Addressable online groups cpu) ↔
        CpusFit groups ∧ LaterBigWithin groups := by
  have hreach : ∀ k, NamesKind online groups k → ∀ cpu, InKind groups k cpu → ∃ rc,
      policyToRules "" "" { PolicyModel.default with cluster := some k.lowerName }
        (detectClusters online groups) = [rc] ∧ (parseCpuRanges rc.cpus none).isSet cpu = true := by
    intro k hk cpu hin
    obtain ⟨rc, hrc, hset⟩ := hk "" "" { PolicyModel.default with cluster := some k.lowerName }
      k.lowerName rfl rfl (toLowercase_lowerName k)
    exact ⟨rc, hrc, (hset cpu).mpr hin⟩
  constructor
  · intro ⟨hnames, _⟩
    refine ⟨?_, within_of_namesKind hnames⟩
    intro g hg cpu hcpu
    obtain ⟨k, hk, hin⟩ := inKind_of_mem hg hcpu
    obtain ⟨rc, -, hset⟩ := hreach k (hnames k hk) cpu hin
    by_contra hge
    rw [CpuSet.isSet_of_le _ (Nat.le_of_not_lt hge)] at hset
    exact Bool.false_ne_true hset
  · intro ⟨hfit, hwithin⟩
    refine ⟨fun k hk => namesKind_of_within online hfit hwithin hk, ?_⟩
    intro g hg cpu hcpu
    obtain ⟨k, hk, hin⟩ := inKind_of_mem hg hcpu
    exact ⟨k, hk, hreach k (namesKind_of_within online hfit hwithin hk) cpu hin⟩

/-- Five capacities, the third and fourth of them big. -/
def fiveGroups : List CapacityGroup :=
  [⟨200, [0, 1]⟩, ⟨400, [2]⟩, ⟨600, [3, 4]⟩, ⟨800, [5, 6]⟩, ⟨1024, [7]⟩]

/-- The second big cluster of five groups is not reached by the name. -/
theorem cluster_name_misses_second_big :
    ¬∀ (online : Option String) (groups : List CapacityGroup),
      (groups.map CapacityGroup.capacity).Pairwise (· < ·) →
        ∀ k ∈ classifyClusters groups, NamesKind online groups k := by
  intro h
  have hwithin := within_of_namesKind (h none fiveGroups (by decide))
  have hcpu := hwithin 3 ⟨800, [5, 6]⟩ ⟨600, [3, 4]⟩ (by decide) (by decide) rfl rfl 5 (by decide)
  revert hcpu
  decide

end Threadctl.Core

import Threadctl.Support.Grouping
import Threadctl.Core.ClusterNames
import Threadctl.Core.ProcStat
import Threadctl.Core.RangeCodec

/-!
# What is detected from sysfs

The clusters and the frequency domains are read from directories, whose entries come in
any order.  The CPUs are grouped by the capacity that their files show; the domains are
those of the policies, in the order of their numbers.
-/

namespace Threadctl.Core

open Threadctl.Support Threadctl.Support.Text

/-- What sysfs shows: the names in a directory, as they are read, and the text of a file. -/
structure Sysfs where
  readDir : String → Option (List String)
  readToString : String → Option String

def cpuDir : String := "/sys/devices/system/cpu"

def cpufreqDir : String := "/sys/devices/system/cpu/cpufreq"

/-! ## The source's functions -/

/-- `str::strip_prefix` -/
def stripPrefix (s pre : String) : Option String :=
  if startsWith s pre then some (String.ofList (s.toList.drop pre.toList.length)) else none

/-- The CPU that a directory is named after. -/
def cpuOfName (name : String) : Option Nat :=
  (stripPrefix name "cpu").bind parseUsize

def Sysfs.cpuCapacity (fs : Sysfs) (name : String) : Option Nat :=
  (fs.readToString (cpuDir ++ "/" ++ name ++ "/cpu_capacity")).bind fun raw => parseU32 (trim raw)

/-- What one entry of the directory puts into the groups. -/
def Sysfs.capacityEntry (fs : Sysfs) (name : String) : Option (Nat × Nat) := do
  let cpu ← cpuOfName name
  let cap ← fs.cpuCapacity name
  pure (cap, cpu)

def Sysfs.cpuNames (fs : Sysfs) : List String := (fs.readDir cpuDir).getD []

def Sysfs.capacityGroups (fs : Sysfs) : List CapacityGroup :=
  (fs.cpuNames.foldl (fun groups name =>
    match fs.capacityEntry name with
    | some (cap, cpu) => Grouping.push cap cpu groups
    | none => groups) []).map fun g => ⟨g.1, g.2⟩

def Sysfs.online (fs : Sysfs) : Option String := fs.readToString (cpuDir ++ "/online")

/-- `detect_clusters` -/
def Sysfs.clusters (fs : Sysfs) : List CpuCluster :=
  detectClusters fs.online fs.capacityGroups

def policyOfName (name : String) : Option Nat :=
  (stripPrefix name "policy").bind parseUsize

/-- The whole domain if it can be read, else its CPUs that are online. -/
def Sysfs.policyCpus (fs : Sysfs) (name : String) : Option String :=
  (fs.readToString (cpufreqDir ++ "/" ++ name ++ "/related_cpus")).or
    (fs.readToString (cpufreqDir ++ "/" ++ name ++ "/affected_cpus"))

def Sysfs.policyDomain (fs : Sysfs) (name : String) : Option (Nat × CpuSet) := do
  let idx ← policyOfName name
  let raw ← fs.policyCpus name
  let set := parseCpuRanges (trim raw) none
  if 0 < set.count then pure (idx, set) else none

/-- `detect_dvfs_domains` -/
def Sysfs.dvfsDomains (fs : Sysfs) : List CpuSet :=
  match fs.readDir cpufreqDir with
  | none => []
  | some entries =>
      ((entries.filterMap fs.policyDomain).mergeSort fun a b => a.1 ≤ b.1).map Prod.snd

/-- The same files, with the entries of every directory in some order. -/
structure Sysfs.Reordered (fs fs' : Sysfs) : Prop where
  files : fs'.readToString = fs.readToString
  dirs : ∀ path, Option.Rel List.Perm (fs.readDir path) (fs'.readDir path)

section Detection

variable {fs fs' : Sysfs}

theorem Sysfs.Reordered.cpuNames (h : fs.Reordered fs') : fs.cpuNames.Perm fs'.cpuNames := by
  have hdir := h.dirs cpuDir
  unfold Sysfs.cpuNames
  generalize fs.readDir cpuDir = names at hdir ⊢
  generalize fs'.readDir cpuDir = names' at hdir ⊢
  cases hdir with
  | none => exact List.Perm.nil
  | some hperm => exact hperm

theorem Sysfs.Reordered.capacityEntry (h : fs.Reordered fs') :
    fs'.capacityEntry = fs.capacityEntry := by
  funext name
  unfold Sysfs.capacityEntry Sysfs.cpuCapacity
  rw [h.files]

theorem Sysfs.Reordered.policyDomain (h : fs.Reordered fs') :
    fs'.policyDomain = fs.policyDomain := by
  funext name
  unfold Sysfs.policyDomain Sysfs.policyCpus
  rw [h.files]

/-! ## Groups -/

def Sysfs.Shows (fs : Sysfs) (cpu cap : Nat) : Prop :=
  ∃ name ∈ fs.cpuNames, cpuOfName name = some cpu ∧ fs.cpuCapacity name = some cap

def Sysfs.capacities (fs : Sysfs) : List (Nat × Nat) := fs.cpuNames.filterMap fs.capacityEntry

theorem mem_capacities {cpu cap : Nat} : (cap, cpu) ∈ fs.capacities ↔ fs.Shows cpu cap := by
  have hentry : ∀ name, fs.capacityEntry name = some (cap, cpu) ↔
      cpuOfName name = some cpu ∧ fs.cpuCapacity name = some cap := by
    intro name
    unfold Sysfs.capacityEntry
    cases cpuOfName name <;> cases fs.cpuCapacity name <;> simp [and_comm]
  simp only [Sysfs.capacities, List.mem_filterMap, hentry, Sysfs.Shows]

/-- The capacities that are shown, in ascending order. -/
def Sysfs.levels (fs : Sysfs) : List Nat := (Grouping.group fs.capacities).map Prod.fst

theorem capacityGroups_eq (fs : Sysfs) :
    fs.capacityGroups =
      fs.levels.map fun cap => ⟨cap, Grouping.heldAt fs.capacities cap⟩ := by
  have hgroup : fs.capacityGroups =
      (Grouping.group fs.capacities).map fun g => ⟨g.1, g.2⟩ := by
    unfold Sysfs.capacityGroups Grouping.group Sysfs.capacities
    rw [List.foldl_filterMap]
    congr 1
    apply List.foldl_ext
    intro groups name _
    cases fs.capacityEntry name <;> rfl
  rw [hgroup, Grouping.group_eq, List.map_map]
  rfl

theorem ascending_capacityGroups (fs : Sysfs) :
    fs.capacityGroups.Pairwise fun g g' => g.capacity < g'.capacity := by
  have hgroups := (Grouping.groups_group fs.capacities).ascending
  rw [capacityGroups_eq, List.pairwise_map]
  exact hgroups

theorem mem_capacityGroups {g : CapacityGroup} :
    g ∈ fs.capacityGroups ↔
      g.cpus = Grouping.heldAt fs.capacities g.capacity ∧ g.cpus ≠ [] := by
  have hgroups := Grouping.groups_group fs.capacities
  rw [capacityGroups_eq, List.mem_map]
  constructor
  · rintro ⟨cap, hcap, rfl⟩
    exact ⟨rfl, hgroups.mem_keys.mp hcap⟩
  · rintro ⟨hcpus, hne⟩
    refine ⟨g.capacity, hgroups.mem_keys.mpr (hcpus ▸ hne), ?_⟩
    rw [← hcpus]

theorem capacityGroups_isEmpty :
    fs.capacityGroups.isEmpty = true ↔ ∀ cpu cap, ¬ fs.Shows cpu cap := by
  rw [List.isEmpty_iff]
  constructor
  · intro hnil cpu cap hshows
    have hmem : cpu ∈ Grouping.heldAt fs.capacities cap :=
      Grouping.mem_heldAt.mpr (mem_capacities.mpr hshows)
    have hg : (⟨cap, Grouping.heldAt fs.capacities cap⟩ : CapacityGroup) ∈ fs.capacityGroups :=
      mem_capacityGroups.mpr ⟨rfl, List.ne_nil_of_mem hmem⟩
    rw [hnil] at hg
    exact absurd hg List.not_mem_nil
  · intro hnone
    apply List.eq_nil_iff_forall_not_mem.mpr
    intro g hg
    obtain ⟨hcpus, hne⟩ := mem_capacityGroups.mp hg
    obtain ⟨cpu, hcpu⟩ := List.exists_mem_of_ne_nil _ hne
    rw [hcpus] at hcpu
    exact hnone cpu g.capacity (mem_capacities.mp (Grouping.mem_heldAt.mp hcpu))

/-- Little, mid, big, prime. -/
def CpuClusterKind.rank (k : CpuClusterKind) : Nat :=
  match k with
  | .unknown => 0
  | .little => 1
  | .mid => 2
  | .big => 3
  | .prime => 4

theorem rank_kindAt_le {n i j : Nat} (hij : i < j) (hj : j < n) :
    (kindAt n i).rank ≤ (kindAt n j).rank := by
  unfold kindAt
  split_ifs <;> first | omega | decide

theorem classifyClusters_rank (groups : List CapacityGroup) :
    (classifyClusters groups).Pairwise fun k k' => k.rank ≤ k'.rank := by
  by_cases hthree : 3 ≤ groups.length
  · rw [classifyClusters_of_three hthree, List.pairwise_map, List.pairwise_iff_getElem]
    intro i j hi hj hij
    rw [List.getElem_range, List.getElem_range]
    exact rank_kindAt_le hij (by simpa using hj)
  · match groups, hthree with
    | [], _ => exact List.Pairwise.nil
    | [_], _ => exact List.pairwise_singleton _ _
    | [lowest, highest], _ =>
        simp only [classifyClusters]
        split <;> decide
    | _ :: _ :: _ :: groups, h => exact absurd (by simp) h

theorem classifyClusters_congr {groups groups' : List CapacityGroup}
    (h : groups.map CapacityGroup.capacity = groups'.map CapacityGroup.capacity) :
    classifyClusters groups = classifyClusters groups' := by
  have hlen : groups.length = groups'.length := by
    simpa using congrArg List.length h
  by_cases hthree : 3 ≤ groups.length
  · rw [classifyClusters_of_three hthree, classifyClusters_of_three (hlen ▸ hthree), hlen]
  · match groups, groups', hlen, h, hthree with
    | [], [], _, _, _ => rfl
    | [_], [_], _, _, _ => rfl
    | [_, _], [_, _], _, h, _ =>
        simp only [List.map_cons, List.map_nil, List.cons.injEq, and_true] at h
        simp only [classifyClusters, h.1, h.2]
    | _ :: _ :: _ :: groups, _, _, _, h => exact absurd (by simp) h

/-! ## Clusters -/

theorem clusterOf_perm {cap : Nat} {cpus cpus' : List Nat} (h : cpus.Perm cpus')
    (kind : CpuClusterKind) : clusterOf ⟨cap, cpus⟩ kind = clusterOf ⟨cap, cpus'⟩ kind := by
  have hset : cpus.foldl CpuSet.set .new = cpus'.foldl CpuSet.set .new := by
    apply CpuSet.ext_isSet
    intro i
    rw [Bool.eq_iff_iff, isSet_foldl_set, isSet_foldl_set, h.mem_iff]
  unfold clusterOf
  dsimp only
  rw [hset]

theorem Sysfs.Reordered.clusters (h : fs.Reordered fs') : fs'.clusters = fs.clusters := by
  have hperm : fs.capacities.Perm fs'.capacities := by
    unfold Sysfs.capacities
    rw [h.capacityEntry]
    exact h.cpuNames.filterMap _
  obtain ⟨hkeys, hheld⟩ := Grouping.group_perm hperm
  have honline : fs'.online = fs.online := by rw [Sysfs.online, h.files, Sysfs.online]
  have hlevels : fs'.levels = fs.levels := hkeys
  have hcapacities : fs'.capacityGroups.map CapacityGroup.capacity =
      fs.capacityGroups.map CapacityGroup.capacity := by
    rw [capacityGroups_eq, capacityGroups_eq, hlevels, List.map_map, List.map_map]
    rfl
  have hkinds := classifyClusters_congr hcapacities
  unfold Sysfs.clusters detectClusters
  rw [honline, hkinds]
  generalize classifyClusters fs.capacityGroups = kinds at *
  have hempty : fs'.capacityGroups.isEmpty = fs.capacityGroups.isEmpty := by
    rw [← List.isEmpty_map (f := CapacityGroup.capacity), hcapacities, List.isEmpty_map]
  rw [hempty]
  congr 1
  rw [capacityGroups_eq, capacityGroups_eq, hlevels, List.zip_map_left, List.zip_map_left,
    List.map_map, List.map_map]
  apply List.map_congr_left
  intro gk _
  exact clusterOf_perm (hheld gk.1) gk.2

theorem clusters_eq (hshows : ∃ cpu cap, fs.Shows cpu cap) :
    fs.clusters = (fs.capacityGroups.zip (classifyClusters fs.capacityGroups)).map fun gk =>
      clusterOf gk.1 gk.2 := by
  obtain ⟨cpu, cap, hshows⟩ := hshows
  have hempty : ¬ fs.capacityGroups.isEmpty = true := fun hempty =>
    capacityGroups_isEmpty.mp hempty cpu cap hshows
  unfold Sysfs.clusters detectClusters
  exact if_neg hempty

theorem clusters_of_none (hnone : ∀ cpu cap, ¬ fs.Shows cpu cap) :
    ∃ cpus, fs.clusters = [⟨.unknown, cpus, cpus.toRangeString, 0⟩] ∧
      cpus = (fs.online.map fun text => parseCpuRanges (trim text) none).getD .new := by
  unfold Sysfs.clusters detectClusters
  rw [if_pos (capacityGroups_isEmpty.mpr hnone)]
  exact ⟨_, rfl, rfl⟩

/-- A cluster of higher capacity is of no lower kind. -/
theorem clusters_ascending (fs : Sysfs) :
    fs.clusters.Pairwise fun slow fast =>
      slow.capacity < fast.capacity ∧ slow.kind.rank ≤ fast.kind.rank := by
  by_cases hshows : ∃ cpu cap, fs.Shows cpu cap
  · have hgroups := ascending_capacityGroups fs
    have hkinds := classifyClusters_rank fs.capacityGroups
    rw [clusters_eq hshows, List.pairwise_map]
    rw [List.pairwise_iff_getElem] at hgroups hkinds ⊢
    intro i j hi hj hij
    rw [List.length_zip] at hi hj
    rw [List.getElem_zip, List.getElem_zip]
    exact ⟨hgroups i j _ _ hij, hkinds i j _ _ hij⟩
  · push Not at hshows
    obtain ⟨cpus, hcpus, -⟩ := clusters_of_none hshows
    rw [hcpus]
    exact List.pairwise_singleton _ _

theorem rangeStr_clusters {c : CpuCluster} (hc : c ∈ fs.clusters) :
    parseCpuRanges c.rangeStr none = c.cpus := by
  by_cases hshows : ∃ cpu cap, fs.Shows cpu cap
  · rw [clusters_eq hshows, List.mem_map] at hc
    obtain ⟨gk, -, rfl⟩ := hc
    exact parseCpuRanges_toRangeString _
  · push Not at hshows
    obtain ⟨cpus, hcpus, -⟩ := clusters_of_none hshows
    rw [hcpus, List.mem_singleton] at hc
    rw [hc]
    exact parseCpuRanges_toRangeString _

/-- A CPU is in the cluster of a capacity when an entry shows it with that capacity. -/
theorem isSet_clusters (hshows : ∃ cpu cap, fs.Shows cpu cap) {cpu cap : Nat}
    (hcpu : cpu < cpuSetSize) :
    (∃ c ∈ fs.clusters, c.capacity = cap ∧ c.cpus.isSet cpu = true) ↔ fs.Shows cpu cap := by
  rw [clusters_eq hshows, ← mem_capacities, ← Grouping.mem_heldAt]
  have hset : ∀ (g : CapacityGroup) k, (clusterOf g k).cpus.isSet cpu = true ↔ cpu ∈ g.cpus := by
    intro g k
    show (g.cpus.foldl CpuSet.set .new).isSet cpu = true ↔ _
    rw [isSet_foldl_set, CpuSet.isSet_new]
    simp [hcpu]
  constructor
  · rintro ⟨c, hc, rfl, hmem⟩
    obtain ⟨⟨g, k⟩, hgk, rfl⟩ := List.mem_map.mp hc
    obtain ⟨hcpus, -⟩ := mem_capacityGroups.mp (List.of_mem_zip hgk).1
    show cpu ∈ Grouping.heldAt fs.capacities g.capacity
    rw [← hcpus]
    exact (hset g k).mp hmem
  · intro hmem
    have hg : (⟨cap, Grouping.heldAt fs.capacities cap⟩ : CapacityGroup) ∈ fs.capacityGroups :=
      mem_capacityGroups.mpr ⟨rfl, List.ne_nil_of_mem hmem⟩
    obtain ⟨i, hi, hget⟩ := List.getElem_of_mem hg
    have hk : i < (classifyClusters fs.capacityGroups).length := by
      rwa [length_classifyClusters]
    refine ⟨clusterOf ⟨cap, Grouping.heldAt fs.capacities cap⟩
      (classifyClusters fs.capacityGroups)[i], ?_, rfl, (hset _ _).mpr hmem⟩
    refine List.mem_map.mpr ⟨(_, _), List.mem_of_getElem? (i := i) ?_, rfl⟩
    exact List.getElem?_zip_eq_some.mpr
      ⟨List.getElem?_eq_some_iff.mpr ⟨hi, hget⟩, List.getElem?_eq_getElem hk⟩

/-- The clusters do not depend on the order of the directory.  They ascend in capacity, and
in kind with it; their texts read back; and a CPU is in the one cluster of the capacity that
it shows.  Where nothing shows a capacity there is one cluster, of the CPUs that are online. -/
theorem detected_clusters (fs : Sysfs) :
    (∀ fs', fs.Reordered fs' → fs'.clusters = fs.clusters) ∧
      (fs.clusters.Pairwise fun slow fast =>
        slow.capacity < fast.capacity ∧ slow.kind.rank ≤ fast.kind.rank) ∧
      (∀ c ∈ fs.clusters, parseCpuRanges c.rangeStr none = c.cpus) ∧
      ((∃ cpu cap, fs.Shows cpu cap) → ∀ cpu < cpuSetSize, ∀ cap,
        (∃ c ∈ fs.clusters, c.capacity = cap ∧ c.cpus.isSet cpu = true) ↔ fs.Shows cpu cap) ∧
      ((∀ cpu cap, ¬ fs.Shows cpu cap) → ∃ c, fs.clusters = [c] ∧ c.kind = .unknown ∧
        c.cpus = (fs.online.map fun text => parseCpuRanges (trim text) none).getD .new) := by
  refine ⟨fun _ h => h.clusters, clusters_ascending fs, fun c hc => rangeStr_clusters hc,
    fun hshows cpu hcpu cap => isSet_clusters hshows hcpu, fun hnone => ?_⟩
  obtain ⟨cpus, hclusters, hcpus⟩ := clusters_of_none hnone
  exact ⟨_, hclusters, rfl, hcpus⟩

end Detection

/-! ## Frequency domains -/

/-- A line of sysfs with CPU numbers, as `related_cpus` has it. -/
def cpusLine (cpus : List Nat) : String :=
  (String.singleton ' ').intercalate (cpus.map Nat.repr) ++ "\n"

theorem trim_cpusLine (cpus : List Nat) :
    trim (cpusLine cpus) = (String.singleton ' ').intercalate (cpus.map Nat.repr) := by
  by_cases hne : cpus = []
  · subst hne
    decide
  · have hne' : cpus.map Nat.repr ≠ [] := by simpa using hne
    have hdigits : ∀ p ∈ cpus.map Nat.repr, ∀ c ∈ p.toList, isWhitespace c = false := by
      intro p hp c hc
      obtain ⟨n, -, rfl⟩ := List.mem_map.mp hp
      exact isWhitespace_of_isDigit (isDigit_of_mem_repr hc)
    have hnonempty : ∀ p ∈ cpus.map Nat.repr, p.toList ≠ [] := by
      intro p hp
      obtain ⟨n, -, rfl⟩ := List.mem_map.mp hp
      simp
    apply trim_line
    · obtain ⟨p, hp, hhead⟩ := head?_intercalate (String.singleton ' ') hne' hnonempty
      rw [hhead, Option.any_eq_false]
      exact fun c hc => by simp [hdigits p hp c (List.mem_of_mem_head? hc)]
    · obtain ⟨p, hp, hlast⟩ :=
        getLast?_intercalate (String.singleton ' ') hne' hnonempty
      rw [hlast, Option.any_eq_false]
      exact fun c hc => by simp [hdigits p hp c (List.mem_of_getLast? hc)]

theorem specRanges_cpusLine {cpus : List Nat} (hcpus : ∀ cpu ∈ cpus, cpu < usizeMax) :
    specRanges (trim (cpusLine cpus)) = cpus.map fun cpu => (cpu, cpu) := by
  rw [trim_cpusLine]
  by_cases hne : cpus = []
  · subst hne
    decide
  · have hparts : ∀ p ∈ cpus.map Nat.repr, ∀ c ∈ p.toList, isSeparator c = false := by
      intro p hp c hc
      obtain ⟨n, -, rfl⟩ := List.mem_map.mp hp
      exact isSeparator_of_isDigit (isDigit_of_mem_repr hc)
    rw [specRanges, splitAny_intercalate rfl (by simpa using hne) hparts, List.filterMap_map,
      ← List.filterMap_eq_map]
    apply List.filterMap_congr
    intro cpu hcpu
    have htext : cpu.repr = rangeText (cpu, cpu) := by simp [rangeText]
    have hempty : ¬ (rangeText (cpu, cpu)).isEmpty = true := by
      simpa using rangeText_ne_empty (cpu, cpu)
    have hread : parsePart (rangeText (cpu, cpu)) = some (cpu, cpu) :=
      parsePart_rangeText (r := (cpu, cpu)) le_rfl (hcpus cpu hcpu)
    dsimp only [Function.comp]
    rw [htext, trim_rangeText, if_neg hempty, hread]

theorem parse_cpusLine {cpus : List Nat} (hcpus : ∀ cpu ∈ cpus, cpu < usizeMax) :
    parseCpuRanges (trim (cpusLine cpus)) none = cpus.foldl CpuSet.set .new := by
  apply CpuSet.ext_isSet
  intro i
  rw [Bool.eq_iff_iff, isSet_parseCpuRanges, isSet_foldl_set, CpuSet.isSet_new,
    specRanges_cpusLine hcpus]
  simp only [List.mem_map, exists_exists_and_eq_and, Option.all_none, and_true,
    Bool.false_eq_true, false_or]
  show _ ∧ i < 1024 ↔ _ ∧ i < 1024
  have hsame : ∀ cpu : Nat, cpu ≤ i ∧ i ≤ cpu ↔ cpu = i := by omega
  simp only [hsame, exists_eq_right]

def policySet (cpus : Option (List Nat)) : CpuSet := (cpus.getD []).foldl CpuSet.set .new

/-- The policies have the CPUs, each in its line. -/
structure Sysfs.Policies (fs : Sysfs) (entries : List String) (cpusOf : Nat → Option (List Nat)) :
    Prop where
  size : ∀ idx cpus, cpusOf idx = some cpus → ∀ cpu ∈ cpus, cpu < usizeMax
  text : ∀ name ∈ entries, ∀ idx, policyOfName name = some idx →
    fs.policyCpus name = (cpusOf idx).map cpusLine

section Domains

variable {fs : Sysfs} {entries : List String} {cpusOf : Nat → Option (List Nat)}

theorem Sysfs.Policies.domain (h : fs.Policies entries cpusOf) {name : String}
    (hname : name ∈ entries) {idx : Nat} {set : CpuSet} :
    fs.policyDomain name = some (idx, set) ↔
      policyOfName name = some idx ∧ 0 < set.count ∧ set = policySet (cpusOf idx) := by
  unfold Sysfs.policyDomain
  cases hidx : policyOfName name with
  | none => simp
  | some policy =>
      rw [Option.bind_eq_bind, Option.bind_some, h.text name hname policy hidx]
      cases hcpus : cpusOf policy with
      | none =>
          have hempty : policySet none = .new := rfl
          have hzero : CpuSet.new.count = 0 := CpuSet.count_eq_zero.mpr rfl
          simp only [Option.map_none, Option.bind_eq_bind, Option.bind_none, reduceCtorEq,
            Option.some.injEq, false_iff, not_and]
          rintro rfl hpos rfl
          rw [hcpus, hempty, hzero] at hpos
          exact absurd hpos (Nat.lt_irrefl 0)
      | some cpus =>
          have hread : parseCpuRanges (trim (cpusLine cpus)) none = policySet (some cpus) :=
            parse_cpusLine (h.size policy cpus hcpus)
          simp only [Option.map_some, Option.bind_eq_bind, Option.bind_some, hread,
            Option.some.injEq]
          split
          · rename_i hpos
            simp only [Option.pure_def, Option.some.injEq, Prod.mk.injEq]
            constructor
            · rintro ⟨rfl, rfl⟩
              exact ⟨rfl, hpos, by rw [hcpus]⟩
            · rintro ⟨rfl, -, rfl⟩
              exact ⟨rfl, by rw [hcpus]⟩
          · rename_i hzero
            simp only [reduceCtorEq, false_iff, not_and]
            rintro rfl hpos rfl
            rw [hcpus] at hpos
            exact hzero hpos

theorem policySet_pos {cpus : Option (List Nat)} :
    0 < (policySet cpus).count ↔ ∃ cpu ∈ cpus.getD [], cpu < cpuSetSize := by
  simp only [CpuSet.count_pos_iff, policySet, isSet_foldl_set, CpuSet.isSet_new,
    Bool.false_eq_true, false_or]

/-- One policy for each number, with its CPUs in a line of the kernel: the domains are the
CPUs of the policies that have any, by ascending number. -/
theorem detected_domains (hdir : fs.readDir cpufreqDir = some entries)
    (hnames : (entries.filterMap policyOfName).Nodup) (h : fs.Policies entries cpusOf) :
    ∃ policies : List Nat, policies.Pairwise (· < ·) ∧
      (∀ idx, idx ∈ policies ↔ idx ∈ entries.filterMap policyOfName ∧
        ∃ cpu ∈ (cpusOf idx).getD [], cpu < cpuSetSize) ∧
      fs.dvfsDomains = policies.map fun idx => policySet (cpusOf idx) := by
  let domains := (entries.filterMap fs.policyDomain).mergeSort fun a b => a.1 ≤ b.1
  have hmem : ∀ idx set, (idx, set) ∈ domains ↔ ∃ name ∈ entries,
      policyOfName name = some idx ∧ 0 < set.count ∧ set = policySet (cpusOf idx) := by
    intro idx set
    rw [List.mem_mergeSort, List.mem_filterMap]
    exact exists_congr fun name => and_congr_right fun hname => h.domain hname
  refine ⟨domains.map Prod.fst, ?_, fun idx => ?_, ?_⟩
  · apply Grouping.ascending_mergeSort
    rw [List.Nodup, List.pairwise_map, List.pairwise_filterMap]
    rw [List.Nodup, List.pairwise_filterMap] at hnames
    apply hnames.imp_of_mem
    rintro name name' hname hname' hne ⟨idx, set⟩ hset ⟨idx', set'⟩ hset'
    exact hne idx ((h.domain hname).mp hset).1 idx' ((h.domain hname').mp hset').1
  · rw [List.mem_map, List.mem_filterMap, ← policySet_pos]
    constructor
    · rintro ⟨⟨_, set⟩, hset, rfl⟩
      obtain ⟨name, hname, hidx, hpos, rfl⟩ := (hmem _ set).mp hset
      exact ⟨⟨name, hname, hidx⟩, hpos⟩
    · rintro ⟨⟨name, hname, hidx⟩, hpos⟩
      exact ⟨(idx, _), (hmem idx _).mpr ⟨name, hname, hidx, hpos, rfl⟩, rfl⟩
  · unfold Sysfs.dvfsDomains
    rw [hdir, List.map_map]
    apply List.map_congr_left
    rintro ⟨idx, set⟩ hset
    obtain ⟨-, -, -, -, rfl⟩ := (hmem idx set).mp hset
    rfl

/-- Two domains of four CPUs; of one only the CPUs that are online are shown. -/
def twoPolicies : Sysfs where
  readDir path := if path = cpufreqDir then some ["policy4", "boost", "policy0"] else none
  readToString path :=
    if path = cpufreqDir ++ "/policy4/related_cpus" then some "4 5 6 7\n"
    else if path = cpufreqDir ++ "/policy0/affected_cpus" then some "0 1 2\n"
    else none

def twoPoliciesCpus (idx : Nat) : Option (List Nat) :=
  if idx = 0 then some [0, 1, 2] else if idx = 4 then some [4, 5, 6, 7] else none

theorem detected_domains_of_twoPolicies :
    ∃ policies : List Nat, policies.Pairwise (· < ·) ∧
      (∀ idx, idx ∈ policies ↔ idx ∈ ["policy4", "boost", "policy0"].filterMap policyOfName ∧
        ∃ cpu ∈ (twoPoliciesCpus idx).getD [], cpu < cpuSetSize) ∧
      twoPolicies.dvfsDomains = policies.map fun idx => policySet (twoPoliciesCpus idx) := by
  have hpolicies : twoPolicies.Policies ["policy4", "boost", "policy0"] twoPoliciesCpus := by
    refine ⟨fun idx cpus hcpus cpu hcpu => ?_, fun name hname idx hidx => ?_⟩
    · have hsmall : cpu < 8 := by
        unfold twoPoliciesCpus at hcpus
        split_ifs at hcpus
        all_goals
          obtain rfl := Option.some.inj hcpus
          simp only [List.mem_cons, List.not_mem_nil, or_false] at hcpu
          omega
      exact hsmall.trans (by decide)
    · have hfour : policyOfName "policy4" = some 4 := by decide
      have hboost : policyOfName "boost" = none := by decide
      have hzero : policyOfName "policy0" = some 0 := by decide
      simp only [List.mem_cons, List.not_mem_nil, or_false] at hname
      rcases hname with rfl | rfl | rfl
      · obtain rfl : 4 = idx := Option.some.inj (hfour.symm.trans hidx)
        decide
      · exact absurd (hboost.symm.trans hidx) (by simp)
      · obtain rfl : 0 = idx := Option.some.inj (hzero.symm.trans hidx)
        decide
  exact detected_domains rfl (by decide) hpolicies

end Domains

end Threadctl.Core

import Threadctl.Core.RuleSet

/-!
# The configuration model

A `ConfigModel` is the format-independent tree a file is parsed to.  This module
holds the tree and what one policy node expands to.
-/

namespace Threadctl.Core

open Threadctl.Support.Text

/-! ## The tree -/

structure PolicyModel where
  cluster : Option String
  cpus : Option String
  uclampMin : Option Nat
  uclampMax : Option Nat
  sched : Option String
  nice : Option Int
  deriving DecidableEq

def PolicyModel.default : PolicyModel := ⟨none, none, none, none, none, none⟩

structure AppModel where
  pkg : String
  profile : Option String
  defaultPolicy : PolicyModel
  threads : HashMap String PolicyModel
  threadTypes : HashMap String PolicyModel

structure ConfigModel where
  apps : HashMap String AppModel

def entriesOf {κ ν : Type} (m : HashMap κ ν) : List (κ × ν) :=
  m.entries.map fun e => (e.1, e.2)

theorem mem_entriesOf {κ ν : Type} [DecidableEq κ] {m : HashMap κ ν} {k : κ} {v : ν} :
    (k, v) ∈ entriesOf m ↔ m.lookup k = some v := by
  rw [← Option.mem_def, AList.mem_lookup_iff, entriesOf, List.mem_map]
  constructor
  · rintro ⟨e, he, heq⟩
    obtain ⟨rfl, rfl⟩ := Prod.mk.inj heq
    exact he
  · intro h
    exact ⟨⟨k, v⟩, h, rfl⟩

theorem nodup_entriesOf {κ ν : Type} (m : HashMap κ ν) : ((entriesOf m).map Prod.fst).Nodup := by
  rw [entriesOf, List.map_map]
  exact m.nodupKeys

theorem entriesOf_eq_of_key {κ ν : Type} [DecidableEq κ] {m : HashMap κ ν} {a b : κ × ν}
    (ha : a ∈ entriesOf m) (hb : b ∈ entriesOf m) (hkey : a.1 = b.1) : a = b := by
  have ha' := mem_entriesOf.mp ha
  have hb' := mem_entriesOf.mp hb
  rw [hkey, hb', Option.some.injEq] at ha'
  exact Prod.ext hkey ha'.symm

/-! ## Policy nodes -/

/-- Set user fields replace the template's; `cpus` and `cluster` exclude each other. -/
def overridePolicy (base user : PolicyModel) : PolicyModel :=
  let base := if user.cluster.isSome then { base with cluster := user.cluster, cpus := none }
    else base
  let base := if user.cpus.isSome then { base with cpus := user.cpus, cluster := none } else base
  { base with
    sched := if user.sched.isSome then user.sched else base.sched
    nice := if user.nice.isSome then user.nice else base.nice
    uclampMin := if user.uclampMin.isSome then user.uclampMin else base.uclampMin
    uclampMax := if user.uclampMax.isSome then user.uclampMax else base.uclampMax }

def hasCpus (p : PolicyModel) : Bool := p.cpus.isSome || p.cluster.isSome

def hasAnyPolicy (p : PolicyModel) : Bool :=
  hasCpus p || p.sched.isSome || p.nice.isSome || p.uclampMin.isSome || p.uclampMax.isSome

def threadTypeAliases : List (String × List String) :=
  [("render", ["*RenderThread*", "*GL*", "*Vk*"]),
   ("audio", ["*Audio*", "*Sound*"]),
   ("binder", ["*Binder:*"]),
   ("main", ["*main*"])]

def threadTypePatterns (ttype : String) : Option (List String) :=
  (threadTypeAliases.find? fun a => a.1 = ttype).map Prod.snd

/-! ## Cluster names -/

/-- `to_lowercase` as far as a comparison with an ASCII word can tell: besides the
ASCII capitals only U+212A (Kelvin) has an ASCII lowercase. -/
def lowerChar (c : Char) : Char :=
  if c = Char.ofNat 0x212A then 'k' else c.toLower

def toLowercase (s : String) : String := String.ofList (s.toList.map lowerChar)

/-- The `Debug` name of a cluster kind, lowercased. -/
def CpuClusterKind.lowerName : CpuClusterKind → String
  | .prime => "prime"
  | .big => "big"
  | .mid => "mid"
  | .little => "little"
  | .unknown => "unknown"

/-- `max_by_key`: the last of the clusters with the largest capacity. -/
def maxByCapacity (clusters : List CpuCluster) : Option CpuCluster :=
  clusters.foldl
    (fun best c => match best with
      | none => some c
      | some b => if b.capacity ≤ c.capacity then some c else some b)
    none

def isRangeChar (c : Char) : Bool := c.isDigit || c == '-' || c == ','

/-- A cluster name, a range written in its place, or the big cluster as substitute. -/
def clusterRange (clusters : List CpuCluster) (name : String) : Option String :=
  match clusters.find? fun c => c.kind.lowerName = toLowercase name with
  | some c => some c.rangeStr
  | none =>
      if name.toList.all isRangeChar then some name
      else
        let big := match clusters.find? fun c => c.kind = .big with
          | some c => some c
          | none => maxByCapacity clusters
        big.map (·.rangeStr)

/-- The CPU range text of a node: `cpus`, else its cluster's range, else nothing. -/
def cpusText (pol : PolicyModel) (clusters : List CpuCluster) : String :=
  (pol.cpus.or (pol.cluster.bind (clusterRange clusters))).getD ""

def ruleOf (pkg thread : String) (pol : PolicyModel) (clusters : List CpuCluster) : RuleConfig where
  pkg := pkg
  thread := thread
  cpus := cpusText pol clusters
  sched := pol.sched
  nice := pol.nice
  uclampMin := pol.uclampMin
  uclampMax := pol.uclampMax

/-- A blank node has no rule. -/
def policyToRules (pkg thread : String) (pol : PolicyModel) (clusters : List CpuCluster) :
    List RuleConfig :=
  if hasAnyPolicy pol then [ruleOf pkg thread pol clusters] else []

theorem mem_policyToRules {pkg thread : String} {pol : PolicyModel} {clusters : List CpuCluster}
    {rc : RuleConfig} :
    rc ∈ policyToRules pkg thread pol clusters ↔
      hasAnyPolicy pol = true ∧ rc = ruleOf pkg thread pol clusters := by
  unfold policyToRules
  split <;> simp [*]

end Threadctl.Core

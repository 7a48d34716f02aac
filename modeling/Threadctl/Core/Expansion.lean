import Threadctl.Core.Profile
import Threadctl.Core.ResolveSpec

/-!
# Expanding a configuration

`toRulesWithClusters` walks three hash maps.  The order of each walk is a
parameter, `IterOrder`, and may differ from map to map.
-/

namespace Threadctl.Core

/-- The orders in which one expansion iterates over its hash maps.  The maps of an
app are its own, so their order depends on the app's key. -/
structure IterOrder where
  apps : List (String × AppModel) → List (String × AppModel)
  threads : String → List (String × PolicyModel) → List (String × PolicyModel)
  threadTypes : String → List (String × PolicyModel) → List (String × PolicyModel)
  apps_perm : ∀ l, (apps l).Perm l
  threads_perm : ∀ key l, (threads key l).Perm l
  threadTypes_perm : ∀ key l, (threadTypes key l).Perm l

/-- The maps in the order they are given. -/
def IterOrder.identity : IterOrder where
  apps := id
  threads _ := id
  threadTypes _ := id
  apps_perm := List.Perm.refl
  threads_perm _ := List.Perm.refl
  threadTypes_perm _ := List.Perm.refl

/-! ## The source's function -/

/-- `threads.entry(k).or_default()` and `override_policy`, for every user node. -/
def overrideNodes (template user : HashMap String PolicyModel) : HashMap String PolicyModel :=
  (entriesOf user).foldl
    (fun m e => m.insert e.1 (overridePolicy ((m.lookup e.1).getD .default) e.2)) template

/-- The profile template of an app; an unknown name is the empty template. -/
def templateOf (app : AppModel) : ProfileModel :=
  match app.profile with
  | some name => (builtinProfile name).getD .empty
  | none => .empty

def mergedDefault (app : AppModel) : PolicyModel :=
  overridePolicy (templateOf app).default app.defaultPolicy

def mergedThreads (app : AppModel) : HashMap String PolicyModel :=
  overrideNodes (templateOf app).threads app.threads

def mergedThreadTypes (app : AppModel) : HashMap String PolicyModel :=
  overrideNodes (templateOf app).threadTypes app.threadTypes

/-- The rules of one thread type: one per pattern of the alias. -/
def typeRules (pkg : String) (clusters : List CpuCluster) (entry : String × PolicyModel) :
    List RuleConfig :=
  match threadTypePatterns entry.1 with
  | some patterns => patterns.flatMap fun pat => policyToRules pkg pat entry.2 clusters
  | none => []

theorem mem_typeRules {pkg : String} {clusters : List CpuCluster} {entry : String × PolicyModel}
    {rc : RuleConfig} :
    rc ∈ typeRules pkg clusters entry ↔
      ∃ patterns pat, threadTypePatterns entry.1 = some patterns ∧ pat ∈ patterns ∧
        hasAnyPolicy entry.2 = true ∧ rc = ruleOf pkg pat entry.2 clusters := by
  unfold typeRules
  split
  · rename_i patterns halias
    simp [List.mem_flatMap, mem_policyToRules, halias]
  · rename_i halias
    simp [halias]

/-- The whitelist placeholder of an app without CPU settings. -/
def placeholderRules (clusters : List CpuCluster) (app : AppModel) : List RuleConfig :=
  let hasAny := !(policyToRules app.pkg "" (mergedDefault app) clusters).isEmpty ||
    (entriesOf (mergedThreads app)).any (fun e => hasCpus e.2) ||
    (entriesOf (mergedThreadTypes app)).any (fun e => hasCpus e.2)
  if hasAny then [] else [.ofCpus app.pkg "" ""]

/-- The rules of one app: default, threads, thread types, placeholder. -/
def expandApp (order : IterOrder) (clusters : List CpuCluster) (entry : String × AppModel) :
    List RuleConfig :=
  let app := entry.2
  policyToRules app.pkg "" (mergedDefault app) clusters ++
    (order.threads entry.1 (entriesOf (mergedThreads app))).flatMap
      (fun e => policyToRules app.pkg e.1 e.2 clusters) ++
    (order.threadTypes entry.1 (entriesOf (mergedThreadTypes app))).flatMap
      (typeRules app.pkg clusters) ++
    placeholderRules clusters app

def ConfigModel.toRulesWithClusters (order : IterOrder) (model : ConfigModel)
    (clusters : List CpuCluster) : List RuleConfig :=
  (order.apps (entriesOf model.apps)).flatMap (expandApp order clusters)

/-- Expansion and compilation, as `ConfigSnapshot::load` chains them. -/
def ConfigModel.ruleSet (order : IterOrder) (model : ConfigModel) (topo : CpuTopology) : RuleSet :=
  (compile (model.toRulesWithClusters order topo.clusters) topo).rules

theorem lookup_foldl_override {nodes : List (String × PolicyModel)}
    (hnodup : (nodes.map Prod.fst).Nodup) (template : HashMap String PolicyModel) (k : String) :
    (nodes.foldl (fun m e => m.insert e.1 (overridePolicy ((m.lookup e.1).getD .default) e.2))
        template).lookup k =
      match nodes.find? fun e => e.1 = k with
      | some e => some (overridePolicy ((template.lookup k).getD .default) e.2)
      | none => template.lookup k := by
  induction nodes generalizing template with
  | nil => rfl
  | cons e nodes ih =>
      rw [List.map_cons, List.nodup_cons] at hnodup
      rw [List.foldl_cons, ih hnodup.2]
      by_cases hk : e.1 = k
      · subst hk
        have hrest : nodes.find? (fun e' => e'.1 = e.1) = none := by
          rw [List.find?_eq_none]
          intro e' he' heq
          exact hnodup.1 (List.mem_map.mpr ⟨e', he', by simpa using heq⟩)
        rw [hrest, List.find?_cons_of_pos (by simp), AList.lookup_insert]
      · rw [List.find?_cons_of_neg (by simpa using hk), AList.lookup_insert_ne (Ne.symm hk)]

theorem find?_entriesOf (m : HashMap String PolicyModel) (k : String) :
    ((entriesOf m).find? fun e => e.1 = k) = (m.lookup k).map fun v => (k, v) := by
  cases h : (entriesOf m).find? fun e => e.1 = k with
  | none =>
      cases hm : m.lookup k with
      | none => rfl
      | some v =>
          have := List.find?_eq_none.mp h (k, v) (mem_entriesOf.mpr hm)
          simp at this
  | some e =>
      have hkey : e.1 = k := by simpa using List.find?_some h
      have hmem : (k, e.2) ∈ entriesOf m := by
        rw [← hkey]
        exact List.mem_of_find?_eq_some h
      rw [mem_entriesOf.mp hmem, Option.map_some, ← hkey]

/-- A merged map holds the user's nodes, each over the template node of the same name. -/
theorem lookup_overrideNodes (template user : HashMap String PolicyModel) (k : String) :
    (overrideNodes template user).lookup k =
      match user.lookup k with
      | some v => some (overridePolicy ((template.lookup k).getD .default) v)
      | none => template.lookup k := by
  rw [overrideNodes, lookup_foldl_override (nodup_entriesOf user), find?_entriesOf]
  cases user.lookup k <;> rfl

end Threadctl.Core

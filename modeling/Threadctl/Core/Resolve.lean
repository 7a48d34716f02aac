import Mathlib.Data.List.MinMax
import Threadctl.Core.Merge

/-!
# Resolving a package and a thread name

`RuleSet.resolve` collects the rules of the matching sources, keeps the thread
rules that hit, merges, and fills the gaps from the package-level rules.
`resolve_eq` reads the answer off two rule lists: the exact rules and the rules
of the chosen wildcard group.
-/

namespace Threadctl.Core

open Threadctl.Support.Indexing Threadctl.Support.Ranked

section Resolve

variable (fnmatch : String → String → Bool)

def CompiledRule.hitsThread (r : CompiledRule) (thread : String) : Bool :=
  !r.thread.isEmpty &&
    match r.threadPattern with
    | some pat => fnmatchC fnmatch pat thread
    | none => false

def CompiledRule.isPkgLevel (r : CompiledRule) : Bool :=
  r.thread.isEmpty

def RuleSet.resolve (rs : RuleSet) (pkg thread : String) : Option Policy :=
  let pkgMatches := rs.collectPkgMatches fnmatch pkg
  if pkgMatches.isEmpty then none
  else do
    let threadHits := pkgMatches.filter fun m => rs.rules[m.index]!.hitsThread fnmatch thread
    let pkgRules := pkgMatches.filter fun m => rs.rules[m.index]!.isPkgLevel
    let policy ←
      if threadHits.isEmpty then mergeRules pkgRules rs.rules
      else do
        let pol ← mergeRules threadHits rs.rules
        match mergeRules pkgRules rs.rules with
        | some fb => some (fillMissing pol fb)
        | none => some pol
    if policy.cpus.count = 0 ∧ policy.sched.isNone ∧ policy.nice.isNone then none
    else some { policy with cpusetDir := policy.cpus.toRangeString }

/-! ## The rules of the two sources -/

/-- A wildcard group that can be chosen for a package. -/
def WildcardRule.isCandidate (pkg : String) (w : WildcardRule) : Bool :=
  decide (0 < w.specificity) && fnmatchPkg fnmatch w.patternCstr pkg

/-- The wildcard group chosen for a package: the first of maximal specificity. -/
def RuleSet.chosenGroup (rs : RuleSet) (pkg : String) : Option WildcardRule :=
  (rs.wildcards.filter (WildcardRule.isCandidate fnmatch pkg)).argmax (·.specificity)

def RuleSet.exactRules (rs : RuleSet) (pkg : String) : List CompiledRule :=
  rs.rules.filter (isExactFor pkg)

def RuleSet.wildcardRules (rs : RuleSet) (pkg : String) : List CompiledRule :=
  match rs.chosenGroup fnmatch pkg with
  | some w => rs.rules.filter fun r => decide (r.pkg = w.pattern)
  | none => []

theorem foldl_bestStep (pkg : String) (ws : List WildcardRule) :
    ws.foldl (bestStep fnmatch pkg) (0, none) =
      match (ws.filter (WildcardRule.isCandidate fnmatch pkg)).argmax (·.specificity) with
      | some w => (w.specificity, some w.ruleIdxs)
      | none => (0, none) := by
  induction ws using List.reverseRecOn with
  | nil => rfl
  | append_singleton ws w ih =>
      rw [List.foldl_append, ih, List.filter_append]
      by_cases hw : WildcardRule.isCandidate fnmatch pkg w = true
      · have hw' : 0 < w.specificity ∧ fnmatchPkg fnmatch w.patternCstr pkg = true := by
          simpa [WildcardRule.isCandidate] using hw
        rw [List.filter_cons_of_pos hw, List.filter_nil, List.argmax_concat]
        cases (ws.filter (WildcardRule.isCandidate fnmatch pkg)).argmax (·.specificity) with
        | none => simp [bestStep, hw']
        | some c => by_cases hlt : c.specificity < w.specificity <;> simp [bestStep, hw'.2, hlt]
      · have hskip : ∀ best : Nat × Option (List Nat),
            bestStep fnmatch pkg best w = best := by
          intro best
          rw [bestStep, if_neg]
          rintro ⟨hlt, hm⟩
          have hpos : 0 < w.specificity := by omega
          exact hw (by simp [WildcardRule.isCandidate, hm, hpos])
        rw [List.filter_cons_of_neg hw, List.filter_nil, List.append_nil, List.foldl_cons,
          List.foldl_nil, hskip]

def tagged (source : RuleSource) (idxs : List Nat) : List RuleMatch :=
  idxs.map fun i => ⟨i, source⟩

def RuleSet.wildcardIdxs (rs : RuleSet) (pkg : String) : List Nat :=
  match rs.chosenGroup fnmatch pkg with
  | some w => indicesOf (fun r => decide (r.pkg = w.pattern)) rs.rules
  | none => []

theorem RuleSet.map_wildcardIdxs (rs : RuleSet) (pkg : String) :
    (rs.wildcardIdxs fnmatch pkg).map (rs.rules[·]!) = rs.wildcardRules fnmatch pkg := by
  unfold RuleSet.wildcardIdxs RuleSet.wildcardRules
  split
  · rw [map_get_indicesOf]
  · rfl

theorem RuleSet.ruleIdxs_of_mem {rs : RuleSet} {w : WildcardRule} (h : w ∈ rs.wildcards) :
    w = groupOf rs.rules w.pattern ∧ isPattern w.pattern = true := by
  rw [rs.indexed.wildcards_eq] at h
  obtain ⟨p, hp, rfl⟩ := List.mem_map.mp h
  exact ⟨rfl, (List.mem_filter.mp hp).2⟩

theorem RuleSet.mem_of_chosenGroup {rs : RuleSet} {pkg : String} {w : WildcardRule}
    (h : rs.chosenGroup fnmatch pkg = some w) :
    w ∈ rs.wildcards ∧ 0 < w.specificity ∧ fnmatchPkg fnmatch w.patternCstr pkg = true := by
  have hmem := List.mem_filter.mp (List.argmax_mem h)
  simpa [WildcardRule.isCandidate] using hmem

theorem RuleSet.collectPkgMatches_eq (rs : RuleSet) (pkg : String) :
    rs.collectPkgMatches fnmatch pkg =
      tagged .packageExact (indicesOf (isExactFor pkg) rs.rules) ++
        tagged .packageWildcard (rs.wildcardIdxs fnmatch pkg) := by
  unfold RuleSet.collectPkgMatches
  refine congrArg₂ (· ++ ·) ?_ ?_
  · rw [← rs.indexed.exact_eq pkg]
    cases rs.exact.lookup pkg <;> rfl
  · rw [foldl_bestStep, RuleSet.wildcardIdxs]
    cases hw : rs.chosenGroup fnmatch pkg with
    | none =>
        unfold RuleSet.chosenGroup at hw
        rw [hw]
        rfl
    | some w =>
        have hgroup := (rs.ruleIdxs_of_mem (rs.mem_of_chosenGroup fnmatch hw).1).1
        unfold RuleSet.chosenGroup at hw
        rw [hw]
        show tagged .packageWildcard w.ruleIdxs = _
        rw [hgroup]
        rfl

/-! ## Merging two sources -/

def mergeSources (exact wildcard : List CompiledRule) : Option Policy :=
  mergeTable [exact.map (·.policy), wildcard.map (·.policy)]

theorem classOf_tagged (source k : RuleSource) (idxs : List Nat) :
    classOf RuleMatch.source k (tagged source idxs) =
      if source = k then tagged source idxs else [] := by
  unfold classOf tagged
  rw [List.filter_map]
  by_cases h : source = k
  · rw [if_pos h, List.filter_eq_self.mpr (by simp [h])]
  · rw [if_neg h, List.filter_eq_nil_iff.mpr (by simp [h]), List.map_nil]

theorem mergeRules_tagged (rules : List CompiledRule) (exact wildcard : List Nat) :
    mergeRules (tagged .packageExact exact ++ tagged .packageWildcard wildcard) rules =
      mergeSources (exact.map (rules[·]!)) (wildcard.map (rules[·]!)) := by
  have hpolicies : ∀ k, policiesFrom (tagged .packageExact exact ++
      tagged .packageWildcard wildcard) rules k =
        (if RuleSource.packageExact = k then exact.map (rules[·]!.policy) else []) ++
        if RuleSource.packageWildcard = k then wildcard.map (rules[·]!.policy) else [] := by
    intro k
    have happend : classOf RuleMatch.source k (tagged .packageExact exact ++
        tagged .packageWildcard wildcard) =
          classOf RuleMatch.source k (tagged .packageExact exact) ++
          classOf RuleMatch.source k (tagged .packageWildcard wildcard) :=
      List.filter_append ..
    rw [policiesFrom, happend, classOf_tagged, classOf_tagged, List.map_append]
    congr 1 <;> split <;> simp [tagged]
  have hnone : groupCpusOf [] = none := by decide
  have htable : strategyTable (sourcesByPriority.map (policiesFrom (tagged .packageExact exact ++
      tagged .packageWildcard wildcard) rules)) =
        strategyTable [exact.map (rules[·]!.policy), wildcard.map (rules[·]!.policy)] := by
    simp [strategyTable, sourcesByPriority, hpolicies, hnone, List.findSome?_cons]
  rw [mergeRules_eq_strategyTable, mergeSources, mergeTable, htable, List.map_map, List.map_map]
  rfl

/-- Filtering the collected matches filters the rules of both sources. -/
theorem RuleSet.filter_collectPkgMatches (rs : RuleSet) (pkg : String)
    (keep : CompiledRule → Bool) :
    mergeRules ((rs.collectPkgMatches fnmatch pkg).filter fun m => keep rs.rules[m.index]!)
        rs.rules =
      mergeSources ((rs.exactRules pkg).filter keep)
        ((rs.wildcardRules fnmatch pkg).filter keep) := by
  have htagged : ∀ source idxs,
      (tagged source idxs).filter (fun m => keep rs.rules[m.index]!) =
        tagged source (idxs.filter fun i => keep rs.rules[i]!) := by
    intro source idxs
    unfold tagged
    rw [List.filter_map]
    rfl
  have hkeep : ∀ idxs : List Nat, (idxs.filter fun i => keep rs.rules[i]!).map (rs.rules[·]!) =
      (idxs.map (rs.rules[·]!)).filter keep := by
    intro idxs
    rw [List.filter_map]
    rfl
  rw [rs.collectPkgMatches_eq, List.filter_append, htagged, htagged, mergeRules_tagged,
    hkeep, hkeep, map_get_indicesOf, rs.map_wildcardIdxs]
  rfl

theorem RuleSet.filter_collectPkgMatches_isEmpty (rs : RuleSet) (pkg : String)
    (keep : CompiledRule → Bool) :
    ((rs.collectPkgMatches fnmatch pkg).filter fun m => keep rs.rules[m.index]!).isEmpty =
      ((rs.exactRules pkg ++ rs.wildcardRules fnmatch pkg).filter keep).isEmpty := by
  have hmap : (rs.collectPkgMatches fnmatch pkg).map (fun m => rs.rules[m.index]!) =
      rs.exactRules pkg ++ rs.wildcardRules fnmatch pkg := by
    rw [rs.collectPkgMatches_eq, List.map_append, RuleSet.exactRules, ← map_get_indicesOf,
      ← rs.map_wildcardIdxs]
    simp [tagged, Function.comp_def]
  rw [← hmap, List.filter_map, List.isEmpty_map]
  rfl

/-! ## `resolve` over two rule lists -/

/-- Fill the gaps of a thread-level policy from the package-level one, if any. -/
def inherit (pol : Policy) (fallback : Option Policy) : Policy :=
  match fallback with
  | some fb => fillMissing pol fb
  | none => pol

/-- The final check and the directory name. -/
def finish (policy : Policy) : Option Policy :=
  if policy.cpus.count = 0 ∧ policy.sched.isNone ∧ policy.nice.isNone then none
  else some { policy with cpusetDir := policy.cpus.toRangeString }

theorem eq_of_finish {policy p : Policy} (h : finish policy = some p) :
    p = { policy with cpusetDir := policy.cpus.toRangeString } := by
  unfold finish at h
  split at h
  · exact absurd h (by simp)
  · exact (Option.some.inj h).symm

/-- The answer of `resolve` as a function of the exact rules and the rules of the
chosen wildcard group. -/
def resolveRules (thread : String) (exact wildcard : List CompiledRule) : Option Policy :=
  let pkgLevel := mergeSources (exact.filter (·.isPkgLevel)) (wildcard.filter (·.isPkgLevel))
  let merged :=
    if (exact ++ wildcard).any (·.hitsThread fnmatch thread) then
      (mergeSources (exact.filter (·.hitsThread fnmatch thread))
        (wildcard.filter (·.hitsThread fnmatch thread))).map (inherit · pkgLevel)
    else pkgLevel
  merged.bind finish

theorem filter_isEmpty_eq_not_any {α : Type} (l : List α) (keep : α → Bool) :
    (l.filter keep).isEmpty = !l.any keep := by
  induction l with
  | nil => rfl
  | cons a l ih => cases h : keep a <;> simp [h, ih]

theorem resolve_eq (rs : RuleSet) (pkg thread : String) :
    rs.resolve fnmatch pkg thread =
      resolveRules fnmatch thread (rs.exactRules pkg) (rs.wildcardRules fnmatch pkg) := by
  have hempty := rs.filter_collectPkgMatches_isEmpty fnmatch pkg (fun _ => true)
  have hhits := (rs.filter_collectPkgMatches_isEmpty fnmatch pkg
    (·.hitsThread fnmatch thread)).trans (filter_isEmpty_eq_not_any _ _)
  have hthread := rs.filter_collectPkgMatches fnmatch pkg (·.hitsThread fnmatch thread)
  have hpkg := rs.filter_collectPkgMatches fnmatch pkg (·.isPkgLevel)
  rw [List.filter_true, List.filter_true] at hempty
  unfold RuleSet.resolve
  simp only [hempty, hhits, hthread, hpkg]
  by_cases hnone : (rs.exactRules pkg ++ rs.wildcardRules fnmatch pkg).isEmpty = true
  · rw [if_pos hnone]
    obtain ⟨hE, hW⟩ := List.append_eq_nil_iff.mp (List.isEmpty_iff.mp hnone)
    have hmerge : mergeSources [] [] = none := by decide
    simp [resolveRules, hE, hW, hmerge]
  · rw [if_neg hnone, resolveRules]
    cases (rs.exactRules pkg ++ rs.wildcardRules fnmatch pkg).any (·.hitsThread fnmatch thread)
    · rfl
    · cases mergeSources ((rs.exactRules pkg).filter (·.hitsThread fnmatch thread))
        ((rs.wildcardRules fnmatch pkg).filter (·.hitsThread fnmatch thread)) with
      | none => rfl
      | some pol =>
          cases mergeSources ((rs.exactRules pkg).filter (·.isPkgLevel))
            ((rs.wildcardRules fnmatch pkg).filter (·.isPkgLevel)) <;> rfl

end Resolve

end Threadctl.Core

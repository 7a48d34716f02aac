import Threadctl.Core.IterationOrder
import Threadctl.Core.PackageMatch

/-!
# Rules of other packages

The policy of a package depends only on the rules that name it or whose pattern
matches it.  Rule positions, the grouping of patterns and the scan order all change
when foreign rules are inserted; none of it reaches the merged policy.
-/

namespace Threadctl.Core

open Threadctl.Support.Indexing

section Isolation

variable (fnmatch : String → String → Bool) (q thread : String)

/-- The package name of a rule is `q`, or a wildcard pattern that matches it. -/
def concerns (pkg : String) : Bool :=
  decide (pkg = q) || (containsWildcard pkg && fnmatch (untilNul pkg) (untilNul q))

theorem concerns_of_isExactFor {r : CompiledRule} (h : isExactFor q r = true) :
    concerns fnmatch q r.pkg = true := by
  have hpkg : r.pkg = q := by
    rw [isExactFor, Bool.and_eq_true, decide_eq_true_eq] at h
    exact h.1
  simp [concerns, hpkg]

theorem concerns_of_isCandidatePattern {pkg : String}
    (h : isCandidatePattern fnmatch q pkg = true) : concerns fnmatch q pkg = true := by
  simp only [isCandidatePattern, isPattern, Bool.and_eq_true] at h
  obtain ⟨⟨hwild, hnul⟩, -, hmatch⟩ := h
  have hlibc : fnmatch pkg (untilNul q) = true := by
    unfold fnmatchPkg at hmatch
    split at hmatch
    · simp at hmatch
    · exact hmatch
  simp [concerns, hwild, untilNul_of_cstring hnul, hlibc]

def RuleSet.concerning (rs : RuleSet) : List CompiledRule :=
  rs.rules.filter fun r => concerns fnmatch q r.pkg

theorem filter_concerning {keep : CompiledRule → Bool} (rs : RuleSet)
    (h : ∀ r, keep r = true → concerns fnmatch q r.pkg = true) :
    (rs.concerning fnmatch q).filter keep = rs.rules.filter keep := by
  rw [RuleSet.concerning, List.filter_filter]
  apply List.filter_congr
  intro r _
  cases hr : keep r with
  | false => rfl
  | true => rw [h r hr, Bool.and_self]

theorem chosenPattern_concerning (rs : RuleSet) :
    rs.chosenPattern fnmatch q =
      ((distinct ((rs.concerning fnmatch q).map (·.pkg))).filter
        (isCandidatePattern fnmatch q)).argmax patternSpecificity := by
  have hmap : (rs.concerning fnmatch q).map (·.pkg) =
      (rs.rules.map (·.pkg)).filter (concerns fnmatch q) := by
    rw [RuleSet.concerning, List.filter_map]
    rfl
  rw [chosenPattern_eq, hmap, distinct_filter, List.filter_filter]
  congr 1
  apply List.filter_congr
  intro p _
  cases hp : isCandidatePattern fnmatch q p with
  | false => rfl
  | true => rw [concerns_of_isCandidatePattern fnmatch q hp, Bool.and_self]

/-- Rule sets with the same concerning rules resolve `q` alike. -/
theorem resolve_congr_concerning {rs rs' : RuleSet}
    (h : rs.concerning fnmatch q = rs'.concerning fnmatch q) :
    rs.resolve fnmatch q thread = rs'.resolve fnmatch q thread := by
  have hpattern : rs.chosenPattern fnmatch q = rs'.chosenPattern fnmatch q := by
    rw [chosenPattern_concerning, chosenPattern_concerning, h]
  have hexact : rs.exactRules q = rs'.exactRules q := by
    rw [RuleSet.exactRules, RuleSet.exactRules,
      ← filter_concerning fnmatch q rs (fun _ => concerns_of_isExactFor fnmatch q),
      ← filter_concerning fnmatch q rs' (fun _ => concerns_of_isExactFor fnmatch q), h]
  have hgroup : ∀ r, inGroup (rs'.chosenPattern fnmatch q) r = true →
      concerns fnmatch q r.pkg = true := by
    intro r hr
    have hchoice := isChoice_chosenPattern fnmatch q rs'
    rw [of_decide_eq_true hr] at hchoice
    exact concerns_of_isCandidatePattern fnmatch q hchoice.1
  have hwildcard : rs.wildcardRules fnmatch q = rs'.wildcardRules fnmatch q := by
    rw [wildcardRules_eq, wildcardRules_eq, hpattern, ← filter_concerning fnmatch q rs hgroup,
      ← filter_concerning fnmatch q rs' hgroup, h]
  rw [resolve_eq, resolve_eq, hexact, hwildcard]

/-- Compilation keeps the package name, so the concerning compiled rules are those
compiled from the concerning configs. -/
theorem concerning_compile (configs : List RuleConfig) (topo : CpuTopology) :
    (compile configs topo).rules.concerning fnmatch q =
      (configs.filter fun rc => concerns fnmatch q rc.pkg).filterMap
        fun rc => (compileRule topo rc).toOption := by
  have hrules : (compile configs topo).rules.rules = (compileRules topo configs).1 := rfl
  rw [RuleSet.concerning, hrules, compileRules_fst, List.filter_filterMap, List.filterMap_filter]
  apply List.filterMap_congr
  intro rc _
  cases hcompile : compileRule topo rc with
  | error reason => simp [Except.toOption]
  | ok r =>
      have hpkg : r.pkg = rc.pkg := by rw [(compileRule_eq_ok_iff.mp hcompile).2]
      simp [Except.toOption, Option.filter, hpkg]

/-! ## Contract -/

/-- Two rule lists that agree on the rules concerning `q` give `q` the same policies,
whatever the rules of other packages around them are. -/
theorem packages_do_not_interfere (configs configs' : List RuleConfig) (topo : CpuTopology)
    (h : (configs.filter fun rc => concerns fnmatch q rc.pkg) =
      configs'.filter fun rc => concerns fnmatch q rc.pkg) :
    (compile configs topo).rules.resolve fnmatch q thread =
      (compile configs' topo).rules.resolve fnmatch q thread := by
  apply resolve_congr_concerning
  rw [concerning_compile, concerning_compile, h]

end Isolation

/-- Rules of another app and an unrelated pattern, inserted and reordered. -/
theorem packages_do_not_interfere_at_com_a :
    (compile [.ofCpus "com.a" "" "0-3", .ofCpus "com.*" "" "4-7"] (.flat 8)).rules.resolve glob
        "com.a" "main" =
      (compile [.ofCpus "org.*" "" "7", .ofCpus "com.a" "" "0-3", .ofCpus "com.b" "" "1",
        .ofCpus "com.*" "" "4-7"] (.flat 8)).rules.resolve glob "com.a" "main" :=
  packages_do_not_interfere glob "com.a" "main" _ _ (.flat 8) (by decide)

end Threadctl.Core

import Threadctl.Core.PackageMatch

/-!
# Scores below zero

The score of a pattern is a difference of unsigned numbers.  With overflow checks a negative
one ends the compilation, without them it wraps to a score above all others.
-/

namespace Threadctl.Core

open Threadctl.Support.Indexing

/-! ## Checked arithmetic -/

/-- `usize` arithmetic with overflow checks; `none` is a panic. -/
def checkedAdd (a b : Nat) : Option Nat := if a + b < 2 ^ 64 then some (a + b) else none

def checkedMul (a b : Nat) : Option Nat := if a * b < 2 ^ 64 then some (a * b) else none

def checkedSub (a b : Nat) : Option Nat := if b ≤ a then some (a - b) else none

/-- `patternSpecificity` in a build with overflow checks. -/
def patternSpecificityChecked (s : String) : Option Nat := do
  let len := s.utf8ByteSize
  let st := s.toList.foldl (specificityStep len) ⟨0, len, 0, 0⟩
  let fixed ← checkedMul st.prefixLen 100
  let plain ← checkedAdd fixed st.literals
  let penalty ← checkedMul st.wildcards 10
  checkedSub plain penalty

/-- The score as a number that may be negative. -/
def specificityScore (s : String) : Int :=
  plainPrefixLen s * 100 + literalCount s - specialCount s * 10

/-- The wildcards cost no more than the rest of the pattern earns. -/
def Affordable (s : String) : Prop :=
  specialCount s * 10 ≤ plainPrefixLen s * 100 + literalCount s

instance (s : String) : Decidable (Affordable s) :=
  inferInstanceAs (Decidable (_ ≤ _))

/-- The computation stays above zero: no panic, and no wrapping in a release build. -/
structure NoUnderflow (s : String) : Prop where
  checked : (patternSpecificityChecked s).isSome = true
  release : (patternSpecificity s : Int) = specificityScore s

section Patterns

variable {s : String} (hlen : s.utf8ByteSize < maxPkgLen)

include hlen

theorem patternSpecificityChecked_eq :
    patternSpecificityChecked s =
      if Affordable s then some (patternSpecificity s) else none := by
  obtain ⟨hlead, hliteral, hspecial⟩ := specificity_terms_le s
  have hmax : maxPkgLen = 128 := rfl
  have hfixed : checkedMul (plainPrefixLen s) 100 = some (plainPrefixLen s * 100) :=
    if_pos (by omega)
  have hplain : checkedAdd (plainPrefixLen s * 100) (literalCount s) =
      some (plainPrefixLen s * 100 + literalCount s) := if_pos (by omega)
  have hpenalty : checkedMul (specialCount s) 10 = some (specialCount s * 10) :=
    if_pos (by omega)
  rw [patternSpecificityChecked, specificityScan_eq]
  dsimp only
  simp only [hfixed, Option.bind_eq_bind, Option.bind_some, hplain, hpenalty]
  rw [checkedSub, patternSpecificity_eq]
  by_cases hafford : Affordable s
  · have hle : specialCount s * 10 ≤ plainPrefixLen s * 100 + literalCount s := hafford
    rw [if_pos hafford, if_pos hle]
    congr 1
    omega
  · rw [if_neg hafford]
    exact if_neg hafford

theorem patternSpecificity_eq_score_iff :
    (patternSpecificity s : Int) = specificityScore s ↔ Affordable s := by
  obtain ⟨hlead, hliteral, hspecial⟩ := specificity_terms_le s
  have hmax : maxPkgLen = 128 := rfl
  rw [patternSpecificity_eq, specificityScore, Affordable]
  omega

theorem noUnderflow_iff : NoUnderflow s ↔ Affordable s := by
  constructor
  · exact fun h => (patternSpecificity_eq_score_iff hlen).mp h.release
  · intro h
    refine ⟨?_, (patternSpecificity_eq_score_iff hlen).mpr h⟩
    rw [patternSpecificityChecked_eq hlen, if_pos h]
    rfl

theorem outranks_of_not_affordable (h : ¬ Affordable s) {t : String}
    (htlen : t.utf8ByteSize < maxPkgLen) (ht : Affordable t) :
    patternSpecificity t < patternSpecificity s := by
  obtain ⟨hlead, hliteral, hspecial⟩ := specificity_terms_le s
  obtain ⟨htlead, htliteral, htspecial⟩ := specificity_terms_le t
  have hmax : maxPkgLen = 128 := rfl
  rw [patternSpecificity_eq, patternSpecificity_eq]
  unfold Affordable at h ht
  omega

end Patterns

/-! ## Compilation with overflow checks -/

/-- `pushWildcard` -/
def pushWildcardChecked (pkg : String) (i : Nat) : List WildcardRule → Option (List WildcardRule)
  | [] =>
      match cstring pkg with
      | some c => (patternSpecificityChecked pkg).map fun score => [⟨pkg, c, score, [i]⟩]
      | none => some []
  | w :: ws =>
      if w.pattern = pkg then some ({ w with ruleIdxs := w.ruleIdxs ++ [i] } :: ws)
      else (pushWildcardChecked pkg i ws).map (w :: ·)

/-- `indexStep` -/
def indexStepChecked (idx : RuleIndex) (r : CompiledRule × Nat) : Option RuleIndex :=
  if containsWildcard r.1.pkg then
    (pushWildcardChecked r.1.pkg r.2 idx.wildcards).map fun ws =>
      { idx with wildcards := ws, pkgs := pushNew idx.pkgs r.1.pkg }
  else some (indexStep idx r)

/-- `buildIndex` -/
def buildIndexChecked (rules : List CompiledRule) : Option RuleIndex :=
  rules.zipIdx.foldlM indexStepChecked ⟨∅, [], []⟩

section Pushing

variable {pkg : String} {i : Nat}

theorem pushWildcardChecked_of_checked (ws : List WildcardRule)
    (h : (cstring pkg).isSome = true →
      patternSpecificityChecked pkg = some (patternSpecificity pkg)) :
    pushWildcardChecked pkg i ws = some (pushWildcard pkg i ws) := by
  induction ws with
  | nil =>
      unfold pushWildcardChecked pushWildcard
      cases hc : cstring pkg with
      | none => rfl
      | some c =>
          rw [hc] at h
          rw [h rfl]
          rfl
  | cons w ws ih =>
      unfold pushWildcardChecked pushWildcard
      by_cases hw : w.pattern = pkg
      · rw [if_pos hw, if_pos hw]
      · rw [if_neg hw, if_neg hw, ih]
        rfl

theorem pushWildcardChecked_panics {ws : List WildcardRule} (hnew : ∀ w ∈ ws, w.pattern ≠ pkg)
    (hc : (cstring pkg).isSome = true) (h : patternSpecificityChecked pkg = none) :
    pushWildcardChecked pkg i ws = none := by
  induction ws with
  | nil =>
      obtain ⟨c, hc⟩ := Option.isSome_iff_exists.mp hc
      unfold pushWildcardChecked
      rw [hc, h]
      rfl
  | cons w ws ih =>
      unfold pushWildcardChecked
      rw [if_neg (hnew w List.mem_cons_self), ih fun w hw => hnew w (List.mem_cons_of_mem _ hw)]
      rfl

end Pushing

/-- The patterns among the rules can be scored. -/
def AllAffordable (rules : List CompiledRule) : Prop :=
  ∀ r ∈ rules, isPattern r.pkg = true → Affordable r.pkg

theorem allAffordable_concat {rules : List CompiledRule} {r : CompiledRule} :
    AllAffordable (rules ++ [r]) ↔
      AllAffordable rules ∧ (isPattern r.pkg = true → Affordable r.pkg) := by
  simp [AllAffordable, or_imp, forall_and]

theorem indexStepChecked_of_affordable {r : CompiledRule} (hlen : r.pkg.utf8ByteSize < maxPkgLen)
    (h : isPattern r.pkg = true → Affordable r.pkg) (idx : RuleIndex) (n : Nat) :
    indexStepChecked idx (r, n) = some (indexStep idx (r, n)) := by
  unfold indexStepChecked
  by_cases hwild : containsWildcard r.pkg = true
  · have hchecked : (cstring r.pkg).isSome = true →
        patternSpecificityChecked r.pkg = some (patternSpecificity r.pkg) := by
      intro hc
      rw [patternSpecificityChecked_eq hlen, if_pos (h (by rw [isPattern, hwild, hc]; rfl))]
    rw [if_pos hwild, pushWildcardChecked_of_checked _ hchecked, indexStep, if_pos hwild]
    rfl
  · rw [if_neg hwild]

/-- The first rule of a pattern that cannot be scored: there is no group of it yet. -/
theorem indexStepChecked_panics {rules : List CompiledRule} (hrules : AllAffordable rules)
    {r : CompiledRule} (hlen : r.pkg.utf8ByteSize < maxPkgLen) (hpattern : isPattern r.pkg = true)
    (h : ¬ Affordable r.pkg) (n : Nat) :
    indexStepChecked (buildIndex rules) (r, n) = none := by
  obtain ⟨hwild, hc⟩ := Bool.and_eq_true_iff.mp hpattern
  have hnew : ∀ w ∈ (buildIndex rules).wildcards, w.pattern ≠ r.pkg := by
    intro w hw heq
    have hmem : w ∈ (RuleSet.ofRules rules).wildcards := hw
    obtain ⟨r', hr', hpattern', rfl⟩ := mem_wildcards_iff.mp hmem
    rw [groupOf_pattern] at heq
    exact h (heq ▸ hrules r' hr' hpattern')
  have hchecked : patternSpecificityChecked r.pkg = none := by
    rw [patternSpecificityChecked_eq hlen, if_neg h]
  unfold indexStepChecked
  rw [if_pos hwild, pushWildcardChecked_panics hnew hc hchecked]
  rfl

theorem buildIndexChecked_concat (rules : List CompiledRule) (r : CompiledRule) :
    buildIndexChecked (rules ++ [r]) =
      (buildIndexChecked rules).bind fun idx => indexStepChecked idx (r, rules.length) := by
  unfold buildIndexChecked
  rw [List.zipIdx_append, List.foldlM_append]
  simp

/-- The index is the same when no score panics, and there is none when one does. -/
theorem buildIndexChecked_isSome_iff {rules : List CompiledRule}
    (hlen : ∀ r ∈ rules, r.pkg.utf8ByteSize < maxPkgLen) :
    (AllAffordable rules → buildIndexChecked rules = some (buildIndex rules)) ∧
      ((buildIndexChecked rules).isSome = true → AllAffordable rules) := by
  induction rules using List.reverseRecOn with
  | nil => exact ⟨fun _ => rfl, fun _ r hr => absurd hr List.not_mem_nil⟩
  | append_singleton rules r ih =>
      have hr : r.pkg.utf8ByteSize < maxPkgLen := hlen r (by simp)
      obtain ⟨hbuilt, hsome⟩ := ih fun r hr => hlen r (List.mem_append_left _ hr)
      have hstep : buildIndex (rules ++ [r]) = indexStep (buildIndex rules) (r, rules.length) := by
        simp [buildIndex, List.zipIdx_append]
      rw [buildIndexChecked_concat, allAffordable_concat, hstep]
      constructor
      · rintro ⟨hrules, hlast⟩
        rw [hbuilt hrules, Option.bind_some, indexStepChecked_of_affordable hr hlast]
      · intro hbind
        have hrules := hsome (Option.isSome_of_isSome_bind hbind)
        rw [hbuilt hrules, Option.bind_some] at hbind
        refine ⟨hrules, fun hpattern => by_contra fun hno => ?_⟩
        rw [indexStepChecked_panics hrules hr hpattern hno] at hbind
        exact Bool.false_ne_true hbind

/-! ## Whole configurations -/

/-- Compiling neither panics where overflows are checked nor wraps where they are not. -/
structure CompilesCleanly (configs : List RuleConfig) (topo : CpuTopology) : Prop where
  checked : (buildIndexChecked (compile configs topo).rules.rules).isSome = true
  release : ∀ w ∈ (compile configs topo).rules.wildcards,
    (w.specificity : Int) = specificityScore w.pattern

theorem allAffordable_compile_iff (configs : List RuleConfig) (topo : CpuTopology) :
    AllAffordable (compile configs topo).rules.rules ↔
      ∀ rc ∈ configs, rc.Accepted topo → isPattern rc.pkg = true → Affordable rc.pkg := by
  constructor
  · intro h rc hrc haccepted
    have hmem : (⟨rc.pkg, rc.thread, cstring rc.thread, rc.policy topo⟩ : CompiledRule) ∈
        (compile configs topo).rules.rules := mem_compile_rules.mpr ⟨rc, hrc, haccepted, rfl⟩
    have haffordable := h _ hmem
    exact haffordable
  · intro h r hr
    obtain ⟨rc, hrc, haccepted, rfl⟩ := mem_compile_rules.mp hr
    exact h rc hrc haccepted

theorem compilesCleanly_iff (configs : List RuleConfig) (topo : CpuTopology) :
    CompilesCleanly configs topo ↔ AllAffordable (compile configs topo).rules.rules := by
  have hlen : ∀ r ∈ (compile configs topo).rules.rules, r.pkg.utf8ByteSize < maxPkgLen := by
    intro r hr
    obtain ⟨rc, -, haccepted, rfl⟩ := mem_compile_rules.mp hr
    exact haccepted.pkg_lt
  obtain ⟨hbuilt, hsome⟩ := buildIndexChecked_isSome_iff hlen
  constructor
  · exact fun h => hsome h.checked
  · intro h
    refine ⟨by rw [hbuilt h]; rfl, fun w hw => ?_⟩
    obtain ⟨r, hr, hpattern, rfl⟩ := mem_wildcards_iff.mp hw
    exact (patternSpecificity_eq_score_iff (hlen r hr)).mpr (h r hr hpattern)

/-- The score of an accepted pattern stays above zero exactly when its wildcards, ten each,
cost no more than a hundred for every byte in front of the first and one for every other
character; and a configuration compiles cleanly when the patterns among its rules do. -/
theorem specificity_never_underflows_iff (s : String) (configs : List RuleConfig)
    (topo : CpuTopology) :
    (s.isEmpty = false → s.utf8ByteSize < maxPkgLen → containsWildcard s = true →
      (NoUnderflow s ↔ Affordable s)) ∧
      (CompilesCleanly configs topo ↔
        ∀ rc ∈ configs, rc.Accepted topo → isPattern rc.pkg = true → Affordable rc.pkg) := by
  refine ⟨fun _ hlen _ => noUnderflow_iff hlen, ?_⟩
  rw [compilesCleanly_iff, allAffordable_compile_iff]

theorem specificity_at_com_tencent : NoUnderflow "com.tencent.*" :=
  ((specificity_never_underflows_iff "com.tencent.*" [] (.flat 4)).1 (by decide) (by decide)
    (by decide)).mpr (by decide)

/-- The pattern of all packages: it is accepted, its score is −10, and the wrapped score is
above that of a pattern with a prefix. -/
theorem star_underflows :
    ¬ CompilesCleanly [.ofCpus "*" "" "0", .ofCpus "com.tencent.*" "" "1"] (.flat 4) ∧
      patternSpecificityChecked "*" = none ∧
      patternSpecificity "com.tencent.*" < patternSpecificity "*" := by
  refine ⟨fun h => ?_, by decide, by decide⟩
  have hstar := (compilesCleanly_iff _ _).mp h
  have haccepted : (RuleConfig.ofCpus "*" "" "0").Accepted (.flat 4) :=
    ⟨by decide, by decide, by decide, by decide +kernel⟩
  have haffordable := (allAffordable_compile_iff _ _).mp hstar _ List.mem_cons_self haccepted
    (by decide)
  exact absurd haffordable (by decide)

end Threadctl.Core

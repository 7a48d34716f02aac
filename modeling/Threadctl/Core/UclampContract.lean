import Threadctl.Core.ResolveSpec

/-!
# The utilisation clamps of an answer

The bounds come from the thread rules that hit, if one of them sets the bound,
otherwise from the package-level rules.  Within these rules the tightest bound wins;
across the two levels, and between floor and ceiling, nothing is compared.
-/

namespace Threadctl.Core

open Threadctl.Support.Ranked

def floors (rules : List CompiledRule) : List Nat :=
  rules.filterMap (·.policy.uclampMin)

def ceilings (rules : List CompiledRule) : List Nat :=
  rules.filterMap (·.policy.uclampMax)

section Clamps

variable (fnmatch : String → String → Bool) (rs : RuleSet) (pkg thread : String)

def RuleSet.hitRules : List CompiledRule :=
  (rs.exactRules pkg ++ rs.wildcardRules fnmatch pkg).filter (·.hitsThread fnmatch thread)

def RuleSet.levelRules : List CompiledRule :=
  (rs.exactRules pkg ++ rs.wildcardRules fnmatch pkg).filter (·.isPkgLevel)

/-- The rules that count for a bound: the thread rules that hit, if one sets it. -/
def RuleSet.boundRules (bound : Policy → Option Nat) : List CompiledRule :=
  if (rs.hitRules fnmatch pkg thread).any (fun r => (bound r.policy).isSome) then
    rs.hitRules fnmatch pkg thread
  else rs.levelRules fnmatch pkg

theorem countingRules_eq_boundRules (bound : Policy → Option Nat) :
    countingRules (rs.exactRules pkg) (rs.wildcardRules fnmatch pkg) fnmatch thread
        (fun p => (bound p).isSome) (rs.exactRules pkg) ++
      countingRules (rs.exactRules pkg) (rs.wildcardRules fnmatch pkg) fnmatch thread
        (fun p => (bound p).isSome) (rs.wildcardRules fnmatch pkg) =
      rs.boundRules fnmatch pkg thread bound := by
  have hany : (rs.hitRules fnmatch pkg thread).any (fun r => (bound r.policy).isSome) =
      (rs.exactRules pkg ++ rs.wildcardRules fnmatch pkg).any
        (fun r => r.hitsThread fnmatch thread && (bound r.policy).isSome) :=
    List.any_filter
  unfold countingRules RuleSet.boundRules
  rw [hany]
  split
  · exact (List.filter_append ..).symm
  · exact (List.filter_append ..).symm

/-- The bounds of an answer are the tightest ones of the rules that count. -/
theorem resolve_uclamp {p : Policy} (h : rs.resolve fnmatch pkg thread = some p) :
    p.uclampMin = (floors (rs.boundRules fnmatch pkg thread (·.uclampMin))).max? ∧
      p.uclampMax = (ceilings (rs.boundRules fnmatch pkg thread (·.uclampMax))).min? := by
  have hbounds := fillMissing_uclamp (rs.exactRules pkg) (rs.wildcardRules fnmatch pkg)
    fnmatch thread
  simp only [countingRules_eq_boundRules] at hbounds
  rw [eq_fillMissing_of_resolve h]
  exact hbounds

/-! ## Contract: clamps as global constraints -/

theorem mem_bounds_applicable (bound : Policy → Option Nat) (b : Nat) :
    b ∈ (rs.applicableRules fnmatch pkg thread).filterMap (fun r => bound r.policy) ↔
      b ∈ (rs.hitRules fnmatch pkg thread).filterMap (fun r => bound r.policy) ∨
        b ∈ (rs.levelRules fnmatch pkg).filterMap (fun r => bound r.policy) := by
  simp only [List.mem_filterMap, mem_applicableRules, RuleSet.hitRules, RuleSet.levelRules,
    List.mem_filter]
  constructor
  · rintro ⟨r, ⟨hr, hlevel | hhit⟩, hb⟩
    · exact Or.inr ⟨r, ⟨hr, hlevel⟩, hb⟩
    · exact Or.inl ⟨r, ⟨hr, hhit⟩, hb⟩
  · rintro (⟨r, ⟨hr, hhit⟩, hb⟩ | ⟨r, ⟨hr, hlevel⟩, hb⟩)
    · exact ⟨r, ⟨hr, Or.inr hhit⟩, hb⟩
    · exact ⟨r, ⟨hr, Or.inl hlevel⟩, hb⟩

theorem filterMap_boundRules (bound : Policy → Option Nat) :
    (rs.boundRules fnmatch pkg thread bound).filterMap (fun r => bound r.policy) =
      if (rs.hitRules fnmatch pkg thread).filterMap (fun r => bound r.policy) = [] then
        (rs.levelRules fnmatch pkg).filterMap (fun r => bound r.policy)
      else (rs.hitRules fnmatch pkg thread).filterMap (fun r => bound r.policy) := by
  have hnil : (rs.hitRules fnmatch pkg thread).filterMap (fun r => bound r.policy) = [] ↔
      ¬ (rs.hitRules fnmatch pkg thread).any (fun r => (bound r.policy).isSome) = true := by
    rw [List.filterMap_eq_nil_iff, List.any_eq_true]
    simp
  unfold RuleSet.boundRules
  by_cases hany : (rs.hitRules fnmatch pkg thread).any (fun r => (bound r.policy).isSome) = true
  · rw [if_pos hany, if_neg (fun h => hnil.mp h hany)]
  · rw [if_neg hany, if_pos (hnil.mpr hany)]

/-- The clamps of an answer are the tightest bounds of all rules that apply exactly
when no package-level rule is stricter than the thread rules that set the bound. -/
theorem resolve_uclamp_global_iff (p : Policy) (h : rs.resolve fnmatch pkg thread = some p) :
    (p.uclampMin = (floors (rs.applicableRules fnmatch pkg thread)).max? ∧
        p.uclampMax = (ceilings (rs.applicableRules fnmatch pkg thread)).min?) ↔
      (floors (rs.hitRules fnmatch pkg thread) ≠ [] →
          ∀ b ∈ floors (rs.levelRules fnmatch pkg),
            ∃ a ∈ floors (rs.hitRules fnmatch pkg thread), b ≤ a) ∧
        (ceilings (rs.hitRules fnmatch pkg thread) ≠ [] →
          ∀ b ∈ ceilings (rs.levelRules fnmatch pkg),
            ∃ a ∈ ceilings (rs.hitRules fnmatch pkg thread), a ≤ b) := by
  obtain ⟨hmin, hmax⟩ := resolve_uclamp fnmatch rs pkg thread h
  have hcount := filterMap_boundRules fnmatch rs pkg thread
  rw [hmin, hmax]
  unfold floors ceilings
  rw [hcount (·.uclampMin), hcount (·.uclampMax)]
  apply and_congr
  · apply max?_preferred_iff
    exact mem_bounds_applicable fnmatch rs pkg thread (·.uclampMin)
  · apply min?_preferred_iff
    exact mem_bounds_applicable fnmatch rs pkg thread (·.uclampMax)

/-! ## Contract: floor and ceiling together -/

theorem mem_rules_of_mem_boundRules {bound : Policy → Option Nat} {r : CompiledRule}
    (h : r ∈ rs.boundRules fnmatch pkg thread bound) : r ∈ rs.rules := by
  have hsource : ∀ {keep : CompiledRule → Bool},
      r ∈ (rs.exactRules pkg ++ rs.wildcardRules fnmatch pkg).filter keep → r ∈ rs.rules := by
    intro keep hr
    rcases List.mem_append.mp (List.mem_filter.mp hr).1 with hexact | hwild
    · exact (List.mem_filter.mp hexact).1
    · unfold RuleSet.wildcardRules at hwild
      split at hwild
      · exact (List.mem_filter.mp hwild).1
      · simp at hwild
  unfold RuleSet.boundRules at h
  split at h
  · exact hsource h
  · exact hsource h

/-- When every rule is consistent on its own, the clamps of an answer are in order
exactly when no two different rules that count contradict each other. -/
theorem resolve_uclamp_feasible_iff (p : Policy) (lo hi : Nat)
    (hcons : ∀ r ∈ rs.rules, ∀ a b, r.policy.uclampMin = some a → r.policy.uclampMax = some b →
      a ≤ b)
    (h : rs.resolve fnmatch pkg thread = some p)
    (hlo : p.uclampMin = some lo) (hhi : p.uclampMax = some hi) :
    lo ≤ hi ↔
      ∀ r ∈ rs.boundRules fnmatch pkg thread (·.uclampMin),
        ∀ r' ∈ rs.boundRules fnmatch pkg thread (·.uclampMax), r ≠ r' →
          ∀ a b, r.policy.uclampMin = some a → r'.policy.uclampMax = some b → a ≤ b := by
  obtain ⟨hmin, hmax⟩ := resolve_uclamp fnmatch rs pkg thread h
  rw [max?_le_min?_iff (hmin.symm.trans hlo) (hmax.symm.trans hhi)]
  constructor
  · intro hall r hr r' hr' _ a b ha hb
    exact hall a (List.mem_filterMap.mpr ⟨r, hr, ha⟩) b (List.mem_filterMap.mpr ⟨r', hr', hb⟩)
  · intro hpairs a ha b hb
    obtain ⟨r, hr, hra⟩ := List.mem_filterMap.mp ha
    obtain ⟨r', hr', hrb⟩ := List.mem_filterMap.mp hb
    by_cases heq : r = r'
    · subst heq
      exact hcons r (mem_rules_of_mem_boundRules fnmatch rs pkg thread hr) a b hra hrb
    · exact hpairs r hr r' hr' heq a b hra hrb

end Clamps

def floorRules (level hit : Nat) : RuleSet :=
  (compile [⟨"com.a", "", "0-3", none, none, some level, none⟩,
    ⟨"com.a", "Render*", "4-7", none, none, some hit, some 800⟩] (.flat 8)).rules

theorem resolve_uclamp_global_at_com_a :
    ∃ p, (floorRules 300 700).resolve glob "com.a" "RenderThread" = some p ∧
      p.uclampMin =
        (floors ((floorRules 300 700).applicableRules glob "com.a" "RenderThread")).max? := by
  have hsome : (floorRules 300 700).resolve glob "com.a" "RenderThread" =
      some ⟨parseCpuRanges "4-7" none, "4-7", none, none, none, some 700, some 800⟩ := by
    decide +kernel
  refine ⟨_, hsome, ?_⟩
  exact ((resolve_uclamp_global_iff glob (floorRules 300 700) "com.a" "RenderThread" _ hsome).mpr
    (by decide +kernel)).1

/-- The floor of the package is dropped where a thread rule sets a lower one. -/
theorem resolve_uclamp_lowers_floor :
    ∃ p, (floorRules 700 300).resolve glob "com.a" "RenderThread" = some p ∧
      p.uclampMin = some 300 ∧
      (floors ((floorRules 700 300).applicableRules glob "com.a" "RenderThread")).max? =
        some 700 := by
  have hsome : (floorRules 700 300).resolve glob "com.a" "RenderThread" =
      some ⟨parseCpuRanges "4-7" none, "4-7", none, none, none, some 300, some 800⟩ := by
    decide +kernel
  exact ⟨_, hsome, rfl, by decide +kernel⟩

theorem resolve_uclamp_feasible_at_com_a :
    700 ≤ 800 ↔
      ∀ r ∈ (floorRules 300 700).boundRules glob "com.a" "RenderThread" (·.uclampMin),
        ∀ r' ∈ (floorRules 300 700).boundRules glob "com.a" "RenderThread" (·.uclampMax),
          r ≠ r' → ∀ a b, r.policy.uclampMin = some a → r'.policy.uclampMax = some b → a ≤ b := by
  have hsome : (floorRules 300 700).resolve glob "com.a" "RenderThread" =
      some ⟨parseCpuRanges "4-7" none, "4-7", none, none, none, some 700, some 800⟩ := by
    decide +kernel
  have hcons : ∀ r ∈ (floorRules 300 700).rules, ∀ a ∈ r.policy.uclampMin,
      ∀ b ∈ r.policy.uclampMax, a ≤ b := by
    decide +kernel
  exact resolve_uclamp_feasible_iff glob (floorRules 300 700) "com.a" "RenderThread" _ 700 800
    (fun r hr a b ha hb => hcons r hr a ha b hb) hsome rfl rfl

/-- Two rules, each consistent, whose clamps cross: 300 to 512 and 700 to 1024. -/
theorem resolve_uclamp_crosses :
    let rs := (compile [⟨"com.x", "", "0-1", none, none, some 300, some 512⟩,
      ⟨"com.x", "", "2-3", none, none, some 700, some 1024⟩] (.flat 8)).rules
    (∀ r ∈ rs.rules, ∀ a ∈ r.policy.uclampMin, ∀ b ∈ r.policy.uclampMax, a ≤ b ∧ b ≤ 1024) ∧
      (rs.resolve glob "com.x" "").map (fun p => (p.uclampMin, p.uclampMax)) =
        some (some 700, some 512) := by
  decide +kernel

end Threadctl.Core

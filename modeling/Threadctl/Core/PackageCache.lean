import Threadctl.Core.Resolve
import Threadctl.Support.Memo
import Threadctl.Support.Runs

/-!
# The package cache

A rule set remembers the matches it collected for a package.  The cache belongs to
one instance: a clone starts with an empty one.  `package_cache_invisible` says that
no caller can tell a used cache from an empty one.
-/

namespace Threadctl.Core

open Threadctl.Support Threadctl.Support.Memo Threadctl.Support.Runs

/-! ## The source's functions -/

/-- A rule set with its cache. -/
structure CachedRuleSet where
  rules : RuleSet
  cache : HashMap String (List RuleMatch)

/-- What `compile` returns: nothing is cached yet. -/
def CachedRuleSet.ofCompiled (rs : RuleSet) : CachedRuleSet := ⟨rs, ∅⟩

/-- `Clone for RuleSet`: the rules and the index are copied, the cache is not. -/
def CachedRuleSet.clone (crs : CachedRuleSet) : CachedRuleSet := ⟨crs.rules, ∅⟩

section Cache

variable (fnmatch : String → String → Bool)

/-- `is_interested` from the collected matches. -/
def RuleSet.isInterestedIn (pkgMatches : List RuleMatch) : Bool :=
  !pkgMatches.isEmpty

/-- `has_thread_rules` from the collected matches. -/
def RuleSet.hasThreadRulesIn (rs : RuleSet) (pkgMatches : List RuleMatch) : Bool :=
  pkgMatches.any fun m => !rs.rules[m.index]!.thread.isEmpty

/-- `resolve` from the collected matches. -/
def RuleSet.resolveIn (rs : RuleSet) (pkgMatches : List RuleMatch) (thread : String) :
    Option Policy :=
  if pkgMatches.isEmpty then none
  else do
    let threadHits := pkgMatches.filter fun m => rs.rules[m.index]!.hitsThread fnmatch thread
    let pkgRules := pkgMatches.filter fun m => rs.rules[m.index]!.isPkgLevel
    let policy ←
      if threadHits.isEmpty then mergeRules pkgRules rs.rules
      else do
        let pol ← mergeRules threadHits rs.rules
        match mergeRules pkgRules rs.rules with
        | some fb => some (fillMissing pol fb)
        | none => some pol
    if policy.cpus.count = 0 ∧ policy.sched.isNone ∧ policy.nice.isNone then none
    else some { policy with cpusetDir := policy.cpus.toRangeString }

/-- `collect_pkg_matches`: the cached matches, or a scan whose result is cached, empty
results included. -/
def CachedRuleSet.collectPkgMatches (crs : CachedRuleSet) (pkg : String) :
    List RuleMatch × CachedRuleSet :=
  let (pkgMatches, cache) := ask (crs.rules.collectPkgMatches fnmatch) crs.cache pkg
  (pkgMatches, { crs with cache := cache })

def CachedRuleSet.isInterested (crs : CachedRuleSet) (pkg : String) : Bool × CachedRuleSet :=
  let (pkgMatches, crs') := crs.collectPkgMatches fnmatch pkg
  (RuleSet.isInterestedIn pkgMatches, crs')

def CachedRuleSet.hasThreadRules (crs : CachedRuleSet) (pkg : String) : Bool × CachedRuleSet :=
  let (pkgMatches, crs') := crs.collectPkgMatches fnmatch pkg
  (crs.rules.hasThreadRulesIn pkgMatches, crs')

def CachedRuleSet.resolve (crs : CachedRuleSet) (pkg thread : String) :
    Option Policy × CachedRuleSet :=
  let (pkgMatches, crs') := crs.collectPkgMatches fnmatch pkg
  (crs.rules.resolveIn fnmatch pkgMatches thread, crs')

/-! ## Calls -/

inductive CacheCall where
  | isInterested (pkg : String)
  | hasThreadRules (pkg : String)
  | resolve (pkg thread : String)

inductive CacheAnswer where
  | verdict (b : Bool)
  | policy (p : Option Policy)
  deriving DecidableEq

def CachedRuleSet.call (crs : CachedRuleSet) : CacheCall → CacheAnswer × CachedRuleSet
  | .isInterested pkg =>
      let (b, crs') := crs.isInterested fnmatch pkg
      (.verdict b, crs')
  | .hasThreadRules pkg =>
      let (b, crs') := crs.hasThreadRules fnmatch pkg
      (.verdict b, crs')
  | .resolve pkg thread =>
      let (p, crs') := crs.resolve fnmatch pkg thread
      (.policy p, crs')

def RuleSet.answer (rs : RuleSet) : CacheCall → CacheAnswer
  | .isInterested pkg => .verdict (rs.isInterested fnmatch pkg)
  | .hasThreadRules pkg => .verdict (rs.hasThreadRules fnmatch pkg)
  | .resolve pkg thread => .policy (rs.resolve fnmatch pkg thread)

/-- Every cached entry is what a scan collects. -/
def CachedRuleSet.Sound (crs : CachedRuleSet) : Prop :=
  Memo.Sound (crs.rules.collectPkgMatches fnmatch) crs.cache

theorem sound_ofCompiled (rs : RuleSet) : (CachedRuleSet.ofCompiled rs).Sound fnmatch :=
  sound_empty _

theorem sound_clone (crs : CachedRuleSet) : crs.clone.Sound fnmatch :=
  sound_empty _

theorem call_snd (crs : CachedRuleSet) (c : CacheCall) :
    ∃ pkg, (crs.call fnmatch c).2 = (crs.collectPkgMatches fnmatch pkg).2 := by
  cases c with
  | isInterested pkg => exact ⟨pkg, rfl⟩
  | hasThreadRules pkg => exact ⟨pkg, rfl⟩
  | resolve pkg thread => exact ⟨pkg, rfl⟩

@[simp] theorem call_rules (crs : CachedRuleSet) (c : CacheCall) :
    (crs.call fnmatch c).2.rules = crs.rules := by
  obtain ⟨pkg, h⟩ := call_snd fnmatch crs c
  rw [h]
  rfl

variable {fnmatch} {crs : CachedRuleSet}

theorem collectPkgMatches_fst (h : crs.Sound fnmatch) (pkg : String) :
    (crs.collectPkgMatches fnmatch pkg).1 = crs.rules.collectPkgMatches fnmatch pkg :=
  ask_fst h pkg

theorem sound_call (h : crs.Sound fnmatch) (c : CacheCall) :
    (crs.call fnmatch c).2.Sound fnmatch := by
  obtain ⟨pkg, hsnd⟩ := call_snd fnmatch crs c
  rw [hsnd]
  exact sound_ask h pkg

/-- With a sound cache every call answers as the rule set without one. -/
theorem call_fst (h : crs.Sound fnmatch) (c : CacheCall) :
    (crs.call fnmatch c).1 = crs.rules.answer fnmatch c := by
  cases c with
  | isInterested pkg =>
      show CacheAnswer.verdict (RuleSet.isInterestedIn (crs.collectPkgMatches fnmatch pkg).1) = _
      rw [collectPkgMatches_fst h]
      rfl
  | hasThreadRules pkg =>
      show CacheAnswer.verdict
        (crs.rules.hasThreadRulesIn (crs.collectPkgMatches fnmatch pkg).1) = _
      rw [collectPkgMatches_fst h]
      rfl
  | resolve pkg thread =>
      show CacheAnswer.policy
        (crs.rules.resolveIn fnmatch (crs.collectPkgMatches fnmatch pkg).1 thread) = _
      rw [collectPkgMatches_fst h]
      rfl

end Cache

/-! ## Histories -/

/-- The instances of one compiled rule set and the calls made so far with their
answers. -/
structure CacheHistory where
  instances : List CachedRuleSet
  answers : List (CacheCall × CacheAnswer)

inductive CacheMove where
  | call (i : Nat) (c : CacheCall)
  | clone (i : Nat)

/-- A move of an instance that does not exist changes nothing. -/
def CacheHistory.step (fnmatch : String → String → Bool) (h : CacheHistory) :
    CacheMove → CacheHistory
  | .call i c =>
      match h.instances[i]? with
      | some crs =>
          { instances := h.instances.set i (crs.call fnmatch c).2
            answers := h.answers ++ [(c, (crs.call fnmatch c).1)] }
      | none => h
  | .clone i =>
      match h.instances[i]? with
      | some crs => { h with instances := h.instances ++ [crs.clone] }
      | none => h

def CacheHistory.start (crs : CachedRuleSet) : CacheHistory := ⟨[crs], []⟩

section History

variable (fnmatch : String → String → Bool) (rs : RuleSet)

/-- All instances hold the compiled rules and a sound cache, and all answers are those
of the rule set without a cache. -/
structure CacheHistory.Transparent (h : CacheHistory) : Prop where
  instances_ok : ∀ crs ∈ h.instances, crs.rules = rs ∧ crs.Sound fnmatch
  answers_ok : ∀ e ∈ h.answers, e.2 = rs.answer fnmatch e.1

theorem transparent_start :
    (CacheHistory.start (.ofCompiled rs)).Transparent fnmatch rs where
  instances_ok := by
    intro crs hcrs
    rw [List.mem_singleton.mp hcrs]
    exact ⟨rfl, sound_ofCompiled fnmatch rs⟩
  answers_ok := by
    intro e he
    exact absurd he List.not_mem_nil

theorem transparent_step {h : CacheHistory} (htransparent : h.Transparent fnmatch rs)
    (m : CacheMove) : (h.step fnmatch m).Transparent fnmatch rs := by
  cases m with
  | call i c =>
      cases hi : h.instances[i]? with
      | none =>
          simp only [CacheHistory.step, hi]
          exact htransparent
      | some crs =>
          obtain ⟨hrules, hsound⟩ := htransparent.instances_ok crs (List.mem_of_getElem? hi)
          simp only [CacheHistory.step, hi]
          constructor
          · intro crs' hcrs'
            rcases List.mem_or_eq_of_mem_set hcrs' with hold | hnew
            · exact htransparent.instances_ok crs' hold
            · rw [hnew, call_rules]
              exact ⟨hrules, sound_call hsound c⟩
          · intro e he
            rcases List.mem_append.mp he with hold | hnew
            · exact htransparent.answers_ok e hold
            · rw [List.mem_singleton.mp hnew, call_fst hsound, hrules]
  | clone i =>
      cases hi : h.instances[i]? with
      | none =>
          simp only [CacheHistory.step, hi]
          exact htransparent
      | some crs =>
          obtain ⟨hrules, -⟩ := htransparent.instances_ok crs (List.mem_of_getElem? hi)
          simp only [CacheHistory.step, hi]
          constructor
          · intro crs' hcrs'
            rcases List.mem_append.mp hcrs' with hold | hnew
            · exact htransparent.instances_ok crs' hold
            · rw [List.mem_singleton.mp hnew]
              exact ⟨hrules, sound_clone fnmatch crs⟩
          · exact htransparent.answers_ok

end History

/-! ## Contract -/

/-- After any calls on any clones of a compiled rule set, every answer given is the one
a freshly compiled instance gives, and every cached entry is what a scan collects. -/
theorem package_cache_invisible (fnmatch : String → String → Bool) (configs : List RuleConfig)
    (topo : CpuTopology) (moves : List CacheMove) :
    let fresh := CachedRuleSet.ofCompiled (compile configs topo).rules
    let h := run (CacheHistory.step fnmatch) (.start fresh) moves
    (∀ e ∈ h.answers, e.2 = (fresh.call fnmatch e.1).1) ∧
      ∀ crs ∈ h.instances, ∀ pkg pkgMatches, crs.cache.lookup pkg = some pkgMatches →
        pkgMatches = fresh.rules.collectPkgMatches fnmatch pkg := by
  intro fresh h
  have htransparent : h.Transparent fnmatch fresh.rules :=
    run_invariant _ (Q := CacheHistory.Transparent fnmatch fresh.rules)
      (fun _ m hprev => transparent_step fnmatch fresh.rules hprev m)
      (transparent_start fnmatch fresh.rules) moves
  constructor
  · intro e he
    rw [call_fst (sound_ofCompiled fnmatch _)]
    exact htransparent.answers_ok e he
  · intro crs hcrs pkg pkgMatches hlookup
    obtain ⟨hrules, hsound⟩ := htransparent.instances_ok crs hcrs
    rw [← hrules]
    exact hsound pkg pkgMatches hlookup

/-- An empty result is cached as well. -/
example :
    (((CachedRuleSet.ofCompiled (compile [.ofCpus "com.a" "" "0-3"] (.flat 8)).rules).call glob
      (.isInterested "com.b")).2.cache.lookup "com.b") = some [] := by
  decide +kernel

end Threadctl.Core

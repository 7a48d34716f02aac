import Threadctl.Core.Expansion
import Threadctl.Core.PackageMatch

/-!
# From a configured app to the whitelist

Which rules an app contributes, read off its policy nodes, and when its package ends
up among the packages the rules are interested in.
-/

namespace Threadctl.Core

theorem compileRules_errors_concat (topo : CpuTopology) (configs : List RuleConfig)
    (rc : RuleConfig) :
    (compileRules topo (configs ++ [rc])).2 =
      (compileRules topo configs).2 ++
        match compileRule topo rc with
        | .ok _ => []
        | .error reason => [⟨configs.length, reason⟩] := by
  unfold compileRules
  rw [List.zipIdx_append, List.foldl_append]
  cases h : compileRule topo rc <;> simp [h]

/-- Every rejected rule is reported under its position, with its reason. -/
theorem mem_compile_errors {configs : List RuleConfig} {topo : CpuTopology} {e : RuleError} :
    e ∈ (compile configs topo).errors ↔
      ∃ rc, configs[e.index]? = some rc ∧ compileRule topo rc = .error e.reason := by
  change e ∈ (compileRules topo configs).2 ↔ _
  induction configs using List.reverseRecOn with
  | nil => simp [compileRules]
  | append_singleton configs rc ih =>
      rw [compileRules_errors_concat, List.mem_append, ih]
      constructor
      · rintro (⟨rc', hget, herr⟩ | hlast)
        · have hlt : e.index < configs.length := (List.getElem?_eq_some_iff.mp hget).1
          exact ⟨rc', by rw [List.getElem?_append_left hlt, hget], herr⟩
        · cases hrc : compileRule topo rc with
          | ok r => simp [hrc] at hlast
          | error reason =>
              have he : e = ⟨configs.length, reason⟩ := by simpa [hrc] using hlast
              subst he
              exact ⟨rc, by simp, hrc⟩
      · rintro ⟨rc', hget, herr⟩
        rcases Nat.lt_trichotomy e.index configs.length with hlt | heq | hgt
        · rw [List.getElem?_append_left hlt] at hget
          exact Or.inl ⟨rc', hget, herr⟩
        · rw [heq, List.getElem?_concat_length, Option.some.injEq] at hget
          subst hget
          right
          rw [herr]
          simp [← heq]
        · have hnone : (configs ++ [rc])[e.index]? = none := by simp; omega
          rw [hnone] at hget
          exact absurd hget (by simp)

/-! ## The rules of an app -/

/-- `pol` is a policy node of the app, under the thread pattern `thread`; a thread
type stands for one node per pattern of its alias. -/
def AppModel.Node (app : AppModel) (thread : String) (pol : PolicyModel) : Prop :=
  (thread = "" ∧ pol = mergedDefault app) ∨
    (thread, pol) ∈ entriesOf (mergedThreads app) ∨
    ∃ ttype patterns, (ttype, pol) ∈ entriesOf (mergedThreadTypes app) ∧
      threadTypePatterns ttype = some patterns ∧ thread ∈ patterns

/-- No default, and no thread or thread type with CPUs: the placeholder is added. -/
def AppModel.NeedsPlaceholder (app : AppModel) : Prop :=
  hasAnyPolicy (mergedDefault app) = false ∧
    (∀ e ∈ entriesOf (mergedThreads app), hasCpus e.2 = false) ∧
    ∀ e ∈ entriesOf (mergedThreadTypes app), hasCpus e.2 = false

/-- `rc` is a rule of the app: that of a node which is not blank, or the placeholder. -/
def AppModel.HasRule (clusters : List CpuCluster) (app : AppModel) (rc : RuleConfig) : Prop :=
  (∃ thread pol, app.Node thread pol ∧ hasAnyPolicy pol = true ∧
      rc = ruleOf app.pkg thread pol clusters) ∨
    (app.NeedsPlaceholder ∧ rc = .ofCpus app.pkg "" "")

theorem mem_placeholderRules {clusters : List CpuCluster} {app : AppModel} {rc : RuleConfig} :
    rc ∈ placeholderRules clusters app ↔ app.NeedsPlaceholder ∧ rc = .ofCpus app.pkg "" "" := by
  have hdefault : (policyToRules app.pkg "" (mergedDefault app) clusters).isEmpty =
      !hasAnyPolicy (mergedDefault app) := by
    unfold policyToRules
    cases hasAnyPolicy (mergedDefault app) <;> rfl
  have hneeds : app.NeedsPlaceholder ↔
      ¬ ((!(policyToRules app.pkg "" (mergedDefault app) clusters).isEmpty ||
        (entriesOf (mergedThreads app)).any (fun e => hasCpus e.2) ||
        (entriesOf (mergedThreadTypes app)).any (fun e => hasCpus e.2)) = true) := by
    rw [hdefault, Bool.not_not, Bool.or_eq_true, Bool.or_eq_true, not_or, not_or,
      AppModel.NeedsPlaceholder, and_assoc]
    simp
  change (rc ∈ if _ then _ else _) ↔ _
  split
  · rename_i hany
    have hno : ¬ app.NeedsPlaceholder := fun h => hneeds.mp h hany
    simp [hno]
  · rename_i hany
    have hyes : app.NeedsPlaceholder := hneeds.mpr hany
    simp [hyes]

theorem mem_expandApp {order : IterOrder} {clusters : List CpuCluster}
    {entry : String × AppModel} {rc : RuleConfig} :
    rc ∈ expandApp order clusters entry ↔ entry.2.HasRule clusters rc := by
  have hthreads : ∀ {e}, e ∈ order.threads entry.1 (entriesOf (mergedThreads entry.2)) ↔
      e ∈ entriesOf (mergedThreads entry.2) := (order.threads_perm _ _).mem_iff
  have htypes : ∀ {e}, e ∈ order.threadTypes entry.1 (entriesOf (mergedThreadTypes entry.2)) ↔
      e ∈ entriesOf (mergedThreadTypes entry.2) := (order.threadTypes_perm _ _).mem_iff
  simp only [expandApp, List.mem_append, List.mem_flatMap, hthreads, htypes,
    mem_placeholderRules, mem_policyToRules, AppModel.HasRule]
  constructor
  · rintro (((⟨hset, rfl⟩ | ⟨e, he, hset, rfl⟩) | ⟨e, he, hrc⟩) | hplace)
    · exact Or.inl ⟨"", _, Or.inl ⟨rfl, rfl⟩, hset, rfl⟩
    · exact Or.inl ⟨e.1, e.2, Or.inr (Or.inl he), hset, rfl⟩
    · obtain ⟨patterns, pattern, halias, hpattern, hset, rfl⟩ := mem_typeRules.mp hrc
      exact Or.inl ⟨pattern, e.2, Or.inr (Or.inr ⟨e.1, patterns, he, halias, hpattern⟩), hset, rfl⟩
    · exact Or.inr hplace
  · rintro (⟨thread, pol, hnode, hset, rfl⟩ | hplace)
    · left
      rcases hnode with ⟨rfl, rfl⟩ | hthread | ⟨ttype, patterns, htype, halias, hpattern⟩
      · exact Or.inl (Or.inl ⟨hset, rfl⟩)
      · exact Or.inl (Or.inr ⟨_, hthread, hset, rfl⟩)
      · exact Or.inr ⟨_, htype, mem_typeRules.mpr ⟨patterns, thread, halias, hpattern, hset, rfl⟩⟩
    · exact Or.inr hplace

theorem mem_toRulesWithClusters {order : IterOrder} {model : ConfigModel}
    {clusters : List CpuCluster} {rc : RuleConfig} :
    rc ∈ model.toRulesWithClusters order clusters ↔
      ∃ key app, (key, app) ∈ entriesOf model.apps ∧ app.HasRule clusters rc := by
  rw [ConfigModel.toRulesWithClusters, List.mem_flatMap]
  constructor
  · rintro ⟨entry, hentry, hrc⟩
    exact ⟨entry.1, entry.2, (order.apps_perm _).mem_iff.mp hentry, mem_expandApp.mp hrc⟩
  · rintro ⟨key, app, happ, hrc⟩
    exact ⟨(key, app), (order.apps_perm _).mem_iff.mpr happ, mem_expandApp.mpr hrc⟩

theorem pkg_of_hasRule {clusters : List CpuCluster} {app : AppModel} {rc : RuleConfig}
    (h : app.HasRule clusters rc) : rc.pkg = app.pkg := by
  rcases h with ⟨thread, pol, -, -, rfl⟩ | ⟨-, rfl⟩
  · rfl
  · rfl

/-- Nothing but blank nodes, and a thread type with CPUs whose alias is unknown. -/
def AppModel.Silent (app : AppModel) : Prop :=
  hasAnyPolicy (mergedDefault app) = false ∧
    (∀ e ∈ entriesOf (mergedThreads app), hasAnyPolicy e.2 = false) ∧
    (∀ e ∈ entriesOf (mergedThreadTypes app), (threadTypePatterns e.1).isSome = true →
      hasAnyPolicy e.2 = false) ∧
    ∃ e ∈ entriesOf (mergedThreadTypes app), hasCpus e.2 = true

theorem patterns_ne_nil {ttype : String} {patterns : List String}
    (h : threadTypePatterns ttype = some patterns) : patterns ≠ [] := by
  have haliases : ∀ a ∈ threadTypeAliases, a.2 ≠ [] := by decide
  obtain ⟨a, ha, rfl⟩ := Option.map_eq_some_iff.mp h
  exact haliases a (List.mem_of_find?_eq_some ha)

theorem hasAnyPolicy_of_hasCpus {pol : PolicyModel} (h : hasCpus pol = true) :
    hasAnyPolicy pol = true := by
  simp [hasAnyPolicy, h]

theorem hasAnyPolicy_node_of_silent {app : AppModel} (h : app.Silent) {thread : String}
    {pol : PolicyModel} (hnode : app.Node thread pol) : hasAnyPolicy pol = false := by
  obtain ⟨hdefault, hthreads, htypes, -⟩ := h
  rcases hnode with ⟨-, rfl⟩ | hthread | ⟨ttype, patterns, htype, halias, -⟩
  · exact hdefault
  · exact hthreads _ hthread
  · exact htypes _ htype (by rw [halias]; rfl)

theorem exists_hasRule_iff (clusters : List CpuCluster) (app : AppModel) :
    (∃ rc, app.HasRule clusters rc) ↔ ¬ app.Silent := by
  constructor
  · rintro ⟨rc, ⟨thread, pol, hnode, hset, -⟩ | ⟨hneeds, -⟩⟩ hsilent
    · rw [hasAnyPolicy_node_of_silent hsilent hnode] at hset
      exact absurd hset (by simp)
    · obtain ⟨-, -, -, e, he, hcpus⟩ := hsilent
      rw [hneeds.2.2 e he] at hcpus
      exact absurd hcpus (by simp)
  · intro hloud
    by_contra hnone
    have hblank : ∀ {thread pol}, app.Node thread pol → hasAnyPolicy pol = false := by
      intro thread pol hnode
      by_contra hset
      exact hnone ⟨_, Or.inl ⟨thread, pol, hnode, by simpa using hset, rfl⟩⟩
    have hdefault : hasAnyPolicy (mergedDefault app) = false := hblank (Or.inl ⟨rfl, rfl⟩)
    have hthreads : ∀ e ∈ entriesOf (mergedThreads app), hasAnyPolicy e.2 = false :=
      fun e he => hblank (Or.inr (Or.inl he))
    have htypes : ∀ e ∈ entriesOf (mergedThreadTypes app),
        (threadTypePatterns e.1).isSome = true → hasAnyPolicy e.2 = false := by
      intro e he hknown
      obtain ⟨patterns, halias⟩ := Option.isSome_iff_exists.mp hknown
      obtain ⟨pattern, hpattern⟩ := List.exists_mem_of_ne_nil _ (patterns_ne_nil halias)
      exact hblank (Or.inr (Or.inr ⟨e.1, patterns, he, halias, hpattern⟩))
    by_cases hcpus : ∃ e ∈ entriesOf (mergedThreadTypes app), hasCpus e.2 = true
    · exact hloud ⟨hdefault, hthreads, htypes, hcpus⟩
    · -- no CPUs anywhere: the placeholder is there
      refine hnone ⟨_, Or.inr ⟨⟨hdefault, ?_, ?_⟩, rfl⟩⟩
      · intro e he
        by_contra hset
        have := hasAnyPolicy_of_hasCpus (by simpa using hset : hasCpus e.2 = true)
        rw [hthreads e he] at this
        exact absurd this (by simp)
      · intro e he
        by_contra hset
        exact hcpus ⟨e, he, by simpa using hset⟩

/-! ## Contract: whitelisted or reported -/

section Contract

variable (fnmatch : String → String → Bool) (order : IterOrder) (model : ConfigModel)
  (clusters : List CpuCluster) (topo : CpuTopology)

/-- The package is wanted by the compiled rules, or an error names a rule of it. -/
def WhitelistedOrReported (pkg : String) : Prop :=
  let configs := model.toRulesWithClusters order clusters
  let result := compile configs topo
  result.rules.isInterested fnmatch pkg = true ∨
    ∃ e ∈ result.errors, ∃ rc, configs[e.index]? = some rc ∧ rc.pkg = pkg

/-- A rule of some app whose name is a pattern that can be chosen for the package. -/
def CoveredByPattern (pkg : String) : Prop :=
  pkg.utf8ByteSize < maxPkgLen ∧
    ∃ key app, (key, app) ∈ entriesOf model.apps ∧ containsWildcard app.pkg = true ∧
      covers fnmatch app.pkg pkg = true ∧ reachable app.pkg = true ∧
      ∃ rc, app.HasRule clusters rc ∧ rc.Accepted topo

theorem isInterested_of_accepted {configs : List RuleConfig} {rc : RuleConfig}
    (hrc : rc ∈ configs) (haccepted : rc.Accepted topo) (hplain : containsWildcard rc.pkg = false) :
    (compile configs topo).rules.isInterested fnmatch rc.pkg = true := by
  rw [isInterested_iff, mem_pkgs_iff]
  exact Or.inl ⟨⟨_, mem_compile_rules.mpr ⟨rc, hrc, haccepted, rfl⟩, rfl⟩, hplain⟩

theorem reported_of_not_accepted {configs : List RuleConfig} {rc : RuleConfig}
    (hrc : rc ∈ configs) (hrejected : ¬ rc.Accepted topo) :
    ∃ e ∈ (compile configs topo).errors, configs[e.index]? = some rc := by
  obtain ⟨i, hi, hget⟩ := List.mem_iff_getElem.mp hrc
  cases hcompile : compileRule topo rc with
  | ok r => exact absurd (compileRule_eq_ok_iff.mp hcompile).1 hrejected
  | error reason =>
      have hsome : configs[i]? = some rc := by rw [List.getElem?_eq_getElem hi, hget]
      exact ⟨⟨i, reason⟩, mem_compile_errors.mpr ⟨rc, hsome, hcompile⟩, hsome⟩

/-- A plain package name is whitelisted or reported exactly when some app of that
package is not silent, or a pattern of the configuration covers it. -/
theorem whitelistedOrReported_iff (pkg : String) (hplain : containsWildcard pkg = false) :
    WhitelistedOrReported fnmatch order model clusters topo pkg ↔
      (∃ key app, (key, app) ∈ entriesOf model.apps ∧ app.pkg = pkg ∧ ¬ app.Silent) ∨
        CoveredByPattern fnmatch model clusters topo pkg := by
  have hown : ∀ rc ∈ model.toRulesWithClusters order clusters, rc.pkg = pkg →
      ∃ key app, (key, app) ∈ entriesOf model.apps ∧ app.pkg = pkg ∧ ¬ app.Silent := by
    intro rc hrc hpkg
    obtain ⟨key, app, happ, hrule⟩ := mem_toRulesWithClusters.mp hrc
    exact ⟨key, app, happ, (pkg_of_hasRule hrule).symm.trans hpkg,
      (exists_hasRule_iff clusters app).mp ⟨rc, hrule⟩⟩
  constructor
  · rintro (hwanted | ⟨e, -, rc, hget, hpkg⟩)
    · rcases (isInterested_iff fnmatch _ _).mp hwanted with ⟨hlisted, -⟩ | ⟨w, hw, hcandidate⟩
      · obtain ⟨r, hr, hpkg⟩ := mem_pkgs_iff.mp hlisted
        obtain ⟨rc, hrc, -, rfl⟩ := mem_compile_rules.mp hr
        exact Or.inl (hown rc hrc hpkg)
      · obtain ⟨r, hr, hpattern, rfl⟩ := mem_wildcards_iff.mp hw
        obtain ⟨rc, hrc, haccepted, rfl⟩ := mem_compile_rules.mp hr
        obtain ⟨key, app, happ, hrule⟩ := mem_toRulesWithClusters.mp hrc
        have hlen : pkg.utf8ByteSize < maxPkgLen := by
          by_contra hlong
          simp [WildcardRule.isCandidate, fnmatchPkg, Nat.not_lt.mp hlong] at hcandidate
        obtain ⟨hcovers, hreach⟩ :=
          (isCandidate_groupOf_iff fnmatch haccepted.pkg_lt hlen hpattern).mp hcandidate
        have hname := pkg_of_hasRule hrule
        have hwild := (Bool.and_eq_true_iff.mp hpattern).1
        exact Or.inr ⟨hlen, key, app, happ, hname ▸ hwild, hname ▸ hcovers, hname ▸ hreach, rc,
          hrule, haccepted⟩
    · exact Or.inl (hown rc (List.mem_of_getElem? hget) hpkg)
  · rintro (⟨key, app, happ, hpkg, hloud⟩ | ⟨hlen, key, app, happ, -, hcovers, hreach, rc, hrule,
      haccepted⟩)
    · obtain ⟨rc, hrule⟩ := (exists_hasRule_iff clusters app).mpr hloud
      have hrc : rc ∈ model.toRulesWithClusters order clusters :=
        mem_toRulesWithClusters.mpr ⟨key, app, happ, hrule⟩
      have hname : rc.pkg = pkg := (pkg_of_hasRule hrule).trans hpkg
      by_cases haccepted : rc.Accepted topo
      · have hwanted := isInterested_of_accepted fnmatch topo hrc haccepted (hname ▸ hplain)
        exact Or.inl (hname ▸ hwanted)
      · obtain ⟨e, he, hget⟩ := reported_of_not_accepted topo hrc haccepted
        exact Or.inr ⟨e, he, rc, hget, hname⟩
    · left
      have hrc : rc ∈ model.toRulesWithClusters order clusters :=
        mem_toRulesWithClusters.mpr ⟨key, app, happ, hrule⟩
      have hname := pkg_of_hasRule hrule
      exact (isInterested_compile_iff fnmatch _ topo hlen).mpr
        ⟨_, mem_compile_rules.mpr ⟨rc, hrc, haccepted, rfl⟩, hname ▸ hcovers, hname ▸ hreach⟩

end Contract

/-- One app whose only node is a thread type on the little cluster. -/
def typeOnlyModel (ttype : String) : ConfigModel where
  apps := AList.singleton "com.a"
    ⟨"com.a", none, .default, ∅, AList.singleton ttype (onCluster "little")⟩

theorem whitelistedOrReported_at_com_a :
    WhitelistedOrReported glob .identity (typeOnlyModel "render") [] (.flat 8) "com.a" :=
  (whitelistedOrReported_iff glob .identity (typeOnlyModel "render") [] (.flat 8) "com.a"
    (by decide)).mpr (Or.inl ⟨"com.a", _, List.mem_singleton_self _, rfl, by
      rintro ⟨-, -, htypes, -⟩
      have hrender := htypes ("render", onCluster "little") (by decide +kernel) (by decide)
      exact absurd hrender (by decide)⟩)

/-- A misspelt thread type: no rule, no placeholder, no error. -/
theorem not_whitelistedOrReported :
    ¬ WhitelistedOrReported glob .identity (typeOnlyModel "rendr") [] (.flat 8) "com.a" := by
  have hresult : (compile ((typeOnlyModel "rendr").toRulesWithClusters .identity [])
      (.flat 8)).rules.isInterested glob "com.a" = false ∧
      (compile ((typeOnlyModel "rendr").toRulesWithClusters .identity [])
        (.flat 8)).errors.isEmpty = true := by
    decide +kernel
  rintro (hwanted | ⟨e, he, -⟩)
  · exact absurd hwanted (by simp [hresult.1])
  · exact absurd he (by simp [List.isEmpty_iff.mp hresult.2])

end Threadctl.Core

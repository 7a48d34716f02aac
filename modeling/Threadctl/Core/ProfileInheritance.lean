import Threadctl.Core.Override
import Threadctl.Core.Whitelist

/-!
# Profile templates under wildcard packages

Expansion flattens a profile into the rules of the app that names it, so the template
reaches `resolve` with the rank of that app.  `pattern_overrides_template_iff` says when
the settings of a wildcard app still reach an app that only names a profile.
-/

namespace Threadctl.Core

open Threadctl.Support.FirstHit

/-- Every app is filed under its own package name, as `parse_kdl` leaves it. -/
def ConfigModel.Keyed (model : ConfigModel) : Prop :=
  ∀ e ∈ entriesOf model.apps, e.2.pkg = e.1

theorem entry_eq_of_pkg {model : ConfigModel} (h : model.Keyed) {a b : String × AppModel}
    (ha : a ∈ entriesOf model.apps) (hb : b ∈ entriesOf model.apps) (hpkg : a.2.pkg = b.2.pkg) :
    a = b := by
  apply entriesOf_eq_of_key ha hb
  rw [← h a ha, ← h b hb, hpkg]

/-! ## Package-level rules -/

def levelRules (keep : CompiledRule → Bool) (rules : List CompiledRule) : List CompiledRule :=
  rules.filter fun r => keep r && r.isPkgLevel

theorem pattern_ne_empty {ttype pat : String} {patterns : List String}
    (h : threadTypePatterns ttype = some patterns) (hpat : pat ∈ patterns) : pat ≠ "" := by
  have haliases : ∀ a ∈ threadTypeAliases, ∀ p ∈ a.2, p ≠ "" := by decide
  obtain ⟨a, ha, rfl⟩ := Option.map_eq_some_iff.mp h
  exact haliases a (List.mem_of_find?_eq_some ha) pat hpat

theorem levelRules_typeNodeRules (keep : CompiledRule → Bool) (topo : CpuTopology) (pkg : String)
    (e : String × PolicyModel) : levelRules keep (typeNodeRules topo pkg e) = [] := by
  rw [levelRules, List.filter_eq_nil_iff]
  intro r hr hlevel
  obtain ⟨rc, hrc, hr⟩ := List.mem_filterMap.mp hr
  obtain ⟨patterns, pat, halias, hpat, -, rfl⟩ := mem_typeRules.mp hrc
  obtain ⟨-, rfl⟩ := compiled_eq_some_iff.mp hr
  have hthread : pat.isEmpty = true := (Bool.and_eq_true_iff.mp hlevel).2
  exact pattern_ne_empty halias hpat (String.isEmpty_iff.mp hthread)

theorem name_of_levelRules_nodeRules {keep : CompiledRule → Bool} {topo : CpuTopology}
    {pkg : String} {e : String × PolicyModel} (h : levelRules keep (nodeRules topo pkg e) ≠ []) :
    e.1 = "" := by
  obtain ⟨r, hr⟩ := List.exists_mem_of_ne_nil _ h
  obtain ⟨hmem, hlevel⟩ := List.mem_filter.mp hr
  obtain ⟨rc, hrc, hr⟩ := List.mem_filterMap.mp hmem
  rw [(mem_policyToRules.mp hrc).2] at hr
  obtain ⟨-, rfl⟩ := compiled_eq_some_iff.mp hr
  have hthread : e.1.isEmpty = true := (Bool.and_eq_true_iff.mp hlevel).2
  exact String.isEmpty_iff.mp hthread

theorem nodup_entries {ν : Type} (m : HashMap String ν) : (entriesOf m).Nodup :=
  (nodup_entriesOf m).of_map _

theorem levelRules_tiers (keep : CompiledRule → Bool) (order : IterOrder) (topo : CpuTopology)
    (entry : String × AppModel) :
    levelRules keep (compiledTiers order topo entry).flatten =
      levelRules keep (compiledTiers .identity topo entry).flatten := by
  have hflat : ∀ {l : List (String × PolicyModel)} {f : String × PolicyModel → List CompiledRule},
      levelRules keep (l.flatMap f) = l.flatMap fun e => levelRules keep (f e) :=
    fun {_ _} => List.filter_flatMap ..
  have happend : ∀ {l l' : List CompiledRule},
      levelRules keep (l ++ l') = levelRules keep l ++ levelRules keep l' :=
    fun {_ _} => List.filter_append ..
  have hempty : ∀ l : List (String × PolicyModel),
      l.flatMap (fun _ => ([] : List CompiledRule)) = [] :=
    fun l => List.flatMap_eq_nil_iff.mpr fun _ _ => rfl
  have hthreads : (order.threads entry.1 (entriesOf (mergedThreads entry.2))).flatMap
        (fun e => levelRules keep (nodeRules topo entry.2.pkg e)) =
      (IterOrder.identity.threads entry.1 (entriesOf (mergedThreads entry.2))).flatMap
        (fun e => levelRules keep (nodeRules topo entry.2.pkg e)) := by
    have hperm := order.threads_perm entry.1 (entriesOf (mergedThreads entry.2))
    apply flatMap_eq_of_perm hperm (hperm.nodup_iff.mpr (nodup_entries _))
    intro a ha b hb hne hne'
    apply entriesOf_eq_of_key (hperm.mem_iff.mp ha) (hperm.mem_iff.mp hb)
    rw [name_of_levelRules_nodeRules hne, name_of_levelRules_nodeRules hne']
  simp only [compiledTiers, List.flatten_cons, List.flatten_nil, List.append_nil, happend, hflat,
    levelRules_typeNodeRules, hempty, hthreads]

/-- Selected by package name, the package-level rules of all apps are the same list under
every iteration order. -/
theorem levelRules_order_free {model : ConfigModel} (hkeyed : model.Keyed) (topo : CpuTopology)
    (order : IterOrder) {keep : CompiledRule → Bool} {pkg : String}
    (hkeep : ∀ r, keep r = true → r.pkg = pkg) :
    levelRules keep (model.ruleSet order topo).rules =
      levelRules keep (model.ruleSet .identity topo).rules := by
  have hname : ∀ {e}, levelRules keep (compiledTiers .identity topo e).flatten ≠ [] →
      e.2.pkg = pkg := by
    intro e hne
    obtain ⟨r, hr⟩ := List.exists_mem_of_ne_nil _ hne
    obtain ⟨hmem, hr⟩ := List.mem_filter.mp hr
    rw [← pkg_of_mem_compiledTiers hmem]
    exact hkeep r (Bool.and_eq_true_iff.mp hr).1
  have hsplit : ∀ o : IterOrder, levelRules keep (model.ruleSet o topo).rules =
      (o.apps (entriesOf model.apps)).flatMap
        fun e => levelRules keep (compiledTiers .identity topo e).flatten := by
    intro o
    rw [ruleSet_rules, levelRules, List.filter_flatMap]
    apply List.flatMap_congr
    intro e _
    exact levelRules_tiers keep o topo e
  rw [hsplit, hsplit]
  have hperm := order.apps_perm (entriesOf model.apps)
  apply flatMap_eq_of_perm (hperm.trans (IterOrder.identity.apps_perm _).symm)
    (hperm.nodup_iff.mpr (nodup_entries _))
  intro a ha b hb hne hne'
  apply entry_eq_of_pkg hkeyed (hperm.mem_iff.mp ha) (hperm.mem_iff.mp hb)
  rw [hname hne, hname hne']

/-! ## A thread that no pattern hits -/

theorem filter_isPkgLevel (keep : CompiledRule → Bool) (rules : List CompiledRule) :
    (rules.filter keep).filter (·.isPkgLevel) = levelRules keep rules := by
  rw [levelRules, List.filter_filter]
  apply List.filter_congr
  intro r _
  rw [Bool.and_comm]

theorem resolveRules_of_no_hit (fnmatch : String → String → Bool) (thread : String)
    {exact wildcard : List CompiledRule}
    (h : ¬ (exact ++ wildcard).any (·.hitsThread fnmatch thread) = true) :
    resolveRules fnmatch thread exact wildcard = finish (pkgTable exact wildcard) := by
  rw [resolveRules_eq, if_neg (fun hhit => h hhit.1), threadTable_of_no_hit _ _ _ _ h,
    finish_blank_fillMissing]

theorem answerCpus_finish (p : Policy) : answerCpus (finish p) = p.cpus := by
  unfold finish
  split
  · rename_i hnone
    exact (CpuSet.count_eq_zero.mp hnone.1).symm
  · rfl

/-- The final check drops no setting that it looks at. -/
theorem finish_bind {α : Type} {get : Policy → Option α}
    (hdir : ∀ p dir, get { p with cpusetDir := dir } = get p)
    (hnone : ∀ p, p.sched = none → p.nice = none → get p = none) (p : Policy) :
    (finish p).bind get = get p := by
  unfold finish
  split
  · rename_i hblank
    have hsched := Option.isNone_iff_eq_none.mp hblank.2.1
    have hnice := Option.isNone_iff_eq_none.mp hblank.2.2
    exact (hnone p hsched hnice).symm
  · exact hdir p _

theorem finish_schedSetting (p : Policy) : (finish p).bind (·.schedSetting) = p.schedSetting := by
  apply finish_bind fun _ _ => rfl
  intro p hsched _
  rw [Policy.schedSetting, hsched]
  rfl

theorem finish_nice (p : Policy) : (finish p).bind (·.nice) = p.nice :=
  finish_bind (fun _ _ => rfl) (fun _ _ hnice => hnice) p

section Level

variable (fnmatch : String → String → Bool) (model : ConfigModel) (topo : CpuTopology)
  (pkg thread : String)

/-- No thread rule of the package, or of a wildcard group that can be chosen for it, hits
the thread. -/
def NoThreadHit : Prop :=
  ∀ r ∈ (model.ruleSet .identity topo).rules,
    (isExactFor pkg r = true ∨
      ∃ c, IsChoice fnmatch pkg (model.ruleSet .identity topo).rules c ∧ inGroup c r = true) →
    r.hitsThread fnmatch thread = false

def exactLevel : List CompiledRule :=
  levelRules (isExactFor pkg) (model.ruleSet .identity topo).rules

def groupLevel (c : Option String) : List CompiledRule :=
  levelRules (inGroup c) (model.ruleSet .identity topo).rules

variable {fnmatch model topo pkg thread}

theorem pkg_of_inGroup {pattern : String} {r : CompiledRule} (h : inGroup (some pattern) r = true) :
    r.pkg = pattern :=
  (Option.some.inj (of_decide_eq_true h)).symm

theorem resolve_level (hkeyed : model.Keyed) (hnohit : NoThreadHit fnmatch model topo pkg thread)
    (order : IterOrder) {c : Option String}
    (hc : (model.ruleSet order topo).chosenPattern fnmatch pkg = c) :
    (model.ruleSet order topo).resolve fnmatch pkg thread =
      finish (sourceTable (exactLevel model topo pkg) (groupLevel model topo c)) := by
  have hperm := ruleSet_rules_perm order .identity model topo
  have hchoice : IsChoice fnmatch pkg (model.ruleSet .identity topo).rules c := by
    rw [← hc, ← isChoice_ruleSet fnmatch model topo pkg order]
    exact isChoice_chosenPattern fnmatch pkg _
  have hquiet : ¬ ((model.ruleSet order topo).exactRules pkg ++
      (model.ruleSet order topo).wildcardRules fnmatch pkg).any
        (·.hitsThread fnmatch thread) = true := by
    rw [List.any_eq_true]
    rintro ⟨r, hr, hhit⟩
    have hno : r.hitsThread fnmatch thread = false := by
      rw [wildcardRules_eq, hc, RuleSet.exactRules] at hr
      rcases List.mem_append.mp hr with hexact | hgroup
      · obtain ⟨hmem, hexact⟩ := List.mem_filter.mp hexact
        exact hnohit r (hperm.mem_iff.mp hmem) (Or.inl hexact)
      · obtain ⟨hmem, hgroup⟩ := List.mem_filter.mp hgroup
        exact hnohit r (hperm.mem_iff.mp hmem) (Or.inr ⟨c, hchoice, hgroup⟩)
    rw [hno] at hhit
    exact absurd hhit (by simp)
  have hexact : levelRules (isExactFor pkg) (model.ruleSet order topo).rules =
      exactLevel model topo pkg := by
    apply levelRules_order_free hkeyed topo order
    intro r hr
    exact of_decide_eq_true (Bool.and_eq_true_iff.mp hr).1
  have hgroup : levelRules (inGroup c) (model.ruleSet order topo).rules =
      groupLevel model topo c := by
    cases c with
    | none => simp [groupLevel, levelRules, inGroup]
    | some pattern => exact levelRules_order_free hkeyed topo order fun r => pkg_of_inGroup
  rw [resolve_eq, resolveRules_of_no_hit fnmatch thread hquiet, pkgTable, wildcardRules_eq, hc,
    RuleSet.exactRules, filter_isPkgLevel, filter_isPkgLevel, hexact, hgroup]

theorem answer_level_iff {γ : Type} (field : Option Policy → γ) (v : γ) (hkeyed : model.Keyed)
    (hnohit : NoThreadHit fnmatch model topo pkg thread) :
    (∀ order : IterOrder, field ((model.ruleSet order topo).resolve fnmatch pkg thread) = v) ↔
      ∀ c, IsChoice fnmatch pkg (model.ruleSet .identity topo).rules c →
        field (finish (sourceTable (exactLevel model topo pkg) (groupLevel model topo c))) = v := by
  constructor
  · intro hall c hc
    obtain ⟨order, horder⟩ := exists_order_of_choice fnmatch model topo pkg hc
    rw [← resolve_level hkeyed hnohit order horder]
    exact hall order
  · intro hall order
    rw [resolve_level hkeyed hnohit order rfl]
    apply hall
    rw [← isChoice_ruleSet fnmatch model topo pkg order]
    exact isChoice_chosenPattern fnmatch pkg _

end Level

/-! ## What the template contributes -/

/-- The app names a profile and sets nothing itself. -/
structure AppModel.OnlyNames (app : AppModel) (profile : String) : Prop where
  profile_eq : app.profile = some profile
  default_eq : app.defaultPolicy = .default
  threads_eq : app.threads = ∅
  threadTypes_eq : app.threadTypes = ∅

def templatePolicy (topo : CpuTopology) (app : AppModel) : Policy :=
  nodePolicy topo app "" (templateOf app).default

/-- The template's default rule compiles for the app and has CPUs on this SoC. -/
def TemplateSetsCpus (topo : CpuTopology) (app : AppModel) : Prop :=
  (ruleOf app.pkg "" (templateOf app).default topo.clusters).Accepted topo ∧
    0 < (templatePolicy topo app).cpus.count

/-- The default nodes of the templates only name a cluster, and no template node has the
empty name. -/
theorem template_default (app : AppModel) :
    (templateOf app).default.sched = none ∧ (templateOf app).default.nice = none ∧
      ∀ e ∈ entriesOf (templateOf app).threads, e.1 ≠ "" := by
  have hbuiltin : ∀ p ∈ builtinProfiles, p.2.default.sched = none ∧ p.2.default.nice = none ∧
      ∀ e ∈ entriesOf p.2.threads, e.1 ≠ "" := by
    decide +kernel
  have hempty : ProfileModel.empty.default.sched = none ∧ ProfileModel.empty.default.nice = none ∧
      ∀ e ∈ entriesOf ProfileModel.empty.threads, e.1 ≠ "" := by
    decide +kernel
  unfold templateOf
  cases app.profile with
  | none => exact hempty
  | some name =>
      cases hfind : builtinProfile name with
      | none => simpa only [hfind, Option.getD_none] using hempty
      | some template =>
          obtain ⟨p, hp, hpt⟩ := Option.map_eq_some_iff.mp hfind
          have htemplate := hbuiltin p (List.mem_of_find?_eq_some hp)
          rw [hpt] at htemplate
          simpa only [hfind, Option.getD_some] using htemplate

/-- A policy that sets none of the fields `resolve` looks at. -/
def Policy.Blank (p : Policy) : Prop :=
  p.cpus = .new ∧ p.schedSetting = none ∧ p.nice = none

/-- Rules that have one policy, next to blank ones. -/
structure SpeaksWith (rules : List CompiledRule) (p : Policy) : Prop where
  only : ∀ r ∈ rules, r.policy = p ∨ r.policy.Blank
  present : ∃ r ∈ rules, r.policy = p

theorem SpeaksWith.ruleCpus_eq {rules : List CompiledRule} {p : Policy} (h : SpeaksWith rules p) :
    ruleCpus rules = p.cpus := by
  apply CpuSet.ext_isSet
  intro i
  rw [Bool.eq_iff_iff, ruleCpus, isSet_unionCpus]
  constructor
  · rintro ⟨q, hq, hi⟩
    obtain ⟨r, hr, rfl⟩ := List.mem_map.mp hq
    rcases h.only r hr with hpolicy | hblank
    · rw [← hpolicy]
      exact hi
    · rw [hblank.1] at hi
      exact absurd hi (by simp)
  · intro hi
    obtain ⟨r, hr, hpolicy⟩ := h.present
    exact ⟨_, List.mem_map_of_mem hr, by rw [hpolicy]; exact hi⟩

theorem SpeaksWith.findSome?_eq {rules : List CompiledRule} {p : Policy} {β : Type}
    {get : Policy → Option β} (hget : ∀ q : Policy, q.Blank → get q = none)
    (h : SpeaksWith rules p) : rules.findSome? (fun r => get r.policy) = get p := by
  cases hp : get p with
  | none =>
      rw [List.findSome?_eq_none_iff]
      intro r hr
      rcases h.only r hr with hpolicy | hblank
      · rw [hpolicy, hp]
      · exact hget _ hblank
  | some b =>
      obtain ⟨r, hr, hpolicy⟩ := h.present
      have hsome : (rules.findSome? fun r => get r.policy).isSome = true := by
        rw [List.findSome?_isSome_iff]
        exact ⟨r, hr, by rw [hpolicy, hp]; rfl⟩
      obtain ⟨b', hb'⟩ := Option.isSome_iff_exists.mp hsome
      obtain ⟨r', hr', hget'⟩ := List.exists_of_findSome?_eq_some hb'
      rcases h.only r' hr' with hpolicy' | hblank
      · rw [hb', ← hget', hpolicy', hp]
      · rw [hget _ hblank] at hget'
        exact absurd hget' (by simp)

section Template

variable {model : ConfigModel} (topo : CpuTopology) {key profile : String} {app : AppModel}

theorem policy_of_level (hkeyed : model.Keyed) (happ : (key, app) ∈ entriesOf model.apps)
    (hnames : ∀ e ∈ entriesOf (mergedThreads app), e.1 ≠ "") {r : CompiledRule}
    (hmem : r ∈ (model.ruleSet .identity topo).rules) (hpkg : r.pkg = app.pkg)
    (hlevel : r.isPkgLevel = true) :
    ((ruleOf app.pkg "" (mergedDefault app) topo.clusters).Accepted topo ∧
        r.policy = nodePolicy topo app "" (mergedDefault app)) ∨ r.policy.Blank := by
  obtain ⟨rc, hrc, haccepted, rfl⟩ := mem_compile_rules.mp hmem
  obtain ⟨key', app', happ', hrule⟩ := mem_toRulesWithClusters.mp hrc
  have hentry := entry_eq_of_pkg hkeyed happ' happ ((pkg_of_hasRule hrule).symm.trans hpkg)
  obtain ⟨-, rfl⟩ := Prod.mk.inj hentry
  rcases hrule with ⟨thread, pol, hnode, -, rfl⟩ | ⟨-, rfl⟩
  · have hthread : thread = "" := String.isEmpty_iff.mp hlevel
    subst hthread
    rcases hnode with ⟨-, rfl⟩ | hthread | ⟨ttype, patterns, -, halias, hpat⟩
    · exact Or.inl ⟨haccepted, rfl⟩
    · exact absurd rfl (hnames _ hthread)
    · exact absurd rfl (pattern_ne_empty halias hpat)
  · exact Or.inr ⟨rfl, rfl, rfl⟩

theorem exists_defaultRule (happ : (key, app) ∈ entriesOf model.apps)
    (hany : hasAnyPolicy (mergedDefault app) = true)
    (haccepted : (ruleOf app.pkg "" (mergedDefault app) topo.clusters).Accepted topo) :
    ∃ r ∈ (model.ruleSet .identity topo).rules, r.pkg = app.pkg ∧ r.isPkgLevel = true ∧
      r.policy = nodePolicy topo app "" (mergedDefault app) := by
  have hrc : ruleOf app.pkg "" (mergedDefault app) topo.clusters ∈
      model.toRulesWithClusters .identity topo.clusters := by
    apply mem_toRulesWithClusters.mpr
    exact ⟨key, app, happ, Or.inl ⟨"", _, Or.inl ⟨rfl, rfl⟩, hany, rfl⟩⟩
  exact ⟨_, mem_compile_rules.mpr ⟨_, hrc, haccepted, rfl⟩, rfl, rfl, rfl⟩

theorem AppModel.OnlyNames.mergedDefault_eq (honly : app.OnlyNames profile) :
    mergedDefault app = (templateOf app).default := by
  rw [mergedDefault, honly.default_eq]
  rfl

theorem AppModel.OnlyNames.thread_ne (honly : app.OnlyNames profile) :
    ∀ e ∈ entriesOf (mergedThreads app), e.1 ≠ "" := by
  have hthreads : mergedThreads app = (templateOf app).threads := by
    rw [mergedThreads, honly.threads_eq]
    rfl
  rw [hthreads]
  exact (template_default app).2.2

theorem mem_exactLevel (hplain : containsWildcard app.pkg = false) {r : CompiledRule} :
    r ∈ exactLevel model topo app.pkg ↔
      r ∈ (model.ruleSet .identity topo).rules ∧ r.pkg = app.pkg ∧ r.isPkgLevel = true := by
  rw [exactLevel, levelRules, List.mem_filter, isExactFor]
  constructor
  · rintro ⟨hmem, hkeep⟩
    simp only [Bool.and_eq_true, decide_eq_true_eq] at hkeep
    exact ⟨hmem, hkeep.1.1, hkeep.2⟩
  · rintro ⟨hmem, hpkg, hlevel⟩
    exact ⟨hmem, by simp [hpkg, hplain, hlevel]⟩

theorem policy_of_mem_exactLevel (hkeyed : model.Keyed) (happ : (key, app) ∈ entriesOf model.apps)
    (hplain : containsWildcard app.pkg = false) (honly : app.OnlyNames profile)
    {r : CompiledRule} (hr : r ∈ exactLevel model topo app.pkg) :
    ((ruleOf app.pkg "" (templateOf app).default topo.clusters).Accepted topo ∧
        r.policy = templatePolicy topo app) ∨ r.policy.Blank := by
  obtain ⟨hmem, hpkg, hlevel⟩ := (mem_exactLevel topo hplain).mp hr
  have hlevel := policy_of_level topo hkeyed happ honly.thread_ne hmem hpkg hlevel
  rwa [honly.mergedDefault_eq] at hlevel

theorem speaksWith_template (hkeyed : model.Keyed) (happ : (key, app) ∈ entriesOf model.apps)
    (hplain : containsWildcard app.pkg = false) (honly : app.OnlyNames profile)
    (hsets : TemplateSetsCpus topo app) :
    SpeaksWith (exactLevel model topo app.pkg) (templatePolicy topo app) := by
  have hany : hasAnyPolicy (templateOf app).default = true := by
    apply hasAnyPolicy_of_hasCpus
    by_contra hno
    simp only [hasCpus, Bool.or_eq_true, not_or, Bool.not_eq_true, Option.isSome_eq_false_iff,
      Option.isNone_iff_eq_none] at hno
    have htext : cpusText (templateOf app).default topo.clusters = "" := by
      rw [cpusText, hno.1, hno.2]
      rfl
    have hnew : (templatePolicy topo app).cpus = .new := by
      simp only [templatePolicy, nodePolicy, RuleConfig.policy, ruleOf, htext]
      exact if_pos rfl
    have hpos := hsets.2
    rw [hnew, CpuSet.count_eq_zero.mpr rfl] at hpos
    exact absurd hpos (Nat.lt_irrefl 0)
  constructor
  · intro r hr
    exact (policy_of_mem_exactLevel topo hkeyed happ hplain honly hr).imp_left And.right
  · obtain ⟨r, hmem, hpkg, hlevel, hpolicy⟩ := exists_defaultRule topo happ
      (by rwa [honly.mergedDefault_eq]) (by rw [honly.mergedDefault_eq]; exact hsets.1)
    rw [honly.mergedDefault_eq] at hpolicy
    exact ⟨r, (mem_exactLevel topo hplain).mpr ⟨hmem, hpkg, hlevel⟩, hpolicy⟩

theorem any_setsCpus_exactLevel (hkeyed : model.Keyed) (happ : (key, app) ∈ entriesOf model.apps)
    (hplain : containsWildcard app.pkg = false) (honly : app.OnlyNames profile) :
    (exactLevel model topo app.pkg).any (fun r => r.policy.setsCpus) = true ↔
      TemplateSetsCpus topo app := by
  rw [List.any_eq_true]
  constructor
  · rintro ⟨r, hr, hset⟩
    rcases policy_of_mem_exactLevel topo hkeyed happ hplain honly hr with
      ⟨haccepted, hpolicy⟩ | hblank
    · rw [hpolicy] at hset
      exact ⟨haccepted, of_decide_eq_true hset⟩
    · rw [Policy.setsCpus, hblank.1] at hset
      exact absurd hset (by decide)
  · intro hsets
    obtain ⟨r, hr, hpolicy⟩ := (speaksWith_template topo hkeyed happ hplain honly hsets).present
    refine ⟨r, hr, ?_⟩
    rw [hpolicy]
    exact decide_eq_true hsets.2

theorem settings_exactLevel (hkeyed : model.Keyed) (happ : (key, app) ∈ entriesOf model.apps)
    (hplain : containsWildcard app.pkg = false) (honly : app.OnlyNames profile)
    {r : CompiledRule} (hr : r ∈ exactLevel model topo app.pkg) :
    r.policy.schedSetting = none ∧ r.policy.nice = none := by
  rcases policy_of_mem_exactLevel topo hkeyed happ hplain honly hr with ⟨-, hpolicy⟩ | hblank
  · have hdefault := template_default app
    rw [hpolicy]
    constructor
    · show Option.map _ (((ruleOf app.pkg "" _ topo.clusters).policy topo).sched) = none
      simp [RuleConfig.policy, RuleConfig.schedSpec, ruleOf, hdefault.1]
    · exact hdefault.2.1
  · exact hblank.2

end Template

/-! ## Contract -/

section Contract

variable (fnmatch : String → String → Bool) (model : ConfigModel) (topo : CpuTopology)
  (key key' : String) (app wild : AppModel) (profile thread : String)

/-- An exact app that only names a profile, a wildcard app whose name matches it, and a
thread that no thread pattern matches. -/
structure UnderPattern : Prop where
  keyed : model.Keyed
  app_mem : (key, app) ∈ entriesOf model.apps
  plain : containsWildcard app.pkg = false
  only_profile : app.OnlyNames profile
  wild_mem : (key', wild) ∈ entriesOf model.apps
  pattern : containsWildcard wild.pkg = true
  covered : fnmatchPkg fnmatch wild.pkg app.pkg = true
  no_hit : NoThreadHit fnmatch model topo app.pkg thread

/-- For every field the wildcard app sets: the template gives the app the same value, or
it gives none and every group that can be chosen for the app gives that value. -/
structure TemplateLeavesRoom : Prop where
  cpus : hasCpus wild.defaultPolicy = true →
    (TemplateSetsCpus topo app →
      (templatePolicy topo app).cpus = (nodePolicy topo wild "" wild.defaultPolicy).cpus) ∧
    (¬ TemplateSetsCpus topo app →
      ∀ c, IsChoice fnmatch app.pkg (model.ruleSet .identity topo).rules c →
        ruleCpus (groupLevel model topo c) = (nodePolicy topo wild "" wild.defaultPolicy).cpus)
  sched : wild.defaultPolicy.sched.isSome = true →
    ∀ c, IsChoice fnmatch app.pkg (model.ruleSet .identity topo).rules c →
      (groupLevel model topo c).findSome? (·.policy.schedSetting) =
        (nodePolicy topo wild "" wild.defaultPolicy).schedSetting
  nice : wild.defaultPolicy.nice.isSome = true →
    ∀ c, IsChoice fnmatch app.pkg (model.ruleSet .identity topo).rules c →
      (groupLevel model topo c).findSome? (·.policy.nice) =
        (nodePolicy topo wild "" wild.defaultPolicy).nice

variable {fnmatch model topo key key' app wild profile thread}

variable (fnmatch model topo) in
theorem exists_choice (pkg : String) :
    ∃ c, IsChoice fnmatch pkg (model.ruleSet .identity topo).rules c :=
  ⟨_, isChoice_chosenPattern fnmatch pkg (model.ruleSet .identity topo)⟩

theorem cpus_under_pattern_iff
    (h : UnderPattern fnmatch model topo key key' app wild profile thread) (cpus : CpuSet) :
    (∀ order : IterOrder,
        answerCpus ((model.ruleSet order topo).resolve fnmatch app.pkg thread) = cpus) ↔
      (TemplateSetsCpus topo app → (templatePolicy topo app).cpus = cpus) ∧
      (¬ TemplateSetsCpus topo app →
        ∀ c, IsChoice fnmatch app.pkg (model.ruleSet .identity topo).rules c →
          ruleCpus (groupLevel model topo c) = cpus) := by
  have hany := any_setsCpus_exactLevel topo h.keyed h.app_mem h.plain h.only_profile
  rw [answer_level_iff answerCpus cpus h.keyed h.no_hit]
  simp only [answerCpus_finish, sourceTable_cpus, decidingSource]
  by_cases hsets : TemplateSetsCpus topo app
  · simp only [if_pos (hany.mpr hsets),
      (speaksWith_template topo h.keyed h.app_mem h.plain h.only_profile hsets).ruleCpus_eq]
    obtain ⟨c, hc⟩ := exists_choice fnmatch model topo app.pkg
    exact ⟨fun hall => ⟨fun _ => hall c hc, fun hno => absurd hsets hno⟩,
      fun hcond _ _ => hcond.1 hsets⟩
  · simp only [if_neg (fun hyes => hsets (hany.mp hyes))]
    exact ⟨fun hall => ⟨fun hyes => absurd hyes hsets, fun _ => hall⟩, fun hcond => hcond.2 hsets⟩

theorem setting_under_pattern_iff {β : Type} {get : Policy → Option β}
    (h : UnderPattern fnmatch model topo key key' app wild profile thread)
    (htable : ∀ groups, get (strategyTable groups) = groups.flatten.findSome? get)
    (hfinish : ∀ p, (finish p).bind get = get p)
    (hnone : ∀ r ∈ exactLevel model topo app.pkg, get r.policy = none) (v : Option β) :
    (∀ order : IterOrder,
        ((model.ruleSet order topo).resolve fnmatch app.pkg thread).bind get = v) ↔
      ∀ c, IsChoice fnmatch app.pkg (model.ruleSet .identity topo).rules c →
        (groupLevel model topo c).findSome? (fun r => get r.policy) = v := by
  have hexact : (exactLevel model topo app.pkg).findSome? (fun r => get r.policy) = none :=
    List.findSome?_eq_none_iff.mpr hnone
  have hfield : ∀ group, get (sourceTable (exactLevel model topo app.pkg) group) =
      group.findSome? fun r => get r.policy := by
    intro group
    rw [sourceTable, htable, List.flatten_cons, List.flatten_cons, List.flatten_nil,
      List.append_nil, ← List.map_append, List.findSome?_map, List.findSome?_append]
    simp only [Function.comp_def, hexact, Option.none_or]
  rw [answer_level_iff (·.bind get) v h.keyed h.no_hit]
  simp only [hfinish, hfield]

/-- An app that only names a profile takes the settings of the wildcard app above it, under
every iteration order, exactly when the template leaves room for them. -/
theorem pattern_overrides_template_iff
    (h : UnderPattern fnmatch model topo key key' app wild profile thread) :
    (∀ order : IterOrder, TakesUserValues topo wild "" wild.defaultPolicy
        ((model.ruleSet order topo).resolve fnmatch app.pkg thread)) ↔
      TemplateLeavesRoom fnmatch model topo app wild := by
  have hblank := fun r => settings_exactLevel topo (r := r) h.keyed h.app_mem h.plain h.only_profile
  have hcpus := cpus_under_pattern_iff h (nodePolicy topo wild "" wild.defaultPolicy).cpus
  have hsched := setting_under_pattern_iff h strategyTable_schedSetting finish_schedSetting
    (fun r hr => (hblank r hr).1) (nodePolicy topo wild "" wild.defaultPolicy).schedSetting
  have hnice := setting_under_pattern_iff h (fun _ => rfl) finish_nice
    (fun r hr => (hblank r hr).2) (nodePolicy topo wild "" wild.defaultPolicy).nice
  constructor
  · intro hall
    exact ⟨fun hset => hcpus.mp fun order => (hall order).cpus hset,
      fun hset => hsched.mp fun order => (hall order).sched hset,
      fun hset => hnice.mp fun order => (hall order).nice hset⟩
  · intro hroom order
    exact ⟨fun hset => hcpus.mpr (hroom.cpus hset) order,
      fun hset => hsched.mpr (hroom.sched hset) order,
      fun hset => hnice.mpr (hroom.nice hset) order⟩

theorem mem_groupLevel {pattern : String} {r : CompiledRule} :
    r ∈ groupLevel model topo (some pattern) ↔
      r ∈ (model.ruleSet .identity topo).rules ∧ r.pkg = pattern ∧ r.isPkgLevel = true := by
  rw [groupLevel, levelRules, List.mem_filter, inGroup, Bool.and_eq_true, decide_eq_true_iff,
    Option.some.injEq, eq_comm (a := pattern)]

theorem speaksWith_group (hkeyed : model.Keyed) (hwild : (key', wild) ∈ entriesOf model.apps)
    (hnames : ∀ e ∈ entriesOf (mergedThreads wild), e.1 ≠ "")
    (hany : hasAnyPolicy (mergedDefault wild) = true)
    (haccepted : (ruleOf wild.pkg "" (mergedDefault wild) topo.clusters).Accepted topo) :
    SpeaksWith (groupLevel model topo (some wild.pkg))
      (nodePolicy topo wild "" (mergedDefault wild)) := by
  constructor
  · intro r hr
    obtain ⟨hmem, hpkg, hlevel⟩ := mem_groupLevel.mp hr
    exact (policy_of_level topo hkeyed hwild hnames hmem hpkg hlevel).imp_left And.right
  · obtain ⟨r, hmem, hpkg, hlevel, hpolicy⟩ := exists_defaultRule topo hwild hany haccepted
    exact ⟨r, mem_groupLevel.mpr ⟨hmem, hpkg, hlevel⟩, hpolicy⟩

/-- If no other wildcard app can be chosen, the default rule of the wildcard app compiles
and it has no node of the empty name, only the cluster of the template is in the way. -/
theorem templateLeavesRoom_iff_of_only_choice
    (h : UnderPattern fnmatch model topo key key' app wild profile thread)
    (honly : ∀ c, IsChoice fnmatch app.pkg (model.ruleSet .identity topo).rules c →
      c = some wild.pkg)
    (hnames : ∀ e ∈ entriesOf (mergedThreads wild), e.1 ≠ "")
    (haccepted : (ruleOf wild.pkg "" (mergedDefault wild) topo.clusters).Accepted topo) :
    TemplateLeavesRoom fnmatch model topo app wild ↔
      (hasCpus wild.defaultPolicy = true → TemplateSetsCpus topo app →
        (templatePolicy topo app).cpus = (nodePolicy topo wild "" wild.defaultPolicy).cpus) := by
  have hgroup := fun hany => speaksWith_group h.keyed h.wild_mem hnames hany haccepted
  constructor
  · intro hroom hset
    exact (hroom.cpus hset).1
  · intro hcpus
    refine ⟨fun hset => ⟨hcpus hset, fun _ c hc => ?_⟩, fun hset c hc => ?_, fun hset c hc => ?_⟩
    · obtain ⟨hany, hkeep⟩ := overridden_cpus topo wild "" (templateOf wild).default hset
      rw [honly c hc, (hgroup hany).ruleCpus_eq]
      exact hkeep
    · obtain ⟨hany, hkeep⟩ := overridden_sched topo wild "" (templateOf wild).default hset
      rw [honly c hc, (hgroup hany).findSome?_eq fun q hq => hq.2.1]
      exact hkeep
    · obtain ⟨hany, hkeep⟩ := overridden_nice topo wild "" (templateOf wild).default hset
      rw [honly c hc, (hgroup hany).findSome?_eq fun q hq => hq.2.2]
      exact hkeep

end Contract

/-! ## An app under the settings of its vendor -/

/-- All of `com.vendor.*` on the little CPUs. -/
def vendorApps : AppModel :=
  ⟨"com.vendor.*", none, { PolicyModel.default with cpus := some "0-3" }, ∅, ∅⟩

/-- One of them only names the profile `balanced`. -/
def vendorIm : AppModel := ⟨"com.vendor.im", some "balanced", .default, ∅, ∅⟩

def vendorModel : ConfigModel :=
  ⟨(AList.singleton vendorApps.pkg vendorApps).insert vendorIm.pkg vendorIm⟩

theorem vendor_under_pattern : UnderPattern glob vendorModel gameTopo "com.vendor.im"
    "com.vendor.*" vendorIm vendorApps "balanced" "main" where
  keyed := by
    intro e he
    rcases List.mem_cons.mp he with rfl | he
    · rfl
    · rw [List.mem_singleton.mp he]
  app_mem := List.mem_cons_self
  plain := by decide
  only_profile := ⟨rfl, rfl, rfl, rfl⟩
  wild_mem := List.mem_cons_of_mem _ (List.mem_singleton.mpr rfl)
  pattern := by decide
  covered := by decide +kernel
  no_hit := by
    have hquiet : ∀ r ∈ (vendorModel.ruleSet .identity gameTopo).rules,
        r.hitsThread glob "main" = false := by
      decide +kernel
    intro r hr _
    exact hquiet r hr

theorem pattern_overrides_template_vendor :
    (∀ order : IterOrder, TakesUserValues gameTopo vendorApps "" vendorApps.defaultPolicy
        ((vendorModel.ruleSet order gameTopo).resolve glob vendorIm.pkg "main")) ↔
      TemplateLeavesRoom glob vendorModel gameTopo vendorIm vendorApps :=
  pattern_overrides_template_iff vendor_under_pattern

/-- The template's cluster wins over the CPUs of the wildcard app. -/
theorem template_beats_pattern :
    ¬ ∀ order : IterOrder, TakesUserValues gameTopo vendorApps "" vendorApps.defaultPolicy
      ((vendorModel.ruleSet order gameTopo).resolve glob "com.vendor.im" "main") := by
  intro h
  have hcpus := (h .identity).cpus rfl
  have hanswer : answerCpus ((vendorModel.ruleSet .identity gameTopo).resolve glob
      "com.vendor.im" "main") = parseCpuRanges "4-6" none := by
    decide +kernel
  rw [hanswer] at hcpus
  exact absurd hcpus (by decide +kernel)

end Threadctl.Core

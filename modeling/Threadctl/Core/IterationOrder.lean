import Threadctl.Core.Expansion
import Threadctl.Core.Stages

/-!
# Expansion and the iteration order of hash maps

Two expansions of one configuration differ by the order of apps, thread nodes and
thread types.  `resolve` sees that order through the first-wins fields and through
ties between wildcard patterns; the last section says exactly when it does not.
-/

namespace Threadctl.Core

open Threadctl.Support.FirstHit Threadctl.Support.Indexing

/-! ## Compiled tiers -/

/-- What `compile` keeps of a rule config. -/
def compiled (topo : CpuTopology) (rc : RuleConfig) : Option CompiledRule :=
  (compileRule topo rc).toOption

def nodeRules (topo : CpuTopology) (pkg : String) (e : String × PolicyModel) : List CompiledRule :=
  (policyToRules pkg e.1 e.2 topo.clusters).filterMap (compiled topo)

def typeNodeRules (topo : CpuTopology) (pkg : String) (e : String × PolicyModel) :
    List CompiledRule :=
  (typeRules pkg topo.clusters e).filterMap (compiled topo)

/-- The compiled rules of an app in tiers; only the two middle tiers know the order. -/
def compiledTiers (order : IterOrder) (topo : CpuTopology) (entry : String × AppModel) :
    List (List CompiledRule) :=
  [nodeRules topo entry.2.pkg ("", mergedDefault entry.2),
   (order.threads entry.1 (entriesOf (mergedThreads entry.2))).flatMap
     (nodeRules topo entry.2.pkg),
   (order.threadTypes entry.1 (entriesOf (mergedThreadTypes entry.2))).flatMap
     (typeNodeRules topo entry.2.pkg),
   (placeholderRules topo.clusters entry.2).filterMap (compiled topo)]

theorem ruleSet_rules (order : IterOrder) (model : ConfigModel) (topo : CpuTopology) :
    (model.ruleSet order topo).rules =
      (order.apps (entriesOf model.apps)).flatMap
        fun e => (compiledTiers order topo e).flatten := by
  have hrules : (model.ruleSet order topo).rules =
      (model.toRulesWithClusters order topo.clusters).filterMap (compiled topo) :=
    compileRules_fst topo _
  rw [hrules, ConfigModel.toRulesWithClusters, List.filterMap_flatMap]
  apply List.flatMap_congr
  intro e _
  simp only [expandApp, List.filterMap_append, List.filterMap_flatMap, compiledTiers,
    List.flatten_cons, List.flatten_nil, List.append_nil, List.append_assoc]
  rfl

theorem compiledTiers_perm (order order' : IterOrder) (topo : CpuTopology)
    (entry : String × AppModel) :
    List.Forall₂ List.Perm (compiledTiers order topo entry) (compiledTiers order' topo entry) := by
  have hthreads : ∀ l, (order.threads entry.1 l).Perm (order'.threads entry.1 l) :=
    fun l => (order.threads_perm entry.1 l).trans (order'.threads_perm entry.1 l).symm
  have htypes : ∀ l, (order.threadTypes entry.1 l).Perm (order'.threadTypes entry.1 l) :=
    fun l => (order.threadTypes_perm entry.1 l).trans (order'.threadTypes_perm entry.1 l).symm
  exact .cons (List.Perm.refl _) (.cons ((hthreads _).flatMap_right _)
    (.cons ((htypes _).flatMap_right _) (.cons (List.Perm.refl _) .nil)))

theorem apps_perm (order order' : IterOrder) (l : List (String × AppModel)) :
    (order.apps l).Perm (order'.apps l) :=
  (order.apps_perm l).trans (order'.apps_perm l).symm

theorem ruleSet_rules_perm (order order' : IterOrder) (model : ConfigModel) (topo : CpuTopology) :
    (model.ruleSet order topo).rules.Perm (model.ruleSet order' topo).rules := by
  rw [ruleSet_rules, ruleSet_rules]
  refine ((apps_perm order order' _).flatMap_right _).trans (List.Perm.flatMap_left _ ?_)
  intro e _
  exact List.Perm.flatten_congr (compiledTiers_perm order order' topo e)

/-! ## Which wildcard group is chosen -/

section Choice

variable (fnmatch : String → String → Bool) (pkg : String)

def isCandidatePattern (pattern : String) : Bool :=
  isPattern pattern && (decide (0 < patternSpecificity pattern) && fnmatchPkg fnmatch pattern pkg)

/-- The patterns an iteration order can choose: the candidates of maximal specificity. -/
def IsChoice (rules : List CompiledRule) : Option String → Prop
  | none => ∀ r ∈ rules, isCandidatePattern fnmatch pkg r.pkg = false
  | some pattern =>
      isCandidatePattern fnmatch pkg pattern = true ∧ (∃ r ∈ rules, r.pkg = pattern) ∧
        ∀ r ∈ rules, isCandidatePattern fnmatch pkg r.pkg = true →
          patternSpecificity r.pkg ≤ patternSpecificity pattern

theorem argmax_map {α β : Type} (g : α → β) (f : β → Nat) (l : List α) :
    (l.map g).argmax f = (l.argmax (f ∘ g)).map g := by
  induction l using List.reverseRecOn with
  | nil => rfl
  | append_singleton l a ih =>
      rw [List.map_append, List.map_singleton, List.argmax_concat, List.argmax_concat, ih]
      cases l.argmax (f ∘ g) with
      | none => rfl
      | some c => by_cases h : f (g c) < f (g a) <;> simp [h]

theorem chosenPattern_eq (rs : RuleSet) :
    rs.chosenPattern fnmatch pkg =
      ((distinct (rs.rules.map (·.pkg))).filter (isCandidatePattern fnmatch pkg)).argmax
        patternSpecificity := by
  have hgroups : rs.wildcards.filter (WildcardRule.isCandidate fnmatch pkg) =
      ((distinct (rs.rules.map (·.pkg))).filter (isCandidatePattern fnmatch pkg)).map
        (groupOf rs.rules) := by
    rw [rs.indexed.wildcards_eq, List.filter_map, List.filter_filter]
    congr 1
    apply List.filter_congr
    intro p _
    rw [Bool.and_comm]
    rfl
  rw [RuleSet.chosenPattern, RuleSet.chosenGroup, hgroups, argmax_map, Option.map_map]
  exact Option.map_id'

theorem isChoice_chosenPattern (rs : RuleSet) :
    IsChoice fnmatch pkg rs.rules (rs.chosenPattern fnmatch pkg) := by
  have hmem : ∀ p, p ∈ (distinct (rs.rules.map (·.pkg))).filter (isCandidatePattern fnmatch pkg) ↔
      (∃ r ∈ rs.rules, r.pkg = p) ∧ isCandidatePattern fnmatch pkg p = true := by
    intro p
    rw [List.mem_filter, mem_distinct, List.mem_map]
  rw [chosenPattern_eq]
  cases hmax : ((distinct (rs.rules.map (·.pkg))).filter (isCandidatePattern fnmatch pkg)).argmax
      patternSpecificity with
  | none =>
      have hnil := List.argmax_eq_none.mp hmax
      intro r hr
      by_contra hcand
      have := (hmem r.pkg).mpr ⟨⟨r, hr, rfl⟩, by simpa using hcand⟩
      rw [hnil] at this
      simp at this
  | some p =>
      obtain ⟨hrule, hcand⟩ := (hmem p).mp (List.argmax_mem hmax)
      refine ⟨hcand, hrule, ?_⟩
      intro r hr hcand'
      exact List.le_of_mem_argmax ((hmem r.pkg).mpr ⟨⟨r, hr, rfl⟩, hcand'⟩) hmax

/-- The choice whose rules come first is the one chosen. -/
theorem chosenPattern_of_first {rs : RuleSet} {first : CompiledRule} {rest : List CompiledRule}
    (hrules : rs.rules = first :: rest)
    (hchoice : IsChoice fnmatch pkg rs.rules (some first.pkg)) :
    rs.chosenPattern fnmatch pkg = some first.pkg := by
  obtain ⟨hcand, -, hmax⟩ := hchoice
  obtain ⟨others, hdistinct⟩ : [first.pkg] <+: distinct (rs.rules.map (·.pkg)) := by
    rw [hrules]
    exact distinct_prefix [first.pkg] (rest.map (·.pkg))
  rw [chosenPattern_eq, ← hdistinct, List.filter_append, List.filter_cons_of_pos hcand,
    List.filter_nil, List.singleton_append, List.argmax_cons]
  cases hother : (others.filter (isCandidatePattern fnmatch pkg)).argmax patternSpecificity with
  | none => rfl
  | some p =>
      have hp := List.mem_filter.mp (List.argmax_mem hother)
      have hmem : p ∈ distinct (rs.rules.map (·.pkg)) := by
        rw [← hdistinct]
        exact List.mem_append_right _ hp.1
      obtain ⟨r, hr, rfl⟩ := List.mem_map.mp (mem_distinct.mp hmem)
      have hle := hmax r hr hp.2
      simp only
      rw [if_neg (by omega)]

theorem isChoice_perm {rules rules' : List CompiledRule} (h : rules.Perm rules')
    {choice : Option String} (hchoice : IsChoice fnmatch pkg rules choice) :
    IsChoice fnmatch pkg rules' choice := by
  cases choice with
  | none => exact fun r hr => hchoice r (h.mem_iff.mpr hr)
  | some p =>
      obtain ⟨hcand, ⟨r, hr, hp⟩, hmax⟩ := hchoice
      exact ⟨hcand, ⟨r, h.mem_iff.mp hr, hp⟩, fun r hr => hmax r (h.mem_iff.mpr hr)⟩

end Choice

/-! ## Orders that put chosen entries first -/

/-- The app `first` first and `second` next; in each app the node `node` first. -/
def IterOrder.leading (first second node : String) : IterOrder where
  apps l :=
    bringFront (fun e => decide (e.1 = first)) (bringFront (fun e => decide (e.1 = second)) l)
  threads _ := bringFront fun e => decide (e.1 = node)
  threadTypes _ := bringFront fun e => decide (e.1 = node)
  apps_perm _ := (bringFront_perm _ _).trans (bringFront_perm _ _)
  threads_perm _ := bringFront_perm _
  threadTypes_perm _ := bringFront_perm _

theorem bringFront_entry {ν : Type} {l : List (String × ν)} {m : HashMap String ν}
    (hl : l.Perm (entriesOf m)) {e : String × ν} (he : e ∈ entriesOf m) :
    bringFront (fun b => decide (b.1 = e.1)) l = e :: l.filter fun b => !decide (b.1 = e.1) := by
  apply bringFront_eq_cons
  · exact hl.nodup_iff.mpr (nodup_entriesOf m).of_map
  · exact hl.mem_iff.mpr he
  · intro b hb
    rw [decide_eq_true_iff]
    exact ⟨fun hkey => entriesOf_eq_of_key (hl.mem_iff.mp hb) he hkey, fun h => h ▸ rfl⟩

/-- The rules of one tier member carry one policy. -/
def Uniform (rules : List CompiledRule) : Prop :=
  ∀ r ∈ rules, ∀ r' ∈ rules, r.policy = r'.policy

theorem compiled_eq_some_iff {topo : CpuTopology} {rc : RuleConfig} {r : CompiledRule} :
    compiled topo rc = some r ↔
      rc.Accepted topo ∧ r = ⟨rc.pkg, rc.thread, cstring rc.thread, rc.policy topo⟩ := by
  rw [← compileRule_eq_ok_iff, compiled]
  cases compileRule topo rc <;> simp [Except.toOption]

theorem policy_of_compiled {topo : CpuTopology} {rc : RuleConfig} {r : CompiledRule}
    (h : compiled topo rc = some r) : r.policy = rc.policy topo ∧ r.pkg = rc.pkg := by
  obtain ⟨-, rfl⟩ := compiled_eq_some_iff.mp h
  exact ⟨rfl, rfl⟩

theorem uniform_filterMap {topo : CpuTopology} {configs : List RuleConfig} (pol : Policy)
    (h : ∀ rc ∈ configs, rc.policy topo = pol) :
    Uniform (configs.filterMap (compiled topo)) := by
  have hpol : ∀ r ∈ configs.filterMap (compiled topo), r.policy = pol := by
    intro r hr
    obtain ⟨rc, hrc, hr⟩ := List.mem_filterMap.mp hr
    rw [(policy_of_compiled hr).1, h rc hrc]
  intro r hr r' hr'
  rw [hpol r hr, hpol r' hr']

theorem uniform_nodeRules (topo : CpuTopology) (pkg : String) (e : String × PolicyModel) :
    Uniform (nodeRules topo pkg e) := by
  apply uniform_filterMap ((ruleOf pkg e.1 e.2 topo.clusters).policy topo)
  intro rc hrc
  rw [(mem_policyToRules.mp hrc).2]

theorem uniform_typeNodeRules (topo : CpuTopology) (pkg : String) (e : String × PolicyModel) :
    Uniform (typeNodeRules topo pkg e) := by
  apply uniform_filterMap ((ruleOf pkg "" e.2 topo.clusters).policy topo)
  intro rc hrc
  obtain ⟨-, pat, -, -, -, rfl⟩ := mem_typeRules.mp hrc
  rfl

theorem uniform_placeholder (topo : CpuTopology) (app : AppModel) :
    Uniform ((placeholderRules topo.clusters app).filterMap (compiled topo)) := by
  apply uniform_filterMap ((RuleConfig.ofCpus app.pkg "" "").policy topo)
  intro rc hrc
  unfold placeholderRules at hrc
  simp only at hrc
  split at hrc
  · simp at hrc
  · rw [List.mem_singleton.mp hrc]

section Realize

variable {β : Type} {get : Policy → Option β} {keep : CompiledRule → Bool} {b : β}

/-- In a tier member of one policy every hit is the first hit. -/
theorem head?_of_uniform {rules : List CompiledRule} (hrules : Uniform rules)
    (hb : b ∈ rules.filterMap (pick get keep)) :
    (rules.filterMap (pick get keep)).head? = some b := by
  have hvalue : ∀ c ∈ rules.filterMap (pick get keep), ∃ r ∈ rules, get r.policy = some c := by
    intro c hc
    obtain ⟨r, hr, hpick⟩ := List.mem_filterMap.mp hc
    unfold pick at hpick
    split at hpick
    · exact ⟨r, hr, hpick⟩
    · simp at hpick
  cases hlist : rules.filterMap (pick get keep) with
  | nil => simp [hlist] at hb
  | cons c cs =>
      obtain ⟨r, hr, hget⟩ := hvalue b hb
      obtain ⟨r', hr', hget'⟩ := hvalue c (by simp [hlist])
      rw [hrules r hr r' hr', hget'] at hget
      rw [List.head?_cons, hget]

theorem head?_filterMap_append {l l' : List CompiledRule} {f : CompiledRule → Option β}
    (h : (l.filterMap f).head? = some b) : ((l ++ l').filterMap f).head? = some b := by
  rw [List.filterMap_append, List.head?_append, h, Option.some_or]

theorem exists_leading_member {m : HashMap String PolicyModel}
    {rulesOf : String × PolicyModel → List CompiledRule} (huniform : ∀ e, Uniform (rulesOf e))
    (hb : b ∈ ((entriesOf m).flatMap rulesOf).filterMap (pick get keep)) :
    ∃ node, (((bringFront (fun e => decide (e.1 = node)) (entriesOf m)).flatMap
      rulesOf).filterMap (pick get keep)).head? = some b := by
  rw [List.filterMap_flatMap] at hb
  obtain ⟨e, he, hb⟩ := List.mem_flatMap.mp hb
  refine ⟨e.1, ?_⟩
  rw [bringFront_entry (List.Perm.refl _) he, List.flatMap_cons]
  exact head?_filterMap_append (head?_of_uniform (huniform e) hb)

theorem exists_rule_of_mem_firstHits {tiers : List (List CompiledRule)}
    (hb : b ∈ firstHits (pick get keep) tiers) :
    ∃ r ∈ tiers.flatten, keep r = true ∧ get r.policy = some b := by
  obtain ⟨before, tier, after, rfl, -, hb⟩ := mem_firstHits hb
  obtain ⟨r, hr, hpick⟩ := List.mem_filterMap.mp hb
  refine ⟨r, List.mem_flatten.mpr ⟨tier, by simp, hr⟩, ?_⟩
  unfold pick at hpick
  split at hpick
  · exact ⟨by assumption, hpick⟩
  · simp at hpick

theorem exists_leading_node {topo : CpuTopology} {entry : String × AppModel}
    (hb : b ∈ firstHits (pick get keep) (compiledTiers .identity topo entry)) :
    ∃ node, ∀ first second, (firstHits (pick get keep)
      (compiledTiers (.leading first second node) topo entry)).head? = some b := by
  -- the hits of a tier without hits stay absent when the tier is reordered
  have hempty : ∀ {m : HashMap String PolicyModel} {rulesOf} (node : String),
      ((entriesOf m).flatMap rulesOf).filterMap (pick get keep) = [] →
        ((bringFront (fun e => decide (e.1 = node)) (entriesOf m)).flatMap rulesOf).filterMap
          (pick get keep) = [] := by
    intro m rulesOf node hnil
    have hperm := ((bringFront_perm (fun e => decide (e.1 = node)) (entriesOf m)).flatMap_right
      rulesOf).filterMap (pick get keep)
    rw [hnil] at hperm
    exact hperm.eq_nil
  simp only [compiledTiers, IterOrder.identity, IterOrder.leading, id] at hb ⊢
  by_cases hdefault : (nodeRules topo entry.2.pkg ("", mergedDefault entry.2)).filterMap
      (pick get keep) = []
  · rw [firstHits_cons_of_nil hdefault] at hb
    simp only [firstHits_cons_of_nil hdefault]
    by_cases hthreads : ((entriesOf (mergedThreads entry.2)).flatMap
        (nodeRules topo entry.2.pkg)).filterMap (pick get keep) = []
    · rw [firstHits_cons_of_nil hthreads] at hb
      simp only [firstHits_cons_of_nil (hempty _ hthreads)]
      by_cases htypes : ((entriesOf (mergedThreadTypes entry.2)).flatMap
          (typeNodeRules topo entry.2.pkg)).filterMap (pick get keep) = []
      · rw [firstHits_cons_of_nil htypes] at hb
        simp only [firstHits_cons_of_nil (hempty _ htypes)]
        obtain ⟨before, tier, after, heq, -, hb'⟩ := mem_firstHits hb
        have hmem : tier ∈ before ++ tier :: after := List.mem_append_right _ List.mem_cons_self
        rw [← heq] at hmem
        have htier : tier = (placeholderRules topo.clusters entry.2).filterMap (compiled topo) :=
          List.mem_singleton.mp hmem
        rw [htier] at hb'
        exact ⟨"", fun _ _ => head?_firstHits_cons
          (head?_of_uniform (uniform_placeholder topo _) hb') _⟩
      · rw [firstHits, if_neg (by simpa only [List.isEmpty_iff] using htypes)] at hb
        obtain ⟨node, hnode⟩ := exists_leading_member (uniform_typeNodeRules topo _) hb
        exact ⟨node, fun _ _ => head?_firstHits_cons hnode _⟩
    · rw [firstHits, if_neg (by simpa only [List.isEmpty_iff] using hthreads)] at hb
      obtain ⟨node, hnode⟩ := exists_leading_member (uniform_nodeRules topo _) hb
      exact ⟨node, fun _ _ => head?_firstHits_cons hnode _⟩
  · rw [firstHits, if_neg (by simpa only [List.isEmpty_iff] using hdefault)] at hb
    exact ⟨"", fun _ _ => head?_firstHits_cons
      (head?_of_uniform (uniform_nodeRules topo _ _) hb) _⟩

end Realize

theorem pkg_of_mem_compiledTiers {order : IterOrder} {topo : CpuTopology}
    {entry : String × AppModel} {r : CompiledRule}
    (hr : r ∈ (compiledTiers order topo entry).flatten) : r.pkg = entry.2.pkg := by
  simp only [compiledTiers, List.flatten_cons, List.flatten_nil, List.append_nil,
    List.mem_append, List.mem_flatMap, nodeRules, typeNodeRules, List.mem_filterMap] at hr
  rcases hr with ⟨rc, hrc, hr⟩ | ⟨e, -, rc, hrc, hr⟩ | ⟨e, -, rc, hrc, hr⟩ | ⟨rc, hrc, hr⟩
  · rw [(policy_of_compiled hr).2, (mem_policyToRules.mp hrc).2]
    rfl
  · rw [(policy_of_compiled hr).2, (mem_policyToRules.mp hrc).2]
    rfl
  · obtain ⟨-, pat, -, -, -, rfl⟩ := mem_typeRules.mp hrc
    exact (policy_of_compiled hr).2
  · rw [(policy_of_compiled hr).2]
    unfold placeholderRules at hrc
    simp only at hrc
    split at hrc
    · simp at hrc
    · rw [List.mem_singleton.mp hrc]
      rfl

theorem leading_apps {apps : HashMap String AppModel} {first second : String × AppModel}
    (hfirst : first ∈ entriesOf apps) (hsecond : second ∈ entriesOf apps) (node : String) :
    ∃ rest, (IterOrder.leading first.1 second.1 node).apps (entriesOf apps) = first :: rest ∧
      (first = second ∨ ∃ rest', rest = second :: rest') := by
  refine ⟨_, bringFront_entry (bringFront_perm _ _) hfirst, ?_⟩
  rw [bringFront_entry (List.Perm.refl _) hsecond]
  by_cases hkey : second.1 = first.1
  · exact Or.inl (entriesOf_eq_of_key hfirst hsecond hkey.symm)
  · exact Or.inr ⟨_, List.filter_cons_of_pos (by simp [hkey])⟩

section Orders

variable (fnmatch : String → String → Bool) (model : ConfigModel) (topo : CpuTopology)
  (pkg thread : String)

theorem selections_source {group : Option String} {keep : CompiledRule → Bool}
    (hkeep : keep ∈ selections fnmatch pkg thread group) :
    (∀ r, keep r = true → isExactFor pkg r = true) ∨
      ∀ r, keep r = true → inGroup group r = true := by
  simp only [selections, List.mem_cons, List.not_mem_nil, or_false] at hkeep
  rcases hkeep with rfl | rfl | rfl | rfl
  · exact Or.inl fun r hr => (Bool.and_eq_true_iff.mp hr).1
  · exact Or.inr fun r hr => (Bool.and_eq_true_iff.mp hr).1
  · exact Or.inl fun r hr => (Bool.and_eq_true_iff.mp hr).1
  · exact Or.inr fun r hr => (Bool.and_eq_true_iff.mp hr).1

/-- The app to put first so that `choice` is chosen and the app `lead` decides. -/
theorem exists_first_app {β : Type} {get : Policy → Option β} {choice : Option String}
    (hchoice : IsChoice fnmatch pkg (model.ruleSet .identity topo).rules choice)
    {keep : CompiledRule → Bool} (hkeep : keep ∈ selections fnmatch pkg thread choice)
    {lead : String × AppModel} (hlead : lead ∈ entriesOf model.apps)
    (hhit : firstHits (pick get keep) (compiledTiers .identity topo lead) ≠ []) :
    ∃ first ∈ entriesOf model.apps,
      (∀ pattern, choice = some pattern →
        first.2.pkg = pattern ∧ (compiledTiers .identity topo first).flatten ≠ []) ∧
      (first = lead ∨ firstHits (pick get keep) (compiledTiers .identity topo first) = []) := by
  obtain ⟨b, hb⟩ := List.exists_mem_of_ne_nil _ hhit
  obtain ⟨r, hr, hkeepr, -⟩ := exists_rule_of_mem_firstHits hb
  cases choice with
  | none => exact ⟨lead, hlead, by simp, Or.inl rfl⟩
  | some pattern =>
      by_cases hpkg : lead.2.pkg = pattern
      · refine ⟨lead, hlead, ?_, Or.inl rfl⟩
        rintro _ ⟨rfl⟩
        exact ⟨hpkg, List.ne_nil_of_mem hr⟩
      · obtain ⟨hcand, ⟨r', hr', hrpkg⟩, -⟩ := hchoice
        rw [ruleSet_rules] at hr'
        obtain ⟨first, hfirst, hr'⟩ := List.mem_flatMap.mp hr'
        have hfirstPkg : first.2.pkg = pattern := by
          rw [← pkg_of_mem_compiledTiers hr', hrpkg]
        refine ⟨first, hfirst, ?_, Or.inr ?_⟩
        · rintro _ ⟨rfl⟩
          exact ⟨hfirstPkg, List.ne_nil_of_mem hr'⟩
        · -- the lead is an exact rule, and a pattern never is one
          have hexact : ∀ r, keep r = true → isExactFor pkg r = true := by
            rcases selections_source fnmatch pkg thread hkeep with h | h
            · exact h
            · have hgroup := h r hkeepr
              rw [inGroup, decide_eq_true_iff, Option.some.injEq,
                pkg_of_mem_compiledTiers hr] at hgroup
              exact absurd hgroup.symm hpkg
          have hwild : containsWildcard pattern = true := by
            simp only [isCandidatePattern, isPattern, Bool.and_eq_true] at hcand
            exact hcand.1.1
          by_contra hne
          obtain ⟨c, hc⟩ := List.exists_mem_of_ne_nil _ hne
          obtain ⟨s, hs, hkeeps, -⟩ := exists_rule_of_mem_firstHits hc
          have hfound := hexact s hkeeps
          rw [isExactFor, pkg_of_mem_compiledTiers hs, hfirstPkg, hwild] at hfound
          simp at hfound

theorem isChoice_ruleSet (order : IterOrder) (choice : Option String) :
    IsChoice fnmatch pkg (model.ruleSet order topo).rules choice ↔
      IsChoice fnmatch pkg (model.ruleSet .identity topo).rules choice :=
  ⟨isChoice_perm _ _ (ruleSet_rules_perm ..), isChoice_perm _ _ (ruleSet_rules_perm ..)⟩

theorem chosenPattern_of_none (order : IterOrder)
    (hchoice : IsChoice fnmatch pkg (model.ruleSet .identity topo).rules none) :
    (model.ruleSet order topo).chosenPattern fnmatch pkg = none := by
  have hchosen := isChoice_chosenPattern fnmatch pkg (model.ruleSet order topo)
  cases h : (model.ruleSet order topo).chosenPattern fnmatch pkg with
  | none => rfl
  | some p =>
      rw [h, isChoice_ruleSet] at hchosen
      obtain ⟨hcand, ⟨r, hr, rfl⟩, -⟩ := hchosen
      simp [hchoice r hr] at hcand

theorem chosenPattern_of_leading {order : IterOrder} {choice : Option String}
    (hchoice : IsChoice fnmatch pkg (model.ruleSet .identity topo).rules choice)
    {first : String × AppModel} {rest : List (String × AppModel)}
    (happs : order.apps (entriesOf model.apps) = first :: rest)
    (hfirst : ∀ pattern, choice = some pattern →
      first.2.pkg = pattern ∧ (compiledTiers .identity topo first).flatten ≠ []) :
    (model.ruleSet order topo).chosenPattern fnmatch pkg = choice := by
  cases choice with
  | none => exact chosenPattern_of_none fnmatch model topo pkg order hchoice
  | some pattern =>
      obtain ⟨hpkg, hne⟩ := hfirst pattern rfl
      have hperm := List.Perm.flatten_congr (compiledTiers_perm order .identity topo first)
      obtain ⟨r, block, hblock⟩ : ∃ r block,
          (compiledTiers order topo first).flatten = r :: block := by
        cases h : (compiledTiers order topo first).flatten with
        | nil =>
            rw [h] at hperm
            exact absurd hperm.nil_eq.symm hne
        | cons r block => exact ⟨r, block, rfl⟩
      have hrules : (model.ruleSet order topo).rules = r :: (block ++
          rest.flatMap fun e => (compiledTiers order topo e).flatten) := by
        rw [ruleSet_rules, happs, List.flatMap_cons, hblock, List.cons_append]
      have hr : r.pkg = pattern := by
        have hmem : r ∈ (compiledTiers order topo first).flatten := by simp [hblock]
        rw [← hpkg]
        exact pkg_of_mem_compiledTiers hmem
      rw [← hr] at hchoice ⊢
      exact chosenPattern_of_first fnmatch pkg hrules ((isChoice_ruleSet ..).mpr hchoice)

/-- The values a first-wins field can have under some iteration order, once the
wildcard group is chosen. -/
def candidates {β : Type} (get : Policy → Option β) (choice : Option String) : List (Option β) :=
  possible (stagedLeads (stages fnmatch pkg thread choice get) (compiledTiers .identity topo)
    (entriesOf model.apps))

theorem stagedSearch_mem_candidates {β : Type} (get : Policy → Option β) (choice : Option String)
    (order : IterOrder) :
    stagedSearch (stages fnmatch pkg thread choice get) (model.ruleSet order topo).rules ∈
      candidates fnmatch model topo pkg thread get choice := by
  rw [ruleSet_rules]
  exact stagedSearch_mem_possible _ (order.apps_perm _)
    fun e => compiledTiers_perm order .identity topo e

theorem exists_order_of_choice {choice : Option String}
    (hchoice : IsChoice fnmatch pkg (model.ruleSet .identity topo).rules choice) :
    ∃ order : IterOrder, (model.ruleSet order topo).chosenPattern fnmatch pkg = choice := by
  cases choice with
  | none => exact ⟨.identity, chosenPattern_of_none fnmatch model topo pkg _ hchoice⟩
  | some pattern =>
      obtain ⟨r, hr, hpkg⟩ := hchoice.2.1
      rw [ruleSet_rules] at hr
      obtain ⟨first, hfirst, hr⟩ := List.mem_flatMap.mp hr
      obtain ⟨rest, happs, -⟩ := leading_apps hfirst hfirst ""
      refine ⟨_, chosenPattern_of_leading fnmatch model topo pkg hchoice happs ?_⟩
      rintro _ ⟨rfl⟩
      exact ⟨by rw [← pkg_of_mem_compiledTiers hr, hpkg], List.ne_nil_of_mem hr⟩

/-- Every choice together with every candidate value is realised by some order. -/
theorem exists_order {β : Type} (get : Policy → Option β) {choice : Option String}
    (hchoice : IsChoice fnmatch pkg (model.ruleSet .identity topo).rules choice) {v : Option β}
    (hv : v ∈ candidates fnmatch model topo pkg thread get choice) :
    ∃ order : IterOrder, (model.ruleSet order topo).chosenPattern fnmatch pkg = choice ∧
      stagedSearch (stages fnmatch pkg thread choice get) (model.ruleSet order topo).rules = v := by
  by_cases hnone : stagedLeads (stages fnmatch pkg thread choice get)
      (compiledTiers .identity topo) (entriesOf model.apps) = []
  · obtain ⟨order, horder⟩ := exists_order_of_choice fnmatch model topo pkg hchoice
    have hmem := stagedSearch_mem_candidates fnmatch model topo pkg thread get choice order
    rw [candidates, hnone] at hv hmem
    refine ⟨order, horder, ?_⟩
    rw [List.mem_singleton.mp hv]
    exact List.mem_singleton.mp hmem
  · rw [candidates, possible, if_neg (by simpa only [List.isEmpty_iff] using hnone),
      List.mem_map] at hv
    obtain ⟨b, hb, rfl⟩ := hv
    obtain ⟨before, f, after, lead, hstages, hbefore, hlead, hb⟩ := mem_stagedLeads hb
    obtain ⟨keep, hkeep, rfl⟩ : ∃ keep ∈ selections fnmatch pkg thread choice,
        pick get keep = f := by
      have hf : f ∈ stages fnmatch pkg thread choice get := by simp [hstages]
      exact List.mem_map.mp hf
    obtain ⟨node, hnode⟩ := exists_leading_node hb
    obtain ⟨first, hfirst, hchosen, hskip⟩ := exists_first_app fnmatch model topo pkg thread
      hchoice hkeep hlead (List.ne_nil_of_mem hb)
    obtain ⟨rest, happs, hnext⟩ := leading_apps hfirst hlead node
    refine ⟨.leading first.1 lead.1 node,
      chosenPattern_of_leading fnmatch model topo pkg hchoice happs hchosen, ?_⟩
    have htiers := compiledTiers_perm .identity (.leading first.1 lead.1 node) topo
    have hempty : ∀ g ∈ before, leads g (compiledTiers (.leading first.1 lead.1 node) topo)
        ((IterOrder.leading first.1 lead.1 node).apps (entriesOf model.apps)) = [] := by
      intro g hg
      have hperm := leads_perm g (((IterOrder.leading first.1 lead.1 node).apps_perm
        (entriesOf model.apps)).symm) htiers
      rw [hbefore g hg] at hperm
      exact hperm.nil_eq.symm
    rw [ruleSet_rules, stagedSearch_eq, hstages]
    apply head?_stagedLeads hempty
    rw [happs, leads, List.flatMap_cons]
    rcases hskip with rfl | hskip
    · rw [List.head?_append, hnode, Option.some_or]
    · have hskip' : firstHits (pick get keep)
          (compiledTiers (.leading first.1 lead.1 node) topo first) = [] := by
        have hperm := firstHits_perm (pick get keep) (htiers first)
        rw [hskip] at hperm
        exact hperm.nil_eq.symm
      rcases hnext with rfl | ⟨rest', rfl⟩
      · rw [List.head?_append, hnode, Option.some_or]
      · rw [hskip', List.nil_append, List.flatMap_cons, List.head?_append, hnode, Option.some_or]

end Orders

end Threadctl.Core

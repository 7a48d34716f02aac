import Threadctl.Core.OrderContract

/-!
# User thread nodes over profile templates

The template is merged with the user's nodes by name, but rules are combined again
by pattern when a thread is resolved.  `user_node_overrides_iff` says when a user
node that matches a thread gives exactly its own values.
-/

namespace Threadctl.Core

open Threadctl.Support.FirstHit

section Override

variable (fnmatch : String → String → Bool) (model : ConfigModel) (topo : CpuTopology)
  (key : String) (app : AppModel) (pkg thread : String)

/-! ## Vocabulary -/

/-- The app decides for `pkg` under every iteration order: no other app has its
package name, and it is the exact app of `pkg`, or there is no exact app and its
pattern is the only choice. -/
structure Governs : Prop where
  mem : (key, app) ∈ entriesOf model.apps
  unique : ∀ e ∈ entriesOf model.apps, e.2.pkg = app.pkg → e = (key, app)
  top : (app.pkg = pkg ∧ containsWildcard pkg = false) ∨
    ((∀ e ∈ entriesOf model.apps, e.2.pkg = pkg → containsWildcard pkg = true) ∧
      ∀ c, IsChoice fnmatch pkg (model.ruleSet .identity topo).rules c → c = some app.pkg)

def nodeMatches (name : String) : Bool :=
  !name.isEmpty &&
    match cstring name with
    | some pat => fnmatchC fnmatch pat thread
    | none => false

/-- The policy the user's node stands for, without any template. -/
def nodePolicy (name : String) (node : PolicyModel) : Policy :=
  (ruleOf app.pkg name node topo.clusters).policy topo

/-- The user's node over the template node of the same name. -/
def mergedNode (name : String) (node : PolicyModel) : PolicyModel :=
  overridePolicy (((templateOf app).threads.lookup name).getD .default) node

def answerCpus (answer : Option Policy) : CpuSet := (answer.map (·.cpus)).getD .new

/-- Every field the user's node sets has the user's value in the answer. -/
structure TakesUserValues (name : String) (node : PolicyModel) (answer : Option Policy) :
    Prop where
  cpus : hasCpus node = true → answerCpus answer = (nodePolicy topo app name node).cpus
  sched : node.sched.isSome = true →
    answer.bind (·.schedSetting) = (nodePolicy topo app name node).schedSetting
  nice : node.nice.isSome = true →
    answer.bind (·.nice) = (nodePolicy topo app name node).nice

def appRules : List CompiledRule := (compiledTiers .identity topo (key, app)).flatten

def threadTier : List CompiledRule :=
  (entriesOf (mergedThreads app)).flatMap (nodeRules topo app.pkg)

/-- No matching rule of the app has a CPU outside the user's set; if that set is
empty, no rule that applies has CPUs at all. -/
def CpusUncontested (cpus : CpuSet) : Prop :=
  (0 < cpus.count → ∀ r ∈ appRules topo key app, r.hitsThread fnmatch thread = true →
    r.policy.cpus.within cpus) ∧
  (cpus.count = 0 → ∀ c, IsChoice fnmatch pkg (model.ruleSet .identity topo).rules c →
    Silent fnmatch pkg thread c (model.ruleSet .identity topo).rules ∨
      ∀ r ∈ applicable fnmatch pkg thread c (model.ruleSet .identity topo).rules,
        r.policy.setsCpus = false)

/-- No matching thread node of the app sets the field to another value; if the user's
text means no value, no rule that applies sets the field at all. -/
def FirstUncontested {β : Type} (get : Policy → Option β) : Option β → Prop
  | some b => ∀ r ∈ threadTier topo app, r.hitsThread fnmatch thread = true →
      ∀ b', get r.policy = some b' → b' = b
  | none => ∀ c, IsChoice fnmatch pkg (model.ruleSet .identity topo).rules c →
      Silent fnmatch pkg thread c (model.ruleSet .identity topo).rules ∨
        ∀ r ∈ applicable fnmatch pkg thread c (model.ruleSet .identity topo).rules,
          get r.policy = none

theorem answer_of_loud {order : IterOrder} {c : Option String}
    (hchoice : (model.ruleSet order topo).chosenPattern fnmatch pkg = c)
    (hloud : ¬ Silent fnmatch pkg thread c (model.ruleSet .identity topo).rules) :
    ∃ p, (model.ruleSet order topo).resolve fnmatch pkg thread = some p ∧
      AnswerOf fnmatch pkg thread c (model.ruleSet .identity topo).rules
        (model.ruleSet order topo).rules p := by
  rcases resolve_under_order fnmatch pkg thread model topo order hchoice with
    ⟨hsilent, -⟩ | ⟨-, hanswer⟩
  · exact absurd hsilent hloud
  · exact hanswer

/-- What holds of the answer under every order holds for every choice: of no answer where
nothing speaks for the thread, and else of the policy under each order with that choice. -/
theorem forall_orders_iff {P : Option Policy → Prop} :
    (∀ order : IterOrder, P ((model.ruleSet order topo).resolve fnmatch pkg thread)) ↔
      ∀ c, IsChoice fnmatch pkg (model.ruleSet .identity topo).rules c →
        (Silent fnmatch pkg thread c (model.ruleSet .identity topo).rules → P none) ∧
        (¬ Silent fnmatch pkg thread c (model.ruleSet .identity topo).rules →
          ∀ order : IterOrder, (model.ruleSet order topo).chosenPattern fnmatch pkg = c →
            ∀ p, (model.ruleSet order topo).resolve fnmatch pkg thread = some p →
              AnswerOf fnmatch pkg thread c (model.ruleSet .identity topo).rules
                (model.ruleSet order topo).rules p → P (some p)) := by
  constructor
  · intro hall c hc
    constructor
    · intro hsilent
      obtain ⟨order, horder⟩ := exists_order_of_choice fnmatch model topo pkg hc
      rcases resolve_under_order fnmatch pkg thread model topo order horder with
        ⟨-, hnone⟩ | ⟨hloud, -⟩
      · exact hnone ▸ hall order
      · exact absurd hsilent hloud
    · intro _ order _ p hsome _
      exact hsome ▸ hall order
  · intro hall order
    obtain ⟨hsilent, hloud⟩ := hall _ ((isChoice_ruleSet fnmatch model topo pkg order _).mp
      (isChoice_chosenPattern fnmatch pkg _))
    rcases resolve_under_order fnmatch pkg thread model topo order rfl with
      ⟨h, hnone⟩ | ⟨h, p, hsome, hp⟩
    · rw [hnone]
      exact hsilent h
    · rw [hsome]
      exact hloud h order rfl p hsome hp

theorem answerCpus_eq_iff (cpus : CpuSet) :
    (∀ order : IterOrder,
        answerCpus ((model.ruleSet order topo).resolve fnmatch pkg thread) = cpus) ↔
      ∀ c, IsChoice fnmatch pkg (model.ruleSet .identity topo).rules c →
        (Silent fnmatch pkg thread c (model.ruleSet .identity topo).rules → cpus = .new) ∧
        (¬ Silent fnmatch pkg thread c (model.ruleSet .identity topo).rules →
          countingCpus fnmatch pkg thread c (model.ruleSet .identity topo).rules = cpus) := by
  rw [forall_orders_iff fnmatch model topo pkg thread (P := fun answer => answerCpus answer = cpus)]
  apply forall₂_congr
  intro c hc
  apply and_congr
  · exact imp_congr_right fun _ => eq_comm
  · apply imp_congr_right
    intro hloud
    constructor
    · intro hall
      obtain ⟨order, horder⟩ := exists_order_of_choice fnmatch model topo pkg hc
      obtain ⟨p, hsome, hp⟩ := answer_of_loud fnmatch model topo pkg thread horder hloud
      exact hp.cpus_eq.symm.trans (hall order horder p hsome hp)
    · intro hcpus _ _ p _ hp
      exact hp.cpus_eq.trans hcpus

theorem firstWins_eq_iff {β : Type} {get : Policy → Option β}
    (hget : ∀ {c : Option String} {rules rules' : List CompiledRule} {p : Policy},
      AnswerOf fnmatch pkg thread c rules rules' p →
        get p = stagedSearch (stages fnmatch pkg thread c get) rules') (v : Option β) :
    (∀ order : IterOrder,
        ((model.ruleSet order topo).resolve fnmatch pkg thread).bind get = v) ↔
      ∀ c, IsChoice fnmatch pkg (model.ruleSet .identity topo).rules c →
        (Silent fnmatch pkg thread c (model.ruleSet .identity topo).rules → v = none) ∧
        (¬ Silent fnmatch pkg thread c (model.ruleSet .identity topo).rules →
          ∀ w ∈ candidates fnmatch model topo pkg thread get c, w = v) := by
  rw [forall_orders_iff fnmatch model topo pkg thread (P := fun answer => answer.bind get = v)]
  apply forall₂_congr
  intro c hc
  apply and_congr
  · exact imp_congr_right fun _ => eq_comm
  · apply imp_congr_right
    intro hloud
    constructor
    · intro hall w hw
      obtain ⟨order, horder, hsearch⟩ := exists_order fnmatch model topo pkg thread get hc hw
      obtain ⟨p, hsome, hp⟩ := answer_of_loud fnmatch model topo pkg thread horder hloud
      rw [← hsearch, ← hget hp]
      exact hall order horder p hsome hp
    · intro hall order hchoice p _ hp
      rw [Option.bind_some, hget hp]
      apply hall
      rw [← hchoice]
      exact stagedSearch_mem_candidates ..

/-! ## Fields that nothing sets -/

theorem overlay_setsCpus_iff (c : Option String) (rules : List CompiledRule) :
    (overlay fnmatch pkg thread c rules).setsCpus = true ↔
      ∃ r ∈ applicable fnmatch pkg thread c rules, r.policy.setsCpus = true := by
  have hoverlay := overlay_sets_iff fnmatch thread fillMissing_setsCpus strategyTable_setsCpus
    (rules.filter (isExactFor pkg)) (rules.filter (inGroup c))
  simp only [mem_applicable_iff]
  exact hoverlay

theorem countingCpus_eq_new_iff (c : Option String) (rules : List CompiledRule) :
    countingCpus fnmatch pkg thread c rules = .new ↔
      ∀ r ∈ applicable fnmatch pkg thread c rules, r.policy.setsCpus = false := by
  have h := overlay_setsCpus_iff fnmatch pkg thread c rules
  rw [← (overlay_fixed fnmatch pkg thread c rules).1, ← CpuSet.count_eq_zero]
  rw [Policy.setsCpus, decide_eq_true_iff] at h
  constructor
  · intro hzero r hr
    refine Bool.eq_false_iff.mpr fun hset => ?_
    have hpos := h.mpr ⟨r, hr, hset⟩
    omega
  · intro hall
    by_contra hne
    obtain ⟨r, hr, hset⟩ := h.mp (Nat.pos_of_ne_zero hne)
    simp [hall r hr] at hset

theorem stagedSearch_eq_none_iff {β : Type} (get : Policy → Option β) (c : Option String)
    (rules : List CompiledRule) :
    stagedSearch (stages fnmatch pkg thread c get) rules = none ↔
      ∀ r ∈ applicable fnmatch pkg thread c rules, get r.policy = none := by
  have hpick : ∀ (keep : CompiledRule → Bool) (r : CompiledRule),
      pick get keep r = none ↔ (keep r = true → get r.policy = none) := by
    intro keep r
    unfold pick
    split <;> simp_all
  simp only [stagedSearch, stages, selections, List.map_cons, List.map_nil,
    List.findSome?_eq_none_iff, List.mem_cons, List.not_mem_nil, or_false, forall_eq_or_imp,
    forall_eq, hpick, Bool.and_eq_true, applicable, List.mem_filter, Bool.or_eq_true,
    CompiledRule.applies]
  constructor
  · rintro ⟨h₁, h₂, h₃, h₄⟩ r ⟨hr, hexact | hgroup, hlevel | hhit⟩
    · exact h₃ r hr ⟨hexact, hlevel⟩
    · exact h₁ r hr ⟨hexact, hhit⟩
    · exact h₄ r hr ⟨hgroup, hlevel⟩
    · exact h₂ r hr ⟨hgroup, hhit⟩
  · intro h
    exact ⟨fun r hr hk => h r ⟨hr, Or.inl hk.1, Or.inr hk.2⟩,
      fun r hr hk => h r ⟨hr, Or.inr hk.1, Or.inr hk.2⟩,
      fun r hr hk => h r ⟨hr, Or.inl hk.1, Or.inl hk.2⟩,
      fun r hr hk => h r ⟨hr, Or.inr hk.1, Or.inl hk.2⟩⟩

theorem rules_identity : (model.ruleSet .identity topo).rules =
    (entriesOf model.apps).flatMap fun e => (compiledTiers .identity topo e).flatten :=
  ruleSet_rules .identity model topo

theorem candidates_none_iff {β : Type} (get : Policy → Option β) (c : Option String) :
    (∀ w ∈ candidates fnmatch model topo pkg thread get c, w = none) ↔
      ∀ r ∈ applicable fnmatch pkg thread c (model.ruleSet .identity topo).rules,
        get r.policy = none := by
  rw [← stagedSearch_eq_none_iff, rules_identity, stagedSearch_eq, candidates, possible_none_iff]

variable {fnmatch model topo key app pkg thread}

theorem mem_appRules_iff (h : Governs fnmatch model topo key app pkg) {r : CompiledRule} :
    r ∈ appRules topo key app ↔
      r ∈ (model.ruleSet .identity topo).rules ∧ r.pkg = app.pkg := by
  rw [rules_identity, List.mem_flatMap]
  constructor
  · intro hr
    exact ⟨⟨(key, app), h.mem, hr⟩, pkg_of_mem_compiledTiers hr⟩
  · rintro ⟨⟨e, he, hr⟩, hpkg⟩
    rw [pkg_of_mem_compiledTiers hr] at hpkg
    rw [h.unique e he hpkg] at hr
    exact hr

/-- The app is the deciding source: it is all of the exact rules, or there are no exact
rules and it is all of the chosen group. -/
theorem Governs.source (h : Governs fnmatch model topo key app pkg) {c : Option String}
    (hc : IsChoice fnmatch pkg (model.ruleSet .identity topo).rules c) :
    (∀ r ∈ (model.ruleSet .identity topo).rules,
        isExactFor pkg r = true ↔ r.pkg = app.pkg) ∨
      (∀ r ∈ (model.ruleSet .identity topo).rules, isExactFor pkg r = false) ∧
        ∀ r ∈ (model.ruleSet .identity topo).rules,
          inGroup c r = true ↔ r.pkg = app.pkg := by
  rcases h.top with ⟨rfl, hplain⟩ | ⟨hnone, honly⟩
  · refine Or.inl fun r _ => ?_
    rw [isExactFor, Bool.and_eq_true, decide_eq_true_iff]
    exact ⟨And.left, fun hpkg => ⟨hpkg, by simp [hpkg, hplain]⟩⟩
  · refine Or.inr ⟨fun r hr => ?_, fun r _ => ?_⟩
    · rw [rules_identity, List.mem_flatMap] at hr
      obtain ⟨e, he, hr⟩ := hr
      rw [Bool.eq_false_iff]
      intro hexact
      rw [isExactFor, Bool.and_eq_true, decide_eq_true_iff] at hexact
      have hwild := hnone e he (by rw [← pkg_of_mem_compiledTiers hr, hexact.1])
      rw [hexact.1, hwild] at hexact
      simp at hexact
    · rw [honly c hc, inGroup, decide_eq_true_iff, Option.some.injEq, eq_comm]

theorem thread_of_mem_nodeRules {e : String × PolicyModel} {r : CompiledRule}
    (hr : r ∈ nodeRules topo app.pkg e) : r.thread = e.1 := by
  obtain ⟨rc, hrc, hr⟩ := List.mem_filterMap.mp hr
  rw [(mem_policyToRules.mp hrc).2] at hr
  obtain ⟨-, rfl⟩ := compiled_eq_some_iff.mp hr
  rfl

theorem exists_userRule {name : String} {node : PolicyModel}
    (hnode : app.threads.lookup name = some node)
    (hmatch : nodeMatches fnmatch thread name = true)
    (haccept : (ruleOf app.pkg name (mergedNode app name node) topo.clusters).Accepted topo)
    (hany : hasAnyPolicy (mergedNode app name node) = true) :
    ∃ r ∈ threadTier topo app, r.hitsThread fnmatch thread = true ∧
      r.policy = nodePolicy topo app name (mergedNode app name node) := by
  have hmerged : (mergedThreads app).lookup name = some (mergedNode app name node) := by
    rw [mergedThreads, lookup_overrideNodes, hnode]
    rfl
  refine ⟨⟨app.pkg, name, cstring name, nodePolicy topo app name (mergedNode app name node)⟩,
    List.mem_flatMap.mpr ⟨(name, mergedNode app name node), mem_entriesOf.mpr hmerged, ?_⟩,
    hmatch, rfl⟩
  rw [nodeRules, policyToRules, if_pos hany, List.mem_filterMap]
  exact ⟨_, List.mem_singleton.mpr rfl, compiled_eq_some_iff.mpr ⟨haccept, rfl⟩⟩

theorem overridden_cpus (topo : CpuTopology) (app : AppModel) (name : String)
    (base : PolicyModel) {node : PolicyModel} (h : hasCpus node = true) :
    hasAnyPolicy (overridePolicy base node) = true ∧
      (nodePolicy topo app name (overridePolicy base node)).cpus =
        (nodePolicy topo app name node).cpus := by
  have hfields : (overridePolicy base node).cpus = node.cpus ∧
      (node.cpus = none → (overridePolicy base node).cluster = node.cluster) := by
    unfold hasCpus at h
    unfold overridePolicy
    cases hcpus : node.cpus <;> cases hcluster : node.cluster <;> simp_all
  have htext : cpusText (overridePolicy base node) topo.clusters =
      cpusText node topo.clusters := by
    unfold cpusText
    rw [hfields.1]
    cases hcpus : node.cpus with
    | none => rw [hfields.2 hcpus]
    | some text => rfl
  have hpolicy : ∀ {rc rc' : RuleConfig}, rc.cpus = rc'.cpus →
      (rc.policy topo).cpus = (rc'.policy topo).cpus := by
    intro rc rc' heq
    simp only [RuleConfig.policy, heq]
  refine ⟨?_, hpolicy htext⟩
  unfold hasCpus at h
  unfold hasAnyPolicy hasCpus
  rw [hfields.1]
  cases hcpus : node.cpus with
  | none =>
      rw [hfields.2 hcpus]
      simp_all
  | some text => simp

theorem overridden_sched (topo : CpuTopology) (app : AppModel) (name : String)
    (base : PolicyModel) {node : PolicyModel} (h : node.sched.isSome = true) :
    hasAnyPolicy (overridePolicy base node) = true ∧
      (nodePolicy topo app name (overridePolicy base node)).schedSetting =
        (nodePolicy topo app name node).schedSetting := by
  have hsched : (overridePolicy base node).sched = node.sched := if_pos h
  have hpolicy : ∀ {rc rc' : RuleConfig}, rc.sched = rc'.sched →
      (rc.policy topo).schedSetting = (rc'.policy topo).schedSetting := by
    intro rc rc' heq
    simp only [RuleConfig.policy, RuleConfig.schedSpec, heq, Policy.schedSetting]
  refine ⟨?_, hpolicy hsched⟩
  unfold hasAnyPolicy
  rw [hsched, h]
  simp

theorem overridden_nice (topo : CpuTopology) (app : AppModel) (name : String)
    (base : PolicyModel) {node : PolicyModel} (h : node.nice.isSome = true) :
    hasAnyPolicy (overridePolicy base node) = true ∧
      (nodePolicy topo app name (overridePolicy base node)).nice =
        (nodePolicy topo app name node).nice := by
  have hnice : (overridePolicy base node).nice = node.nice := if_pos h
  refine ⟨?_, hnice⟩
  unfold hasAnyPolicy
  rw [hnice, h]
  simp

/-! ## What the user's rule decides -/

section UserRule

variable {c : Option String} {user : CompiledRule}

theorem threadTier_subset {r : CompiledRule} (hr : r ∈ threadTier topo app) :
    r ∈ appRules topo key app := by
  exact List.mem_flatten.mpr
    ⟨threadTier topo app, List.mem_cons_of_mem _ (List.mem_cons_self ..), hr⟩

theorem user_applies (h : Governs fnmatch model topo key app pkg)
    (hc : IsChoice fnmatch pkg (model.ruleSet .identity topo).rules c)
    (huser : user ∈ threadTier topo app) (hhit : user.hitsThread fnmatch thread = true) :
    user ∈ applicable fnmatch pkg thread c (model.ruleSet .identity topo).rules := by
  obtain ⟨hmem, hpkg⟩ := (mem_appRules_iff h).mp (threadTier_subset huser)
  have hsource : isExactFor pkg user = true ∨ inGroup c user = true := by
    rcases h.source hc with hexact | ⟨-, hgroup⟩
    · exact Or.inl ((hexact user hmem).mpr hpkg)
    · exact Or.inr ((hgroup user hmem).mpr hpkg)
  rw [applicable, List.mem_filter, Bool.and_eq_true, Bool.or_eq_true, CompiledRule.applies,
    Bool.or_eq_true]
  exact ⟨hmem, hsource, Or.inr hhit⟩

theorem not_silent_of_user (h : Governs fnmatch model topo key app pkg)
    (hc : IsChoice fnmatch pkg (model.ruleSet .identity topo).rules c)
    (huser : user ∈ threadTier topo app) (hhit : user.hitsThread fnmatch thread = true)
    (hset : user.policy.setsPlacement = true) :
    ¬ Silent fnmatch pkg thread c (model.ruleSet .identity topo).rules := by
  have happlies := user_applies h hc huser hhit
  rintro (⟨-, hblank⟩ | hblank)
  · exact hblank ⟨user, happlies, hhit, setsAny_of_setsPlacement hset⟩
  · exact hblank ⟨user, happlies, hset⟩

theorem isSet_countingCpus_of_user (h : Governs fnmatch model topo key app pkg)
    (hc : IsChoice fnmatch pkg (model.ruleSet .identity topo).rules c)
    (huser : user ∈ threadTier topo app) (hhit : user.hitsThread fnmatch thread = true)
    (hset : user.policy.setsCpus = true) (i : Nat) :
    (countingCpus fnmatch pkg thread c (model.ruleSet .identity topo).rules).isSet i = true ↔
      ∃ r ∈ appRules topo key app, r.hitsThread fnmatch thread = true ∧
        r.policy.cpus.isSet i = true := by
  have hcounts : ∃ r ∈ applicable fnmatch pkg thread c (model.ruleSet .identity topo).rules,
      r.hitsThread fnmatch thread = true ∧ r.policy.setsCpus = true :=
    ⟨user, user_applies h hc huser hhit, hhit, hset⟩
  obtain ⟨hmem, hpkg⟩ := (mem_appRules_iff h).mp (threadTier_subset huser)
  have hrule := fun r => mem_appRules_iff (r := r) h
  have hsource := h.source hc
  unfold countingCpus decidingRules
  generalize (model.ruleSet .identity topo).rules = rules at *
  have hany : (rules.filter (isExactFor pkg) ++ rules.filter (inGroup c)).any
      (fun r => r.hitsThread fnmatch thread && r.policy.setsCpus) = true := by
    obtain ⟨r, hr, hhit, hset⟩ := hcounts
    simp only [applicable, List.mem_filter, Bool.and_eq_true, Bool.or_eq_true] at hr
    rw [List.any_eq_true]
    refine ⟨r, ?_, by simp [hhit, hset]⟩
    simp only [List.mem_append, List.mem_filter]
    tauto
  rw [countingRules, countingRules, if_pos hany, if_pos hany, decidingSource]
  rcases hsource with hexact | ⟨hnone, hgroup⟩
  · rw [if_pos, ruleCpus, isSet_unionCpus]
    · simp only [List.mem_map, List.mem_filter, exists_exists_and_eq_and, hrule]
      exact exists_congr fun r => by have := hexact r; tauto
    · rw [List.any_eq_true]
      exact ⟨user, by simp [hmem, hexact user hmem, hpkg, hhit], hset⟩
  · have hempty : rules.filter (isExactFor pkg) = [] :=
      List.filter_eq_nil_iff.mpr fun r hr => by simp [hnone r hr]
    rw [hempty, List.filter_nil, List.any_nil, if_neg (by simp), ruleCpus, isSet_unionCpus]
    simp only [List.mem_map, List.mem_filter, exists_exists_and_eq_and, hrule]
    exact exists_congr fun r => by have := hgroup r; tauto

section FirstWins

variable {β : Type} {get : Policy → Option β} {b₀ : β}

theorem mem_filterMap_pick {keep : CompiledRule → Bool} {rules : List CompiledRule} {b : β} :
    b ∈ rules.filterMap (pick get keep) ↔
      ∃ r ∈ rules, keep r = true ∧ get r.policy = some b := by
  rw [List.mem_filterMap]
  apply exists_congr
  intro r
  unfold pick
  split <;> simp_all

theorem firstHits_app {keep : CompiledRule → Bool}
    (hkeep : ∀ r, keep r = true → r.hitsThread fnmatch thread = true)
    (huser : user ∈ threadTier topo app) (hkept : keep user = true)
    (hget : get user.policy = some b₀) :
    firstHits (pick get keep) (compiledTiers .identity topo (key, app)) =
      (threadTier topo app).filterMap (pick get keep) := by
  have hdefault :
      (nodeRules topo app.pkg ("", mergedDefault app)).filterMap (pick get keep) = [] := by
    rw [List.eq_nil_iff_forall_not_mem]
    intro b hb
    obtain ⟨r, hr, hkeepr, -⟩ := mem_filterMap_pick.mp hb
    have hhit := hkeep r hkeepr
    rw [CompiledRule.hitsThread, thread_of_mem_nodeRules hr] at hhit
    simp at hhit
  exact (firstHits_cons_of_nil hdefault _).trans
    (firstHits_cons_of_mem (mem_filterMap_pick.mpr ⟨user, huser, hkept, hget⟩) _)

theorem mem_leads_iff (h : Governs fnmatch model topo key app pkg)
    {source : CompiledRule → Bool}
    (hsource : ∀ r ∈ (model.ruleSet .identity topo).rules, source r = true ↔ r.pkg = app.pkg)
    (huser : user ∈ threadTier topo app) (hhit : user.hitsThread fnmatch thread = true)
    (hget : get user.policy = some b₀) {b : β} :
    b ∈ leads (pick get fun r => source r && r.hitsThread fnmatch thread)
        (compiledTiers .identity topo) (entriesOf model.apps) ↔
      ∃ r ∈ threadTier topo app, r.hitsThread fnmatch thread = true ∧ get r.policy = some b := by
  have hmember : ∀ r ∈ threadTier topo app, source r = true := by
    intro r hr
    obtain ⟨hmem, hpkg⟩ := (mem_appRules_iff h).mp (threadTier_subset hr)
    exact (hsource r hmem).mpr hpkg
  have happ : firstHits (pick get fun r => source r && r.hitsThread fnmatch thread)
      (compiledTiers .identity topo (key, app)) = (threadTier topo app).filterMap
        (pick get fun r => source r && r.hitsThread fnmatch thread) :=
    firstHits_app (fun r hr => (Bool.and_eq_true_iff.mp hr).2) huser
      (by simp [hmember user huser, hhit]) hget
  rw [leads, List.mem_flatMap]
  constructor
  · rintro ⟨e, he, hb⟩
    have hentry : e = (key, app) := by
      obtain ⟨r, hr, hkeep, -⟩ := exists_rule_of_mem_firstHits hb
      have hmem : r ∈ (model.ruleSet .identity topo).rules := by
        rw [rules_identity]
        exact List.mem_flatMap.mpr ⟨e, he, hr⟩
      have hpkg := (hsource r hmem).mp (Bool.and_eq_true_iff.mp hkeep).1
      rw [pkg_of_mem_compiledTiers hr] at hpkg
      exact h.unique e he hpkg
    rw [hentry, happ] at hb
    obtain ⟨r, hr, hkeep, hget⟩ := mem_filterMap_pick.mp hb
    exact ⟨r, hr, (Bool.and_eq_true_iff.mp hkeep).2, hget⟩
  · rintro ⟨r, hr, hhit, hget⟩
    refine ⟨(key, app), h.mem, ?_⟩
    rw [happ]
    exact mem_filterMap_pick.mpr ⟨r, hr, by simp [hmember r hr, hhit], hget⟩

/-- The candidates for a field that the user's rule sets are the values of the matching
thread nodes. -/
theorem mem_candidates_of_user (h : Governs fnmatch model topo key app pkg)
    (hc : IsChoice fnmatch pkg (model.ruleSet .identity topo).rules c)
    (huser : user ∈ threadTier topo app) (hhit : user.hitsThread fnmatch thread = true)
    (hget : get user.policy = some b₀) {w : Option β} :
    w ∈ candidates fnmatch model topo pkg thread get c ↔
      ∃ b, w = some b ∧
        ∃ r ∈ threadTier topo app, r.hitsThread fnmatch thread = true ∧ get r.policy = some b := by
  have hleads : ∃ source : CompiledRule → Bool,
      (∀ r ∈ (model.ruleSet .identity topo).rules, source r = true ↔ r.pkg = app.pkg) ∧
      stagedLeads (stages fnmatch pkg thread c get) (compiledTiers .identity topo)
          (entriesOf model.apps) =
        leads (pick get fun r => source r && r.hitsThread fnmatch thread)
          (compiledTiers .identity topo) (entriesOf model.apps) := by
    have hstep : ∀ {source : CompiledRule → Bool},
        (∀ r ∈ (model.ruleSet .identity topo).rules, source r = true ↔ r.pkg = app.pkg) →
        ∀ later, firstHits some (leads (pick get fun r => source r && r.hitsThread fnmatch thread)
          (compiledTiers .identity topo) (entriesOf model.apps) :: later) =
            leads (pick get fun r => source r && r.hitsThread fnmatch thread)
              (compiledTiers .identity topo) (entriesOf model.apps) := by
      intro source hsource later
      have hmem := (mem_leads_iff h hsource huser hhit hget).mpr ⟨user, huser, hhit, hget⟩
      rw [firstHits_cons_of_mem (b := b₀) (by rwa [List.filterMap_some]), List.filterMap_some]
    rcases h.source hc with hexact | ⟨hnone, hgroup⟩
    · exact ⟨isExactFor pkg, hexact, hstep hexact _⟩
    · have hempty : leads (pick get fun r => isExactFor pkg r && r.hitsThread fnmatch thread)
          (compiledTiers .identity topo) (entriesOf model.apps) = [] := by
        rw [List.eq_nil_iff_forall_not_mem]
        intro b hb
        obtain ⟨e, he, hb⟩ := List.mem_flatMap.mp hb
        obtain ⟨r, hr, hkeep, -⟩ := exists_rule_of_mem_firstHits hb
        have hmem : r ∈ (model.ruleSet .identity topo).rules := by
          rw [rules_identity]
          exact List.mem_flatMap.mpr ⟨e, he, hr⟩
        rw [hnone r hmem] at hkeep
        simp at hkeep
      refine ⟨inGroup c, hgroup, ?_⟩
      have hskip : stagedLeads (stages fnmatch pkg thread c get) (compiledTiers .identity topo)
          (entriesOf model.apps) = firstHits some _ :=
        firstHits_cons_of_nil (by rw [List.filterMap_some]; exact hempty) _
      rw [hskip]
      exact hstep hgroup _
  obtain ⟨source, hsource, hleads⟩ := hleads
  have hmem := fun b => mem_leads_iff (b := b) h hsource huser hhit hget
  have hne : leads (pick get fun r => source r && r.hitsThread fnmatch thread)
      (compiledTiers .identity topo) (entriesOf model.apps) ≠ [] :=
    List.ne_nil_of_mem ((hmem b₀).mpr ⟨user, huser, hhit, hget⟩)
  rw [candidates, hleads, possible, if_neg (by simpa only [List.isEmpty_iff] using hne),
    List.mem_map]
  constructor
  · rintro ⟨b, hb, rfl⟩
    exact ⟨b, rfl, (hmem b).mp hb⟩
  · rintro ⟨b, rfl, hb⟩
    exact ⟨b, (hmem b).mpr hb, rfl⟩

end FirstWins

end UserRule

/-! ## Contract -/

section Contract

variable (fnmatch model topo key app pkg thread)

/-- Nothing contests the fields that the user's node sets. -/
structure Uncontested (name : String) (node : PolicyModel) : Prop where
  cpus : hasCpus node = true →
    CpusUncontested fnmatch model topo key app pkg thread (nodePolicy topo app name node).cpus
  sched : node.sched.isSome = true →
    FirstUncontested fnmatch model topo app pkg thread Policy.schedSetting
      (nodePolicy topo app name node).schedSetting
  nice : node.nice.isSome = true →
    FirstUncontested fnmatch model topo app pkg thread (·.nice)
      (nodePolicy topo app name node).nice

theorem answerCpus_user_iff (h : Governs fnmatch model topo key app pkg) {user : CompiledRule}
    (huser : user ∈ threadTier topo app) (hhit : user.hitsThread fnmatch thread = true) :
    (∀ order : IterOrder, answerCpus ((model.ruleSet order topo).resolve fnmatch pkg thread) =
        user.policy.cpus) ↔
      CpusUncontested fnmatch model topo key app pkg thread user.policy.cpus := by
  rw [answerCpus_eq_iff]
  by_cases hset : 0 < user.policy.cpus.count
  · have hset' : user.policy.setsCpus = true := by simpa [Policy.setsCpus] using hset
    have hloud := fun c hc => not_silent_of_user (c := c) h hc huser hhit
      (by simp [Policy.setsPlacement, hset'])
    constructor
    · intro hall
      refine ⟨fun _ r hr hhitr i hi => ?_, fun hzero => by omega⟩
      have hc := isChoice_chosenPattern fnmatch pkg (model.ruleSet .identity topo)
      rw [← (hall _ hc).2 (hloud _ hc)]
      exact (isSet_countingCpus_of_user h hc huser hhit hset' i).mpr ⟨r, hr, hhitr, hi⟩
    · rintro ⟨hwithin, -⟩ c hc
      refine ⟨fun hs => absurd hs (hloud c hc), fun _ => CpuSet.ext_isSet fun i => ?_⟩
      rw [Bool.eq_iff_iff, isSet_countingCpus_of_user h hc huser hhit hset' i]
      constructor
      · rintro ⟨r, hr, hhitr, hi⟩
        exact hwithin hset r hr hhitr i hi
      · intro hi
        exact ⟨user, threadTier_subset huser, hhit, hi⟩
  · have hnew : user.policy.cpus = .new := CpuSet.count_eq_zero.mp (by omega)
    rw [hnew]
    have hzero : CpuSet.new.count = 0 := CpuSet.count_eq_zero.mpr rfl
    simp only [CpusUncontested, hzero, lt_self_iff_false, false_imp_iff, true_and,
      implies_true, forall_const, countingCpus_eq_new_iff]
    exact forall_congr' fun c => forall_congr' fun _ => (or_iff_not_imp_left).symm

theorem firstWins_user_iff {β : Type} {get : Policy → Option β}
    (hget : ∀ {c : Option String} {rules rules' : List CompiledRule} {p : Policy},
      AnswerOf fnmatch pkg thread c rules rules' p →
        get p = stagedSearch (stages fnmatch pkg thread c get) rules')
    (hplace : ∀ p : Policy, (get p).isSome = true → p.setsPlacement = true)
    (h : Governs fnmatch model topo key app pkg) {user : CompiledRule}
    (huser : user ∈ threadTier topo app) (hhit : user.hitsThread fnmatch thread = true) :
    (∀ order : IterOrder, ((model.ruleSet order topo).resolve fnmatch pkg thread).bind get =
        get user.policy) ↔
      FirstUncontested fnmatch model topo app pkg thread get (get user.policy) := by
  rw [firstWins_eq_iff _ _ _ _ _ hget]
  cases hvalue : get user.policy with
  | some b =>
      have hloud := fun c hc => not_silent_of_user (c := c) h hc huser hhit
        (hplace _ (by simp [hvalue]))
      have hcand := fun c hc w => mem_candidates_of_user (c := c) (w := w) h hc huser hhit hvalue
      constructor
      · intro hall r hr hhitr b' hb'
        have hc := isChoice_chosenPattern fnmatch pkg (model.ruleSet .identity topo)
        exact Option.some.inj ((hall _ hc).2 (hloud _ hc) _
          ((hcand _ hc _).mpr ⟨b', rfl, r, hr, hhitr, hb'⟩))
      · intro hfree c hc
        refine ⟨fun hs => absurd hs (hloud c hc), fun _ w hw => ?_⟩
        obtain ⟨b', rfl, r, hr, hhitr, hb'⟩ := (hcand c hc w).mp hw
        rw [hfree r hr hhitr b' hb']
  | none =>
      simp only [FirstUncontested, implies_true, true_and, candidates_none_iff]
      exact forall_congr' fun c => forall_congr' fun _ => (or_iff_not_imp_left).symm

/-- A matching user node gives exactly its own values, under every iteration order, if
and only if nothing contests them. -/
theorem user_node_overrides_iff {name : String} {node : PolicyModel}
    (h : Governs fnmatch model topo key app pkg)
    (hnode : app.threads.lookup name = some node)
    (hmatch : nodeMatches fnmatch thread name = true)
    (haccept : (ruleOf app.pkg name (mergedNode app name node) topo.clusters).Accepted topo) :
    (∀ order : IterOrder, TakesUserValues topo app name node
        ((model.ruleSet order topo).resolve fnmatch pkg thread)) ↔
      Uncontested fnmatch model topo key app pkg thread name node := by
  have huser : hasAnyPolicy (mergedNode app name node) = true →
      ∃ r ∈ threadTier topo app, r.hitsThread fnmatch thread = true ∧
        r.policy = nodePolicy topo app name (mergedNode app name node) :=
    exists_userRule hnode hmatch haccept
  have hcpus : hasCpus node = true → ((∀ order : IterOrder,
      answerCpus ((model.ruleSet order topo).resolve fnmatch pkg thread) =
        (nodePolicy topo app name node).cpus) ↔ CpusUncontested fnmatch model topo key app pkg
          thread (nodePolicy topo app name node).cpus) := by
    intro hset
    obtain ⟨hany, hkeep⟩ := overridden_cpus topo app name _ hset
    obtain ⟨user, huser, hhit, hpolicy⟩ := huser hany
    rw [← hkeep, ← mergedNode, ← hpolicy]
    exact answerCpus_user_iff _ _ _ _ _ _ _ h huser hhit
  have hsched : node.sched.isSome = true → ((∀ order : IterOrder,
      ((model.ruleSet order topo).resolve fnmatch pkg thread).bind (·.schedSetting) =
        (nodePolicy topo app name node).schedSetting) ↔
          FirstUncontested fnmatch model topo app pkg thread Policy.schedSetting
            (nodePolicy topo app name node).schedSetting) := by
    intro hset
    obtain ⟨hany, hkeep⟩ := overridden_sched topo app name _ hset
    obtain ⟨user, huser, hhit, hpolicy⟩ := huser hany
    rw [← hkeep, ← mergedNode, ← hpolicy]
    refine firstWins_user_iff _ _ _ _ _ _ _ AnswerOf.sched_eq (fun p hp => ?_) h huser hhit
    have : p.sched.isSome = true := by simpa [Policy.schedSetting] using hp
    simp [Policy.setsPlacement, Policy.setsSched, this]
  have hnice : node.nice.isSome = true → ((∀ order : IterOrder,
      ((model.ruleSet order topo).resolve fnmatch pkg thread).bind (·.nice) =
        (nodePolicy topo app name node).nice) ↔
          FirstUncontested fnmatch model topo app pkg thread (·.nice)
            (nodePolicy topo app name node).nice) := by
    intro hset
    obtain ⟨hany, hkeep⟩ := overridden_nice topo app name _ hset
    obtain ⟨user, huser, hhit, hpolicy⟩ := huser hany
    rw [← hkeep, ← mergedNode, ← hpolicy]
    refine firstWins_user_iff _ _ _ _ _ _ _ AnswerOf.nice_eq (fun p hp => ?_) h huser hhit
    simp [Policy.setsPlacement, Policy.setsNice, hp]
  constructor
  · intro hall
    exact ⟨fun hset => (hcpus hset).mp fun order => (hall order).cpus hset,
      fun hset => (hsched hset).mp fun order => (hall order).sched hset,
      fun hset => (hnice hset).mp fun order => (hall order).nice hset⟩
  · intro hfree order
    exact ⟨fun hset => (hcpus hset).mpr (hfree.cpus hset) order,
      fun hset => (hsched hset).mpr (hfree.sched hset) order,
      fun hset => (hnice hset).mpr (hfree.nice hset) order⟩

end Contract

end Override

/-! ## A game with its own render thread -/

def gameTopo : CpuTopology :=
  { CpuTopology.flat 8 with
    clusters := [⟨.prime, parseCpuRanges "7" none, "7", 1024⟩,
      ⟨.big, parseCpuRanges "4-6" none, "4-6", 800⟩,
      ⟨.little, parseCpuRanges "0-3" none, "0-3", 400⟩] }

/-- Profile `game`, and one thread node with two little CPUs. -/
def gameApp : AppModel :=
  ⟨"com.game", some "game", .default,
    single "RenderThread" { PolicyModel.default with cpus := some "0-1" }, ∅⟩

def gameModel : ConfigModel := ⟨AList.singleton "com.game" gameApp⟩

theorem game_governs : Governs glob gameModel gameTopo "com.game" gameApp "com.game" where
  mem := List.mem_singleton.mpr rfl
  unique := fun _ he _ => List.mem_singleton.mp he
  top := Or.inl ⟨rfl, by decide⟩

theorem user_node_overrides_game :
    (∀ order : IterOrder, TakesUserValues gameTopo gameApp "RenderThread"
        { PolicyModel.default with cpus := some "0-1" }
        ((gameModel.ruleSet order gameTopo).resolve glob "com.game" "RenderThread")) ↔
      Uncontested glob gameModel gameTopo "com.game" gameApp "com.game" "RenderThread"
        "RenderThread" { PolicyModel.default with cpus := some "0-1" } :=
  user_node_overrides_iff glob gameModel gameTopo "com.game" gameApp "com.game" "RenderThread"
    game_governs (by decide +kernel) (by decide +kernel)
    ⟨by decide +kernel, by decide +kernel, by decide +kernel, by decide +kernel⟩

/-- The template's render alias matches the user's thread as well, and its prime CPU
joins the user's set. -/
theorem template_adds_prime :
    (builtinProfile "game").isSome ∧
      (entriesOf gameApp.threads).filter (fun e => nodeMatches glob "RenderThread" e.1) =
        [("RenderThread", { PolicyModel.default with cpus := some "0-1" })] ∧
      answerCpus ((gameModel.ruleSet .identity gameTopo).resolve glob "com.game"
        "RenderThread") = parseCpuRanges "0-1,7" none ∧
      parseCpuRanges "0-1,7" none ≠ (nodePolicy gameTopo gameApp "RenderThread"
        { PolicyModel.default with cpus := some "0-1" }).cpus := by
  decide +kernel

end Threadctl.Core

import Threadctl.Core.PackageMatch

/-!
# What compilation keeps

Every input of `compile` is either reported or becomes one rule that the index lists
once.  `neverDropped_iff` says when no part of an accepted rule is lost on the way: a
scheduler name, a thread name or a pattern that does not convert is dropped without an
error.
-/

namespace Threadctl.Core

open Threadctl.Support.Indexing Threadctl.Support.Text

/-! ## The compile loop with its input positions -/

/-- The compile loop, every rule tagged with the position of its config. -/
def compileTraced (topo : CpuTopology) (configs : List RuleConfig) :
    List (CompiledRule × Nat) × List RuleError :=
  configs.zipIdx.foldl
    (fun (acc : List (CompiledRule × Nat) × List RuleError) rc =>
      match compileRule topo rc.1 with
      | .ok r => (acc.1 ++ [(r, rc.2)], acc.2)
      | .error reason => (acc.1, acc.2 ++ [⟨rc.2, reason⟩]))
    ([], [])

theorem compileTraced_concat (topo : CpuTopology) (configs : List RuleConfig) (rc : RuleConfig) :
    compileTraced topo (configs ++ [rc]) =
      match compileRule topo rc with
      | .ok r =>
          ((compileTraced topo configs).1 ++ [(r, configs.length)], (compileTraced topo configs).2)
      | .error reason =>
          ((compileTraced topo configs).1,
            (compileTraced topo configs).2 ++ [⟨configs.length, reason⟩]) := by
  simp [compileTraced, List.zipIdx_append]

theorem compileRules_concat (topo : CpuTopology) (configs : List RuleConfig) (rc : RuleConfig) :
    compileRules topo (configs ++ [rc]) =
      match compileRule topo rc with
      | .ok r => ((compileRules topo configs).1 ++ [r], (compileRules topo configs).2)
      | .error reason =>
          ((compileRules topo configs).1,
            (compileRules topo configs).2 ++ [⟨configs.length, reason⟩]) := by
  cases h : compileRule topo rc <;> simp [compileRules, List.zipIdx_append, h]

/-- Without the tags it is the compile loop. -/
theorem compileTraced_erase (topo : CpuTopology) (configs : List RuleConfig) :
    ((compileTraced topo configs).1.map Prod.fst, (compileTraced topo configs).2) =
      compileRules topo configs := by
  induction configs using List.reverseRecOn with
  | nil => rfl
  | append_singleton configs rc ih =>
      rw [compileTraced_concat, compileRules_concat, ← ih]
      cases compileRule topo rc with
      | ok r => simp
      | error reason => rfl

def compiles (topo : CpuTopology) (rc : RuleConfig) : Bool :=
  (compileRule topo rc).toOption.isSome

theorem origins_eq (topo : CpuTopology) (configs : List RuleConfig) :
    (compileTraced topo configs).1.map Prod.snd = indicesOf (compiles topo) configs ∧
      (compileTraced topo configs).2.map (·.index) = indicesOf (!compiles topo ·) configs := by
  induction configs using List.reverseRecOn with
  | nil => exact ⟨rfl, rfl⟩
  | append_singleton configs rc ih =>
      rw [compileTraced_concat, indicesOf_concat, indicesOf_concat, ← ih.1, ← ih.2]
      cases h : compileRule topo rc with
      | ok r => simp [compiles, h, Except.toOption]
      | error reason => simp [compiles, h, Except.toOption]

theorem mem_compileTraced {topo : CpuTopology} {configs : List RuleConfig} {r : CompiledRule}
    {i : Nat} (h : (r, i) ∈ (compileTraced topo configs).1) :
    ∃ rc, configs[i]? = some rc ∧ compileRule topo rc = .ok r := by
  induction configs using List.reverseRecOn with
  | nil => exact absurd h List.not_mem_nil
  | append_singleton configs rc ih =>
      have hold : (r, i) ∈ (compileTraced topo configs).1 →
          ∃ rc', (configs ++ [rc])[i]? = some rc' ∧ compileRule topo rc' = .ok r := by
        intro hmem
        obtain ⟨rc', hi, hok⟩ := ih hmem
        have hlt := (List.getElem?_eq_some_iff.mp hi).1
        exact ⟨rc', by rw [List.getElem?_append_left hlt, hi], hok⟩
      rw [compileTraced_concat] at h
      cases hrc : compileRule topo rc with
      | error reason =>
          rw [hrc] at h
          exact hold h
      | ok r' =>
          rw [hrc] at h
          rcases List.mem_append.mp h with hmem | hnew
          · exact hold hmem
          · rw [List.mem_singleton, Prod.mk.injEq] at hnew
            obtain ⟨rfl, rfl⟩ := hnew
            exact ⟨rc, by simp, hrc⟩

/-! ## The index -/

/-- Rule `j` is listed once in the whole index: under its exact package name, or in
the group of its pattern. -/
def ListedOnce (idx : RuleIndex) (pkg : String) (j : Nat) : Prop :=
  if containsWildcard pkg then
    (∃ w ∈ idx.wildcards, w.pattern = pkg ∧ j ∈ w.ruleIdxs) ∧
      (idx.wildcards.flatMap (·.ruleIdxs)).count j = 1 ∧
      ∀ q, j ∉ (idx.exact.lookup q).getD []
  else
    ((idx.exact.lookup pkg).getD []).count j = 1 ∧
      (∀ q, j ∈ (idx.exact.lookup q).getD [] → q = pkg) ∧
      ∀ w ∈ idx.wildcards, j ∉ w.ruleIdxs

theorem groupOf_ruleIdxs (rules : List CompiledRule) (pattern : String) :
    (groupOf rules pattern).ruleIdxs = indicesOf (fun r => decide (r.pkg = pattern)) rules := rfl

section Index

variable (rs : RuleSet) {r : CompiledRule} {j : Nat}

theorem mem_exact_iff (hj : rs.rules[j]? = some r) (q : String) :
    j ∈ (rs.exact.lookup q).getD [] ↔ r.pkg = q ∧ containsWildcard r.pkg = false := by
  rw [rs.indexed.exact_eq, mem_indicesOf_iff, hj]
  simp [isExactFor]

theorem mem_group_iff {w : WildcardRule} (hj : rs.rules[j]? = some r) (hw : w ∈ rs.wildcards) :
    j ∈ w.ruleIdxs ↔ r.pkg = w.pattern := by
  rw [(rs.ruleIdxs_of_mem hw).1, groupOf_ruleIdxs, mem_indicesOf_iff, hj]
  simp

theorem nodup_groups : (rs.wildcards.flatMap (·.ruleIdxs)).Nodup := by
  rw [List.nodup_flatMap]
  constructor
  · intro w hw
    rw [(rs.ruleIdxs_of_mem hw).1, groupOf_ruleIdxs]
    exact nodup_indicesOf _ _
  · rw [rs.indexed.wildcards_eq, List.pairwise_map]
    apply ((nodup_distinct _).filter _).imp
    intro p p' hne j hp hp'
    simp only [groupOf_ruleIdxs] at hp hp'
    obtain ⟨r, hr, hpkg⟩ := mem_indicesOf_iff.mp hp
    obtain ⟨r', hr', hpkg'⟩ := mem_indicesOf_iff.mp hp'
    rw [hr, Option.some.injEq] at hr'
    subst hr'
    exact hne ((of_decide_eq_true hpkg).symm.trans (of_decide_eq_true hpkg'))

/-- The index lists a rule once unless its pattern has no C string. -/
theorem listedOnce_iff (hj : rs.rules[j]? = some r) :
    ListedOnce rs.toRuleIndex r.pkg j ↔
      (containsWildcard r.pkg = true → (cstring r.pkg).isSome = true) := by
  have hmem : r ∈ rs.rules := List.mem_of_getElem? hj
  unfold ListedOnce
  cases hwild : containsWildcard r.pkg with
  | false =>
      have hin : j ∈ (rs.exact.lookup r.pkg).getD [] :=
        (mem_exact_iff rs hj r.pkg).mpr ⟨rfl, hwild⟩
      have hcount : ((rs.exact.lookup r.pkg).getD []).count j = 1 := by
        rw [rs.indexed.exact_eq] at hin ⊢
        exact count_indicesOf hin
      simp only [Bool.false_eq_true, if_false, false_imp_iff, iff_true]
      refine ⟨hcount, fun q hq => ((mem_exact_iff rs hj q).mp hq).1.symm, fun w hw hjw => ?_⟩
      have hpattern := (rs.ruleIdxs_of_mem hw).2
      rw [← (mem_group_iff rs hj hw).mp hjw, isPattern, hwild] at hpattern
      exact absurd hpattern (by simp)
  | true =>
      have hexact : ∀ q, j ∉ (rs.exact.lookup q).getD [] := by
        intro q hq
        exact absurd ((mem_exact_iff rs hj q).mp hq).2 (by simp [hwild])
      simp only [if_true, true_imp_iff]
      constructor
      · rintro ⟨⟨w, hw, hpattern, -⟩, -⟩
        have hgroup := (rs.ruleIdxs_of_mem hw).2
        rw [hpattern, isPattern, hwild, Bool.true_and] at hgroup
        exact hgroup
      · intro hnul
        have hw : groupOf rs.rules r.pkg ∈ rs.wildcards :=
          mem_wildcards_iff.mpr ⟨r, hmem, by simp [isPattern, hwild, hnul], rfl⟩
        have hjw := (mem_group_iff rs hj hw).mpr rfl
        refine ⟨⟨_, hw, rfl, hjw⟩, ?_, hexact⟩
        exact List.count_eq_one_of_mem (nodup_groups rs) (List.mem_flatMap.mpr ⟨_, hw, hjw⟩)

end Index

/-! ## Fields -/

/-- Every field a config sets has a value in the compiled rule. -/
structure CarriesFields (rc : RuleConfig) (r : CompiledRule) : Prop where
  cpus : ¬ rc.cpus.isEmpty → 0 < r.policy.cpus.count
  sched : rc.sched.isSome → r.policy.sched.isSome
  nice : r.policy.nice = rc.nice
  uclampMin : r.policy.uclampMin = rc.uclampMin
  uclampMax : r.policy.uclampMax = rc.uclampMax
  thread : ¬ rc.thread.isEmpty → r.threadPattern.isSome

/-- The scheduler name of a `sched` string: the text before the first colon. -/
def schedName (s : String) : String :=
  match splitOnce s ':' with
  | some (name, _) => name
  | none => s

/-- Every text of the config that compilation converts can be converted. -/
structure RuleConfig.Convertible (rc : RuleConfig) : Prop where
  sched : ∀ s, rc.sched = some s → (SchedPolicy.fromStr (schedName s)).isSome
  thread : (cstring rc.thread).isSome
  pattern : containsWildcard rc.pkg = true → (cstring rc.pkg).isSome

theorem policy_sched_isSome (topo : CpuTopology) {rc : RuleConfig} {s : String}
    (h : rc.sched = some s) :
    (rc.policy topo).sched.isSome = (SchedPolicy.fromStr (schedName s)).isSome := by
  have hpolicy : (rc.policy topo).sched = (schedSpecOf s).map (·.policy) := by
    unfold RuleConfig.policy RuleConfig.schedSpec
    rw [h, Option.bind_some]
    cases schedSpecOf s <;> rfl
  have hname : (schedSpecOf s).map (·.policy) = SchedPolicy.fromStr (schedName s) := by
    unfold schedSpecOf schedName
    cases splitOnce s ':' with
    | none => simp [Function.comp_def]
    | some parts => simp [Function.comp_def]
  rw [hpolicy, hname]

theorem carriesFields_iff {topo : CpuTopology} {rc : RuleConfig} {r : CompiledRule}
    (h : compileRule topo rc = .ok r) :
    CarriesFields rc r ↔
      (∀ s, rc.sched = some s → (SchedPolicy.fromStr (schedName s)).isSome) ∧
        (cstring rc.thread).isSome := by
  obtain ⟨haccepted, rfl⟩ := compileRule_eq_ok_iff.mp h
  constructor
  · intro hfields
    constructor
    · intro s hs
      rw [← policy_sched_isSome topo hs]
      exact hfields.sched (by rw [hs]; rfl)
    · by_cases hempty : rc.thread.isEmpty = true
      · rw [String.isEmpty_iff.mp hempty]
        rfl
      · exact hfields.thread hempty
  · rintro ⟨hsched, hthread⟩
    refine ⟨?_, ?_, rfl, rfl, rfl, fun _ => hthread⟩
    · intro hcpus
      apply Nat.pos_of_ne_zero
      intro hzero
      exact hcpus (haccepted.cpus_ok hzero)
    · intro hset
      obtain ⟨s, hs⟩ := Option.isSome_iff_exists.mp hset
      rw [policy_sched_isSome topo hs]
      exact hsched s hs

/-! ## Contract -/

section Contract

variable (topo : CpuTopology) (configs : List RuleConfig)

/-- Input `i` is reported once and gives no rule. -/
def Reported (i : Nat) : Prop :=
  ((compile configs topo).errors.map (·.index)).count i = 1 ∧
    i ∉ (compileTraced topo configs).1.map Prod.snd

/-- Input `i` is not reported and becomes one rule, listed once, with all its fields. -/
def Kept (i : Nat) (rc : RuleConfig) : Prop :=
  i ∉ (compile configs topo).errors.map (·.index) ∧
    ((compileTraced topo configs).1.map Prod.snd).count i = 1 ∧
    ∃ (j : Nat) (r : CompiledRule), (compileTraced topo configs).1[j]? = some (r, i) ∧
      (compile configs topo).rules.rules[j]? = some r ∧ r.pkg = rc.pkg ∧
      ListedOnce (compile configs topo).rules.toRuleIndex rc.pkg j ∧ CarriesFields rc r

/-- No input of `compile` disappears, and no field of an accepted one. -/
def NeverDropped : Prop :=
  ∀ i rc, configs[i]? = some rc → Reported topo configs i ∨ Kept topo configs i rc

variable {topo configs} {i : Nat} {rc : RuleConfig}

theorem errors_eq : (compile configs topo).errors.map (·.index) =
    indicesOf (!compiles topo ·) configs := by
  have herrors : (compile configs topo).errors = (compileTraced topo configs).2 :=
    congrArg Prod.snd (compileTraced_erase topo configs).symm
  rw [herrors, (origins_eq topo configs).2]

theorem getElem?_compile_rules {j : Nat} {r : CompiledRule}
    (h : (compileTraced topo configs).1[j]? = some (r, i)) :
    (compile configs topo).rules.rules[j]? = some r := by
  have hrules : (compile configs topo).rules.rules = (compileTraced topo configs).1.map Prod.fst :=
    congrArg Prod.fst (compileTraced_erase topo configs).symm
  rw [hrules, List.getElem?_map, h]
  rfl

theorem reported_of_error {reason : String} (hi : configs[i]? = some rc)
    (h : compileRule topo rc = .error reason) : Reported topo configs i := by
  have hno : compiles topo rc = false := by simp [compiles, h, Except.toOption]
  constructor
  · rw [errors_eq]
    exact count_indicesOf (mem_indicesOf_iff.mpr ⟨rc, hi, by simp [hno]⟩)
  · rw [(origins_eq topo configs).1, mem_indicesOf_iff]
    rintro ⟨rc', hi', hyes⟩
    rw [hi, Option.some.injEq] at hi'
    rw [← hi', hno] at hyes
    exact absurd hyes (by simp)

/-- An accepted input is never reported; it is kept exactly when it is convertible. -/
theorem kept_iff_of_ok {r : CompiledRule} (hi : configs[i]? = some rc)
    (h : compileRule topo rc = .ok r) :
    (Reported topo configs i ∨ Kept topo configs i rc) ↔ rc.Convertible := by
  have hyes : compiles topo rc = true := by simp [compiles, h, Except.toOption]
  have horigin : i ∈ (compileTraced topo configs).1.map Prod.snd := by
    rw [(origins_eq topo configs).1]
    exact mem_indicesOf_iff.mpr ⟨rc, hi, hyes⟩
  have hcount : ((compileTraced topo configs).1.map Prod.snd).count i = 1 := by
    rw [(origins_eq topo configs).1] at horigin ⊢
    exact count_indicesOf horigin
  have hquiet : i ∉ (compile configs topo).errors.map (·.index) := by
    rw [errors_eq, mem_indicesOf_iff]
    rintro ⟨rc', hi', hno⟩
    rw [hi, Option.some.injEq] at hi'
    rw [← hi', hyes] at hno
    exact absurd hno (by simp)
  -- the rule tagged with `i` is the compilation of `rc`
  have htagged : ∀ {r'}, (r', i) ∈ (compileTraced topo configs).1 → r' = r := by
    intro r' hr'
    obtain ⟨rc', hi', hok⟩ := mem_compileTraced hr'
    rw [hi, Option.some.injEq] at hi'
    rw [← hi', h] at hok
    exact (Except.ok.inj hok).symm
  have hpkg : r.pkg = rc.pkg := by rw [(compileRule_eq_ok_iff.mp h).2]
  constructor
  · rintro (⟨-, hno⟩ | ⟨-, -, j, r', hj, hrule, -, hlisted, hfields⟩)
    · exact absurd horigin hno
    · obtain rfl := htagged (List.mem_of_getElem? hj)
      obtain ⟨hsched, hthread⟩ := (carriesFields_iff h).mp hfields
      refine ⟨hsched, hthread, ?_⟩
      rw [← hpkg] at hlisted ⊢
      exact (listedOnce_iff _ hrule).mp hlisted
  · rintro ⟨hsched, hthread, hpattern⟩
    obtain ⟨⟨r', k⟩, hmem, rfl⟩ := List.mem_map.mp horigin
    obtain ⟨j, hj⟩ := List.getElem?_of_mem hmem
    obtain rfl := htagged hmem
    have hrule := getElem?_compile_rules hj
    refine Or.inr ⟨hquiet, hcount, j, r', hj, hrule, hpkg, ?_,
      (carriesFields_iff h).mpr ⟨hsched, hthread⟩⟩
    rw [← hpkg] at hpattern ⊢
    exact (listedOnce_iff _ hrule).mpr hpattern

/-- Nothing is silently dropped exactly when the texts of every accepted config can be
converted. -/
theorem neverDropped_iff (topo : CpuTopology) (configs : List RuleConfig) :
    NeverDropped topo configs ↔ ∀ rc ∈ configs, rc.Accepted topo → rc.Convertible := by
  constructor
  · intro h rc hrc haccepted
    obtain ⟨i, hi⟩ := List.getElem?_of_mem hrc
    exact (kept_iff_of_ok hi (compileRule_eq_ok_iff.mpr ⟨haccepted, rfl⟩)).mp (h i rc hi)
  · intro h i rc hi
    cases hrc : compileRule topo rc with
    | error reason => exact Or.inl (reported_of_error hi hrc)
    | ok r =>
        have haccepted := (compileRule_eq_ok_iff.mp hrc).1
        exact (kept_iff_of_ok hi hrc).mpr (h rc (List.mem_of_getElem? hi) haccepted)

end Contract

/-- A misspelt scheduler name is dropped from an accepted rule without an error. -/
theorem sched_dropped :
    ¬ NeverDropped (.flat 8)
      [{ RuleConfig.ofCpus "com.a" "" "0-3" with sched := some "fif0:60" }] := by
  intro h
  have haccepted : ({ RuleConfig.ofCpus "com.a" "" "0-3" with
      sched := some "fif0:60" } : RuleConfig).Accepted (.flat 8) := by
    constructor <;> decide +kernel
  have hconvertible :=
    (kept_iff_of_ok rfl (compileRule_eq_ok_iff.mpr ⟨haccepted, rfl⟩)).mp (h 0 _ rfl)
  exact absurd (hconvertible.sched "fif0:60" rfl) (by decide +kernel)

end Threadctl.Core

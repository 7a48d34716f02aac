import Threadctl.Core.IterationOrder

/-!
# Reloading an unchanged configuration

Restarting or reloading expands the same `ConfigModel` under another iteration
order.  `resolve_order_free_iff` says when that leaves a thread's policy alone.
-/

namespace Threadctl.Core

open Threadctl.Support.FirstHit

section OrderContract

variable (fnmatch : String → String → Bool) (pkg thread : String)

/-! ## What a choice of the wildcard group fixes -/

def countingCpus (choice : Option String) (rules : List CompiledRule) : CpuSet :=
  ruleCpus (decidingRules (rules.filter (isExactFor pkg)) (rules.filter (inGroup choice)) fnmatch
    thread Policy.setsCpus)

def constraintRules (choice : Option String) (rules : List CompiledRule)
    (sets : Policy → Bool) : List CompiledRule :=
  countingRules (rules.filter (isExactFor pkg)) (rules.filter (inGroup choice)) fnmatch thread sets
      (rules.filter (isExactFor pkg)) ++
    countingRules (rules.filter (isExactFor pkg)) (rules.filter (inGroup choice)) fnmatch thread
      sets (rules.filter (inGroup choice))

def countingUclamp (choice : Option String) (rules : List CompiledRule) :
    Option Nat × Option Nat :=
  (((constraintRules fnmatch pkg thread choice rules (·.uclampMin.isSome)).filterMap
      (·.policy.uclampMin)).max?,
    ((constraintRules fnmatch pkg thread choice rules (·.uclampMax.isSome)).filterMap
      (·.policy.uclampMax)).min?)

theorem overlay_fixed (choice : Option String) (rules : List CompiledRule) :
    (overlay fnmatch pkg thread choice rules).cpus =
        countingCpus fnmatch pkg thread choice rules ∧
      ((overlay fnmatch pkg thread choice rules).uclampMin,
        (overlay fnmatch pkg thread choice rules).uclampMax) =
          countingUclamp fnmatch pkg thread choice rules := by
  obtain ⟨hmin, hmax⟩ := fillMissing_uclamp (rules.filter (isExactFor pkg))
    (rules.filter (inGroup choice)) fnmatch thread
  exact ⟨(fillMissing_fields _ _ _ _).1, congrArg₂ Prod.mk hmin hmax⟩

theorem Policy.ext_settings {p q : Policy} (hcpus : p.cpus = q.cpus)
    (hdir : p.cpusetDir = q.cpusetDir) (hsched : p.schedSetting = q.schedSetting)
    (hp : p.sched = none → p.schedPrio = none) (hq : q.sched = none → q.schedPrio = none)
    (hnice : p.nice = q.nice) (huclamp : (p.uclampMin, p.uclampMax) = (q.uclampMin, q.uclampMax)) :
    p = q := by
  obtain ⟨pc, pd, ps, pp, pn, pl, pu⟩ := p
  obtain ⟨qc, qd, qs, qp, qn, ql, qu⟩ := q
  simp only [Policy.schedSetting, Prod.mk.injEq] at *
  cases ps <;> cases qs <;> simp_all

theorem fillMissing_schedPrio {p q : Policy} (hq : q.sched = none → q.schedPrio = none)
    (h : (fillMissing p q).sched = none) :
    (fillMissing p q).schedPrio = none := by
  cases hs : p.sched <;> simp_all [fillMissing]

theorem overlay_schedPrio (choice : Option String) (rules : List CompiledRule)
    (h : (overlay fnmatch pkg thread choice rules).sched = none) :
    (overlay fnmatch pkg thread choice rules).schedPrio = none :=
  fillMissing_schedPrio strategyTable_schedPrio h

theorem overlay_reordered (choice : Option String) {rules rules' : List CompiledRule}
    (h : rules.Perm rules') :
    (overlay fnmatch pkg thread choice rules').cpus =
        countingCpus fnmatch pkg thread choice rules ∧
      ((overlay fnmatch pkg thread choice rules').uclampMin,
        (overlay fnmatch pkg thread choice rules').uclampMax) =
          countingUclamp fnmatch pkg thread choice rules := by
  obtain ⟨hcpus, hmin, hmax⟩ := overlay_perm fnmatch pkg thread choice h
  obtain ⟨hfixed, hfixed'⟩ := overlay_fixed fnmatch pkg thread choice rules
  exact ⟨hcpus.symm.trans hfixed, (congrArg₂ Prod.mk hmin.symm hmax.symm).trans hfixed'⟩

variable (model : ConfigModel) (topo : CpuTopology)

/-- What an answer under an order is made of: the chosen group fixes CPUs and bounds,
the first-wins fields are searched in the rules as ordered. -/
structure AnswerOf (choice : Option String) (rules rules' : List CompiledRule) (p : Policy) :
    Prop where
  cpus_eq : p.cpus = countingCpus fnmatch pkg thread choice rules
  dir_eq : p.cpusetDir = p.cpus.toRangeString
  uclamp_eq : (p.uclampMin, p.uclampMax) = countingUclamp fnmatch pkg thread choice rules
  sched_eq : p.schedSetting =
    stagedSearch (stages fnmatch pkg thread choice Policy.schedSetting) rules'
  prio_none : p.sched = none → p.schedPrio = none
  nice_eq : p.nice = stagedSearch (stages fnmatch pkg thread choice (·.nice)) rules'

theorem answerOf_overlay {choice : Option String} {rules rules' : List CompiledRule}
    (h : rules.Perm rules') :
    AnswerOf fnmatch pkg thread choice rules rules'
      { overlay fnmatch pkg thread choice rules' with
        cpusetDir := (overlay fnmatch pkg thread choice rules').cpus.toRangeString } := by
  have hsched := overlay_schedSetting fnmatch pkg thread choice rules'
  have hnice := overlay_nice fnmatch pkg thread choice rules'
  have hprio := overlay_schedPrio fnmatch pkg thread choice rules'
  obtain ⟨hcpus, huclamp⟩ := overlay_reordered fnmatch pkg thread choice h
  generalize overlay fnmatch pkg thread choice rules' = p at *
  exact ⟨hcpus, rfl, huclamp, hsched, hprio, hnice⟩

theorem resolve_under_order (order : IterOrder) {choice : Option String}
    (hchoice : (model.ruleSet order topo).chosenPattern fnmatch pkg = choice) :
    (Silent fnmatch pkg thread choice (model.ruleSet .identity topo).rules ∧
        (model.ruleSet order topo).resolve fnmatch pkg thread = none) ∨
      (¬ Silent fnmatch pkg thread choice (model.ruleSet .identity topo).rules ∧
        ∃ p, (model.ruleSet order topo).resolve fnmatch pkg thread = some p ∧
          AnswerOf fnmatch pkg thread choice (model.ruleSet .identity topo).rules
            (model.ruleSet order topo).rules p) := by
  have hperm := ruleSet_rules_perm .identity order model topo
  have hsilent := silent_perm fnmatch pkg thread choice hperm
  have hcases := resolve_cases fnmatch pkg thread (model.ruleSet order topo)
  rw [hchoice, ← hsilent] at hcases
  rcases hcases with hnone | ⟨hloud, hsome⟩
  · exact Or.inl hnone
  · exact Or.inr ⟨hloud, _, hsome, answerOf_overlay fnmatch pkg thread hperm⟩

/-! ## Contract -/

/-- Whichever of the tied wildcard groups is taken, and whichever of the rules
competing for a first-wins field comes first, the rules say the same. -/
def OrderFree : Prop :=
  let rules := (model.ruleSet .identity topo).rules
  ∀ c₁ c₂, IsChoice fnmatch pkg rules c₁ → IsChoice fnmatch pkg rules c₂ →
    (Silent fnmatch pkg thread c₁ rules ↔ Silent fnmatch pkg thread c₂ rules) ∧
    (¬ Silent fnmatch pkg thread c₁ rules →
      countingCpus fnmatch pkg thread c₁ rules = countingCpus fnmatch pkg thread c₂ rules ∧
      countingUclamp fnmatch pkg thread c₁ rules = countingUclamp fnmatch pkg thread c₂ rules ∧
      (∀ v₁ ∈ candidates fnmatch model topo pkg thread Policy.schedSetting c₁,
        ∀ v₂ ∈ candidates fnmatch model topo pkg thread Policy.schedSetting c₂, v₁ = v₂) ∧
      ∀ v₁ ∈ candidates fnmatch model topo pkg thread (·.nice) c₁,
        ∀ v₂ ∈ candidates fnmatch model topo pkg thread (·.nice) c₂, v₁ = v₂)

theorem answers_agree {o₁ o₂ : IterOrder} {c₁ c₂ : Option String}
    (hsame : (model.ruleSet o₁ topo).resolve fnmatch pkg thread =
      (model.ruleSet o₂ topo).resolve fnmatch pkg thread)
    (ho₁ : (model.ruleSet o₁ topo).chosenPattern fnmatch pkg = c₁)
    (ho₂ : (model.ruleSet o₂ topo).chosenPattern fnmatch pkg = c₂) :
    (Silent fnmatch pkg thread c₁ (model.ruleSet .identity topo).rules ↔
      Silent fnmatch pkg thread c₂ (model.ruleSet .identity topo).rules) ∧
    (¬ Silent fnmatch pkg thread c₁ (model.ruleSet .identity topo).rules → ∃ p,
      AnswerOf fnmatch pkg thread c₁ (model.ruleSet .identity topo).rules
        (model.ruleSet o₁ topo).rules p ∧
      AnswerOf fnmatch pkg thread c₂ (model.ruleSet .identity topo).rules
        (model.ruleSet o₂ topo).rules p) := by
  rcases resolve_under_order fnmatch pkg thread model topo o₁ ho₁ with
    ⟨hs₁, hr₁⟩ | ⟨hs₁, p₁, hr₁, ha₁⟩ <;>
  rcases resolve_under_order fnmatch pkg thread model topo o₂ ho₂ with
    ⟨hs₂, hr₂⟩ | ⟨hs₂, p₂, hr₂, ha₂⟩ <;> rw [hr₁, hr₂] at hsame
  · exact ⟨⟨fun _ => hs₂, fun _ => hs₁⟩, fun h => absurd hs₁ h⟩
  · simp at hsame
  · simp at hsame
  · rw [← Option.some.inj hsame] at ha₂
    exact ⟨⟨fun h => absurd h hs₁, fun h => absurd h hs₂⟩, fun _ => ⟨p₁, ha₁, ha₂⟩⟩

/-- If all orders give one answer, so do the rules that compete for a first-wins field. -/
theorem candidates_agree {β : Type} {get : Policy → Option β}
    (hget : ∀ {c : Option String} {rules rules' : List CompiledRule} {p : Policy},
      AnswerOf fnmatch pkg thread c rules rules' p →
        get p = stagedSearch (stages fnmatch pkg thread c get) rules')
    (hsame : ∀ order order' : IterOrder, (model.ruleSet order topo).resolve fnmatch pkg thread =
      (model.ruleSet order' topo).resolve fnmatch pkg thread)
    {c₁ c₂ : Option String} (hc₁ : IsChoice fnmatch pkg (model.ruleSet .identity topo).rules c₁)
    (hc₂ : IsChoice fnmatch pkg (model.ruleSet .identity topo).rules c₂)
    (hloud : ¬ Silent fnmatch pkg thread c₁ (model.ruleSet .identity topo).rules) :
    ∀ v₁ ∈ candidates fnmatch model topo pkg thread get c₁,
      ∀ v₂ ∈ candidates fnmatch model topo pkg thread get c₂, v₁ = v₂ := by
  intro v₁ hv₁ v₂ hv₂
  obtain ⟨o₁, ho₁, hv₁⟩ := exists_order fnmatch model topo pkg thread get hc₁ hv₁
  obtain ⟨o₂, ho₂, hv₂⟩ := exists_order fnmatch model topo pkg thread get hc₂ hv₂
  obtain ⟨p, ha₁, ha₂⟩ :=
    (answers_agree fnmatch pkg thread model topo (hsame o₁ o₂) ho₁ ho₂).2 hloud
  rw [← hv₁, ← hv₂, ← hget ha₁, ← hget ha₂]

/-- `resolve` gives the same answer under all iteration orders exactly when the
competing rules agree. -/
theorem resolve_order_free_iff :
    (∀ order order' : IterOrder, (model.ruleSet order topo).resolve fnmatch pkg thread =
        (model.ruleSet order' topo).resolve fnmatch pkg thread) ↔
      OrderFree fnmatch pkg thread model topo := by
  constructor
  · intro hsame c₁ c₂ hc₁ hc₂
    obtain ⟨o₁, ho₁⟩ := exists_order_of_choice fnmatch model topo pkg hc₁
    obtain ⟨o₂, ho₂⟩ := exists_order_of_choice fnmatch model topo pkg hc₂
    obtain ⟨hsilent, hanswer⟩ :=
      answers_agree fnmatch pkg thread model topo (hsame o₁ o₂) ho₁ ho₂
    refine ⟨hsilent, fun hloud => ?_⟩
    obtain ⟨p, ha₁, ha₂⟩ := hanswer hloud
    refine ⟨ha₁.cpus_eq.symm.trans ha₂.cpus_eq, ha₁.uclamp_eq.symm.trans ha₂.uclamp_eq, ?_, ?_⟩
    · exact candidates_agree fnmatch pkg thread model topo (·.sched_eq) hsame hc₁ hc₂ hloud
    · exact candidates_agree fnmatch pkg thread model topo (·.nice_eq) hsame hc₁ hc₂ hloud
  · intro hfree order order'
    have hchoice : ∀ o : IterOrder, IsChoice fnmatch pkg (model.ruleSet .identity topo).rules
        ((model.ruleSet o topo).chosenPattern fnmatch pkg) :=
      fun o => (isChoice_ruleSet ..).mp (isChoice_chosenPattern ..)
    obtain ⟨hsilent, hagree⟩ := hfree _ _ (hchoice order) (hchoice order')
    rcases resolve_under_order fnmatch pkg thread model topo order rfl with
      ⟨hs, hr⟩ | ⟨hs, p, hr, ha⟩ <;>
    rcases resolve_under_order fnmatch pkg thread model topo order' rfl with
      ⟨hs', hr'⟩ | ⟨hs', p', hr', ha'⟩ <;> rw [hr, hr']
    · exact absurd (hsilent.mp hs) hs'
    · exact absurd (hsilent.mpr hs') hs
    · obtain ⟨hcpus, huclamp, hsched, hnice⟩ := hagree hs
      have hcpus' : p.cpus = p'.cpus := by rw [ha.cpus_eq, ha'.cpus_eq, hcpus]
      have hsearch := fun {β : Type} (get : Policy → Option β) (o : IterOrder) =>
        stagedSearch_mem_candidates fnmatch model topo pkg thread get
          ((model.ruleSet o topo).chosenPattern fnmatch pkg) o
      rw [Policy.ext_settings hcpus' (by rw [ha.dir_eq, ha'.dir_eq, hcpus']) ?_ ha.prio_none
        ha'.prio_none ?_ (by rw [ha.uclamp_eq, ha'.uclamp_eq, huclamp])]
      · rw [ha.sched_eq, ha'.sched_eq]
        exact hsched _ (hsearch _ _) _ (hsearch _ _)
      · rw [ha.nice_eq, ha'.nice_eq]
        exact hnice _ (hsearch _ _) _ (hsearch _ _)

/-- Two thread nodes of one app match the same thread with different schedulers: the
iteration order decides. -/
theorem resolve_depends_on_order :
    let sched (s : String) : PolicyModel := { PolicyModel.default with sched := some s }
    let app : AppModel := ⟨"com.game", none, .default,
      (single "Render*" (sched "fifo:10")).insert "*Thread" (sched "rr:5"), ∅⟩
    let model : ConfigModel := ⟨AList.singleton "com.game" app⟩
    ((model.ruleSet (.leading "" "" "*Thread") (.flat 8)).resolve glob "com.game"
        "RenderThread").map (·.sched) = some (some .rr) ∧
      ((model.ruleSet (.leading "" "" "Render*") (.flat 8)).resolve glob "com.game"
        "RenderThread").map (·.sched) = some (some .fifo) := by
  decide +kernel

end OrderContract

end Threadctl.Core

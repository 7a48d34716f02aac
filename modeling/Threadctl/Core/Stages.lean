import Threadctl.Core.ResolveSpec
import Threadctl.Support.FirstHit

/-!
# `resolve` as staged searches

Over one rule list and one choice of the wildcard group, the first-wins fields
are searches in four stages, and everything else ignores the order of the rules.
-/

namespace Threadctl.Core

open Threadctl.Support.FirstHit

def Policy.schedSetting (p : Policy) : Option (SchedPolicy × Option Int) :=
  p.sched.map fun s => (s, p.schedPrio)

/-- A rule of the wildcard group of pattern `group`, if one is chosen. -/
def inGroup (group : Option String) (r : CompiledRule) : Bool :=
  decide (group = some r.pkg)

section Stages

variable (fnmatch : String → String → Bool) (pkg thread : String) (group : Option String)

def selections : List (CompiledRule → Bool) :=
  [fun r => isExactFor pkg r && r.hitsThread fnmatch thread,
   fun r => inGroup group r && r.hitsThread fnmatch thread,
   fun r => isExactFor pkg r && r.isPkgLevel,
   fun r => inGroup group r && r.isPkgLevel]

def pick {β : Type} (get : Policy → Option β) (keep : CompiledRule → Bool)
    (r : CompiledRule) : Option β :=
  if keep r then get r.policy else none

def stages {β : Type} (get : Policy → Option β) : List (CompiledRule → Option β) :=
  (selections fnmatch pkg thread group).map (pick get)

/-- The package-level table under the thread table, over one rule list. -/
def overlay (rules : List CompiledRule) : Policy :=
  fillMissing
    (threadTable (rules.filter (isExactFor pkg)) (rules.filter (inGroup group)) fnmatch thread)
    (pkgTable (rules.filter (isExactFor pkg)) (rules.filter (inGroup group)))

theorem strategyTable_schedSetting (groups : List (List Policy)) :
    (strategyTable groups).schedSetting = groups.flatten.findSome? Policy.schedSetting := by
  unfold strategyTable
  generalize groups.flatten = l
  simp only [Policy.schedSetting]
  induction l with
  | nil => rfl
  | cons p l ih =>
      cases h : p.sched with
      | none => simpa [h, Policy.schedSetting, List.findSome?_cons] using ih
      | some s => simp [h, Policy.schedSetting]

theorem findSome?_filter {α β : Type} (keep : α → Bool) (f : α → Option β) (l : List α) :
    (l.filter keep).findSome? f = l.findSome? fun a => if keep a then f a else none := by
  induction l with
  | nil => rfl
  | cons a l ih => cases h : keep a <;> simp [h, ih, List.findSome?_cons]

theorem sourceTable_setting {β : Type} {get : Policy → Option β}
    (hget : ∀ groups, get (strategyTable groups) = groups.flatten.findSome? get)
    (rules : List CompiledRule) (inExact inWild keep : CompiledRule → Bool) :
    get (sourceTable ((rules.filter inExact).filter keep) ((rules.filter inWild).filter keep)) =
      (rules.findSome? (pick get fun r => inExact r && keep r)).or
        (rules.findSome? (pick get fun r => inWild r && keep r)) := by
  have hsource : ∀ inSource : CompiledRule → Bool,
      (((rules.filter inSource).filter keep).map (·.policy)).findSome? get =
        rules.findSome? (pick get fun r => inSource r && keep r) := by
    intro inSource
    rw [List.findSome?_map, List.filter_filter, findSome?_filter]
    congr 1
    funext r
    cases h : inSource r <;> cases h' : keep r <;> simp [pick, h, h']
  rw [sourceTable, hget]
  simp only [List.flatten_cons, List.flatten_nil, List.append_nil, List.findSome?_append, hsource]

/-- A first-wins field of the answer is found in stages. -/
theorem overlay_setting {β : Type} (get : Policy → Option β)
    (htable : ∀ groups, get (strategyTable groups) = groups.flatten.findSome? get)
    (hfill : ∀ p q, get (fillMissing p q) = (get p).or (get q)) (rules : List CompiledRule) :
    get (overlay fnmatch pkg thread group rules) =
      stagedSearch (stages fnmatch pkg thread group get) rules := by
  have hchain : ∀ a b c d : Option β,
      (a.or b).or (c.or d) = [a, b, c, d].findSome? id := by
    intro a b c d
    cases a <;> cases b <;> cases c <;> cases d <;> rfl
  rw [overlay, hfill, threadTable, pkgTable, sourceTable_setting htable,
    sourceTable_setting htable, hchain]
  simp only [stagedSearch, stages, selections, List.map_cons, List.map_nil,
    List.findSome?_cons, List.findSome?_nil, id]

theorem overlay_schedSetting (rules : List CompiledRule) :
    (overlay fnmatch pkg thread group rules).schedSetting =
      stagedSearch (stages fnmatch pkg thread group Policy.schedSetting) rules := by
  apply overlay_setting _ _ _ _ Policy.schedSetting strategyTable_schedSetting
  intro p q
  cases h : p.sched <;> simp [fillMissing, Policy.schedSetting, h]

theorem overlay_nice (rules : List CompiledRule) :
    (overlay fnmatch pkg thread group rules).nice =
      stagedSearch (stages fnmatch pkg thread group (·.nice)) rules := by
  apply overlay_setting _ _ _ _ (·.nice) (fun _ => rfl)
  intro p q
  cases h : p.nice <;> simp [fillMissing, h]

/-! ## When there is no answer -/

def applicable (rules : List CompiledRule) : List CompiledRule :=
  rules.filter fun r => (isExactFor pkg r || inGroup group r) && r.applies fnmatch thread

/-- The rules that apply leave no answer. -/
def Silent (rules : List CompiledRule) : Prop :=
  ((∃ r ∈ applicable fnmatch pkg thread group rules, r.hitsThread fnmatch thread = true) ∧
    ¬ ∃ r ∈ applicable fnmatch pkg thread group rules,
      r.hitsThread fnmatch thread = true ∧ r.policy.setsAny = true) ∨
  ¬ ∃ r ∈ applicable fnmatch pkg thread group rules, r.policy.setsPlacement = true

def RuleSet.chosenPattern (rs : RuleSet) : Option String :=
  (rs.chosenGroup fnmatch pkg).map (·.pattern)

theorem wildcardRules_eq (rs : RuleSet) :
    rs.wildcardRules fnmatch pkg = rs.rules.filter (inGroup (rs.chosenPattern fnmatch pkg)) := by
  unfold RuleSet.wildcardRules RuleSet.chosenPattern
  cases rs.chosenGroup fnmatch pkg with
  | none => simp [inGroup]
  | some w =>
      apply List.filter_congr
      intro r _
      simp [inGroup, eq_comm]

theorem mem_applicable_iff {rules : List CompiledRule} {r : CompiledRule} :
    r ∈ applicable fnmatch pkg thread group rules ↔
      r ∈ (rules.filter (isExactFor pkg) ++ rules.filter (inGroup group)).filter
        (·.applies fnmatch thread) := by
  unfold applicable
  simp only [List.mem_filter, List.mem_append, Bool.and_eq_true, Bool.or_eq_true, and_or_left,
    or_and_right, and_assoc]

theorem mem_applicable {rs : RuleSet} {r : CompiledRule} :
    r ∈ applicable fnmatch pkg thread (rs.chosenPattern fnmatch pkg) rs.rules ↔
      r ∈ rs.applicableRules fnmatch pkg thread := by
  rw [mem_applicable_iff, RuleSet.applicableRules, wildcardRules_eq, RuleSet.exactRules]

theorem resolve_cases (rs : RuleSet) :
    (Silent fnmatch pkg thread (rs.chosenPattern fnmatch pkg) rs.rules ∧
        rs.resolve fnmatch pkg thread = none) ∨
      (¬ Silent fnmatch pkg thread (rs.chosenPattern fnmatch pkg) rs.rules ∧
        rs.resolve fnmatch pkg thread =
          some { overlay fnmatch pkg thread (rs.chosenPattern fnmatch pkg) rs.rules with
            cpusetDir := (overlay fnmatch pkg thread (rs.chosenPattern fnmatch pkg)
              rs.rules).cpus.toRangeString }) := by
  have hsilent : rs.resolve fnmatch pkg thread = none ↔
      Silent fnmatch pkg thread (rs.chosenPattern fnmatch pkg) rs.rules := by
    simp only [resolve_eq_none_iff, Silent, mem_applicable]
  by_cases h : Silent fnmatch pkg thread (rs.chosenPattern fnmatch pkg) rs.rules
  · exact Or.inl ⟨h, hsilent.mpr h⟩
  · refine Or.inr ⟨h, ?_⟩
    have hsome := mt hsilent.mp h
    rw [resolve_eq, resolveRules_eq, wildcardRules_eq] at hsome ⊢
    split at hsome
    · exact absurd rfl hsome
    · rename_i hguard
      rw [if_neg hguard]
      unfold finish at hsome ⊢
      split at hsome
      · exact absurd rfl hsome
      · rename_i hplace
        rw [if_neg hplace]
        rfl

/-! ## Reordering the rules -/

theorem unionCpus_perm {ps ps' : List Policy} (h : ps.Perm ps') : unionCpus ps = unionCpus ps' := by
  apply CpuSet.ext_isSet
  intro i
  rw [Bool.eq_iff_iff, isSet_unionCpus, isSet_unionCpus]
  exact ⟨fun ⟨p, hp, hi⟩ => ⟨p, h.mem_iff.mp hp, hi⟩, fun ⟨p, hp, hi⟩ => ⟨p, h.mem_iff.mpr hp, hi⟩⟩

theorem max?_perm {l l' : List Nat} (h : l.Perm l') : l.max? = l'.max? := by
  apply Option.ext
  intro n
  simp only [List.max?_eq_some_iff, h.mem_iff]

theorem min?_perm {l l' : List Nat} (h : l.Perm l') : l.min? = l'.min? := by
  apply Option.ext
  intro n
  simp only [List.min?_eq_some_iff, h.mem_iff]

theorem sourceTable_perm {exact exact' wildcard wildcard' : List CompiledRule}
    (hexact : exact.Perm exact') (hwild : wildcard.Perm wildcard') :
    (sourceTable exact wildcard).cpus = (sourceTable exact' wildcard').cpus ∧
      (sourceTable exact wildcard).uclampMin = (sourceTable exact' wildcard').uclampMin ∧
      (sourceTable exact wildcard).uclampMax = (sourceTable exact' wildcard').uclampMax := by
  have hgroup : ∀ {ps ps' : List Policy}, ps.Perm ps' → groupCpusOf ps = groupCpusOf ps' := by
    intro ps ps' h
    rw [groupCpusOf, groupCpusOf, unionCpus_perm h]
  have hflat : [exact.map (·.policy), wildcard.map (·.policy)].flatten.Perm
      [exact'.map (·.policy), wildcard'.map (·.policy)].flatten := by
    simpa using (hexact.map (·.policy)).append (hwild.map (·.policy))
  refine ⟨?_, max?_perm (hflat.filterMap _), min?_perm (hflat.filterMap _)⟩
  unfold sourceTable strategyTable
  simp only [List.findSome?_cons, hgroup (hexact.map (·.policy)), hgroup (hwild.map (·.policy))]

theorem overlay_perm {rules rules' : List CompiledRule} (h : rules.Perm rules') :
    (overlay fnmatch pkg thread group rules).cpus =
        (overlay fnmatch pkg thread group rules').cpus ∧
      (overlay fnmatch pkg thread group rules).uclampMin =
        (overlay fnmatch pkg thread group rules').uclampMin ∧
      (overlay fnmatch pkg thread group rules).uclampMax =
        (overlay fnmatch pkg thread group rules').uclampMax := by
  have hkeep : ∀ keep keep' : CompiledRule → Bool,
      ((rules.filter keep).filter keep').Perm ((rules'.filter keep).filter keep') :=
    fun keep keep' => (h.filter keep).filter keep'
  obtain ⟨hcpus, hmin, hmax⟩ := sourceTable_perm (hkeep (isExactFor pkg)
    (·.hitsThread fnmatch thread)) (hkeep (inGroup group) (·.hitsThread fnmatch thread))
  obtain ⟨hcpus', hmin', hmax'⟩ := sourceTable_perm (hkeep (isExactFor pkg) (·.isPkgLevel))
    (hkeep (inGroup group) (·.isPkgLevel))
  unfold overlay fillMissing threadTable pkgTable
  simp only [hcpus, hmin, hmax, hcpus', hmin', hmax', and_self]

theorem silent_perm {rules rules' : List CompiledRule} (h : rules.Perm rules') :
    Silent fnmatch pkg thread group rules ↔ Silent fnmatch pkg thread group rules' := by
  have hmem : ∀ r, r ∈ applicable fnmatch pkg thread group rules ↔
      r ∈ applicable fnmatch pkg thread group rules' :=
    fun r => (h.filter _).mem_iff
  simp only [Silent, hmem]

end Stages

end Threadctl.Core

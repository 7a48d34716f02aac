import Mathlib.Data.List.AList
import Threadctl.Core.Policy
import Threadctl.Support.Indexing

/-!
# The compiled rule set

`compile` turns rule configs into compiled rules and the index over them: exact
package names, wildcard groups, package list.  A `RuleSet` carries the equations
that tie its index to its rules, so every query can be read off the rule list.

libc `fnmatch` stays a parameter, `fnmatch pattern string`.
-/

namespace Threadctl.Core

open Threadctl.Support.Text Threadctl.Support.Indexing

/-- A hash map; nothing may depend on the order of its entries. -/
abbrev HashMap (κ ν : Type) := AList (fun _ : κ => ν)

/-! ## Rule configs -/

structure SchedSpec where
  policy : SchedPolicy
  prio : Option Int
  deriving DecidableEq

structure RuleConfig where
  pkg : String
  thread : String
  cpus : String
  sched : Option String
  nice : Option Int
  uclampMin : Option Nat
  uclampMax : Option Nat
  deriving DecidableEq

/-- A rule that sets nothing but `cpus`. -/
def RuleConfig.ofCpus (pkg thread cpus : String) : RuleConfig :=
  ⟨pkg, thread, cpus, none, none, none, none⟩

/-- `"fifo:60"` or `"batch"`; an unreadable priority is no priority. -/
def schedSpecOf (s : String) : Option SchedSpec :=
  let (name, prio) := match splitOnce s ':' with
    | some (n, p) => (n, parseI32 p)
    | none => (s, none)
  (SchedPolicy.fromStr name).map fun policy => ⟨policy, prio⟩

def RuleConfig.schedSpec (rc : RuleConfig) : Option SchedSpec :=
  rc.sched.bind schedSpecOf

/-! ## Matching vocabulary -/

inductive RuleSource where
  | global
  | profile
  | group
  | packageWildcard
  | packageExact
  | threadType
  | threadExact
  deriving DecidableEq, Inhabited

def RuleSource.priority : RuleSource → Nat
  | .global => 10
  | .profile => 20
  | .group => 30
  | .packageWildcard => 40
  | .packageExact => 50
  | .threadType => 60
  | .threadExact => 70

structure RuleMatch where
  index : Nat
  source : RuleSource
  deriving DecidableEq

/-- `threadPattern` is absent when the thread name holds a NUL byte. -/
structure CompiledRule where
  pkg : String
  thread : String
  threadPattern : Option String
  policy : Policy
  deriving DecidableEq, Inhabited

structure WildcardRule where
  pattern : String
  patternCstr : String
  specificity : Nat
  ruleIdxs : List Nat
  deriving DecidableEq

/-- `CString::new`: a string with a NUL character has no C string. -/
def cstring (s : String) : Option String :=
  if containsChar s (Char.ofNat 0) then none else some s

/-- What a C function reads of a NUL-terminated copy of `s`. -/
def untilNul (s : String) : String :=
  String.ofList (s.toList.takeWhile (· != Char.ofNat 0))

def containsWildcard (s : String) : Bool :=
  containsChar s '*' || containsChar s '?' || containsChar s '['

/-- Running state of the specificity scan: byte position, prefix length,
literal and wildcard counts. -/
structure SpecificityScan where
  pos : Nat
  prefixLen : Nat
  literals : Nat
  wildcards : Nat

def specificityStep (len : Nat) (st : SpecificityScan) (c : Char) : SpecificityScan :=
  if c = '*' ∨ c = '?' ∨ c = '[' ∨ c = ']' then
    { st with
      pos := st.pos + c.utf8Size
      prefixLen := if st.prefixLen = len then st.pos else st.prefixLen
      wildcards := st.wildcards + 1 }
  else
    { st with pos := st.pos + c.utf8Size, literals := st.literals + 1 }

/-- Fixed prefix × 100 + literals − wildcards × 10, in wrapping `usize`
arithmetic (the release build has no overflow checks). -/
def patternSpecificity (s : String) : Nat :=
  let len := s.utf8ByteSize
  let st := s.toList.foldl (specificityStep len) ⟨0, len, 0, 0⟩
  (st.prefixLen * 100 + st.literals + (2 ^ 64 - st.wildcards * 10 % 2 ^ 64)) % 2 ^ 64

/-! ## Compilation -/

structure RuleError where
  index : Nat
  reason : String
  deriving DecidableEq

def RuleConfig.policy (topo : CpuTopology) (rc : RuleConfig) : Policy :=
  let cpus := parseCpuRanges rc.cpus (some topo.presentCpus)
  let (sched, schedPrio) := match rc.schedSpec with
    | some spec => (some spec.policy, spec.prio)
    | none => (none, none)
  { cpus := cpus
    cpusetDir := cpus.toRangeString
    sched := sched
    schedPrio := schedPrio
    nice := rc.nice
    uclampMin := rc.uclampMin
    uclampMax := rc.uclampMax }

/-- The body of the compile loop: a rule, or the reason it is rejected. -/
def compileRule (topo : CpuTopology) (rc : RuleConfig) : Except String CompiledRule :=
  if rc.pkg.isEmpty ∨ maxPkgLen ≤ rc.pkg.utf8ByteSize then
    .error "pkg 为空或超过长度限制"
  else if maxThreadLen ≤ rc.thread.utf8ByteSize then
    .error "thread 超过长度限制"
  else if (parseCpuRanges rc.cpus (some topo.presentCpus)).count = 0 ∧ ¬ rc.cpus.isEmpty then
    .error ("cpus \"" ++ rc.cpus ++ "\" parses empty or invalid")
  else
    .ok {
      pkg := rc.pkg
      thread := rc.thread
      threadPattern := cstring rc.thread
      policy := rc.policy topo }

/-- The rules that `compile` accepts. -/
structure RuleConfig.Accepted (topo : CpuTopology) (rc : RuleConfig) : Prop where
  pkg_ne : ¬ rc.pkg.isEmpty
  pkg_lt : rc.pkg.utf8ByteSize < maxPkgLen
  thread_lt : rc.thread.utf8ByteSize < maxThreadLen
  cpus_ok : (parseCpuRanges rc.cpus (some topo.presentCpus)).count = 0 → rc.cpus.isEmpty

theorem compileRule_eq_ok_iff {topo : CpuTopology} {rc : RuleConfig} {r : CompiledRule} :
    compileRule topo rc = .ok r ↔
      rc.Accepted topo ∧ r = ⟨rc.pkg, rc.thread, cstring rc.thread, rc.policy topo⟩ := by
  unfold compileRule
  constructor
  · intro h
    split at h
    · simp at h
    · split at h
      · simp at h
      · split at h
        · simp at h
        · rename_i hpkg hthread hcpus
          rw [not_or, Nat.not_le] at hpkg
          have haccept : rc.Accepted topo :=
            ⟨hpkg.1, hpkg.2, by omega, fun h0 => by simpa [h0] using hcpus⟩
          exact ⟨haccept, (Except.ok.inj h).symm⟩
  · rintro ⟨⟨hpkg, hlen, hthread, hcpus⟩, rfl⟩
    rw [if_neg (by rintro (h | h); exacts [hpkg h, by omega]), if_neg (by omega), if_neg]
    rintro ⟨h0, hne⟩
    exact hne (hcpus h0)

def compileRules (topo : CpuTopology) (configs : List RuleConfig) :
    List CompiledRule × List RuleError :=
  configs.zipIdx.foldl
    (fun (acc : List CompiledRule × List RuleError) rc =>
      match compileRule topo rc.1 with
      | .ok r => (acc.1 ++ [r], acc.2)
      | .error reason => (acc.1, acc.2 ++ [⟨rc.2, reason⟩]))
    ([], [])

theorem compileRules_fst (topo : CpuTopology) (configs : List RuleConfig) :
    (compileRules topo configs).1 = configs.filterMap fun rc => (compileRule topo rc).toOption := by
  induction configs using List.reverseRecOn with
  | nil => rfl
  | append_singleton configs rc ih =>
      unfold compileRules at ih ⊢
      rw [List.zipIdx_append, List.foldl_append, List.filterMap_append, ← ih]
      cases h : compileRule topo rc <;> simp [h, Except.toOption]

/-- The index built over the compiled rules. -/
structure RuleIndex where
  exact : HashMap String (List Nat)
  wildcards : List WildcardRule
  pkgs : List String

/-- Push a rule onto the group of its pattern, or open a new group at the end. -/
def pushWildcard (pkg : String) (i : Nat) : List WildcardRule → List WildcardRule
  | [] =>
      match cstring pkg with
      | some c => [⟨pkg, c, patternSpecificity pkg, [i]⟩]
      | none => []
  | w :: ws =>
      if w.pattern = pkg then { w with ruleIdxs := w.ruleIdxs ++ [i] } :: ws
      else w :: pushWildcard pkg i ws

def indexStep (idx : RuleIndex) (r : CompiledRule × Nat) : RuleIndex :=
  let idx :=
    if containsWildcard r.1.pkg then
      { idx with wildcards := pushWildcard r.1.pkg r.2 idx.wildcards }
    else
      { idx with
        exact := idx.exact.insert r.1.pkg ((idx.exact.lookup r.1.pkg).getD [] ++ [r.2]) }
  { idx with pkgs := pushNew idx.pkgs r.1.pkg }

def buildIndex (rules : List CompiledRule) : RuleIndex :=
  rules.zipIdx.foldl indexStep ⟨∅, [], []⟩

/-! ## The index in closed form -/

/-- A rule that `exact` lists: its package name has no wildcard character. -/
def isExactFor (q : String) (r : CompiledRule) : Bool :=
  decide (r.pkg = q) && !containsWildcard r.pkg

def isPattern (pkg : String) : Bool :=
  containsWildcard pkg && (cstring pkg).isSome

def groupOf (rules : List CompiledRule) (pattern : String) : WildcardRule where
  pattern := pattern
  patternCstr := pattern
  specificity := patternSpecificity pattern
  ruleIdxs := indicesOf (fun r => decide (r.pkg = pattern)) rules

/-- The index a rule list determines. -/
structure Indexed (rules : List CompiledRule) (idx : RuleIndex) : Prop where
  exact_eq : ∀ q, (idx.exact.lookup q).getD [] = indicesOf (isExactFor q) rules
  wildcards_eq : idx.wildcards =
    ((distinct (rules.map (·.pkg))).filter isPattern).map (groupOf rules)
  pkgs_eq : idx.pkgs = distinct (rules.map (·.pkg))

theorem cstring_eq_some {s c : String} (h : cstring s = some c) : c = s := by
  unfold cstring at h
  split at h
  · exact absurd h (by simp)
  · exact (Option.some.inj h).symm

@[simp] theorem groupOf_pattern (rules : List CompiledRule) (pattern : String) :
    (groupOf rules pattern).pattern = pattern := rfl

theorem groupOf_concat_of_ne {rules : List CompiledRule} {r : CompiledRule} {pattern : String}
    (h : r.pkg ≠ pattern) : groupOf (rules ++ [r]) pattern = groupOf rules pattern := by
  simp [groupOf, indicesOf_concat, h]

theorem map_groupOf_concat {rules : List CompiledRule} {r : CompiledRule} {patterns : List String}
    (h : r.pkg ∉ patterns) :
    patterns.map (groupOf (rules ++ [r])) = patterns.map (groupOf rules) := by
  apply List.map_congr_left
  intro q hq
  apply groupOf_concat_of_ne
  rintro rfl
  exact h hq

theorem groupOf_concat_self (rules : List CompiledRule) (r : CompiledRule) :
    groupOf (rules ++ [r]) r.pkg =
      { groupOf rules r.pkg with
        ruleIdxs := (groupOf rules r.pkg).ruleIdxs ++ [rules.length] } := by
  simp [groupOf, indicesOf_concat]

theorem pushWildcard_of_mem {rules : List CompiledRule} {r : CompiledRule}
    {patterns : List String} (hmem : r.pkg ∈ patterns) (hnodup : patterns.Nodup) :
    pushWildcard r.pkg rules.length (patterns.map (groupOf rules)) =
      patterns.map (groupOf (rules ++ [r])) := by
  induction patterns with
  | nil => simp at hmem
  | cons p patterns ih =>
      rw [List.nodup_cons] at hnodup
      rw [List.map_cons, List.map_cons, pushWildcard, groupOf_pattern]
      by_cases hp : p = r.pkg
      · subst hp
        rw [if_pos rfl, groupOf_concat_self, map_groupOf_concat hnodup.1]
        rfl
      · have hmem' : r.pkg ∈ patterns := by
          rcases List.mem_cons.mp hmem with h | h
          · exact absurd h.symm hp
          · exact h
        rw [if_neg hp, ih hmem' hnodup.2, groupOf_concat_of_ne (Ne.symm hp)]

theorem pushWildcard_of_not_mem {rules : List CompiledRule} {r : CompiledRule}
    {patterns : List String} (hmem : r.pkg ∉ patterns)
    (hnew : (cstring r.pkg).isSome → r.pkg ∉ rules.map (·.pkg)) :
    pushWildcard r.pkg rules.length (patterns.map (groupOf rules)) =
      patterns.map (groupOf (rules ++ [r])) ++
        if (cstring r.pkg).isSome then [groupOf (rules ++ [r]) r.pkg] else [] := by
  induction patterns with
  | nil =>
      simp only [List.map_nil, pushWildcard, List.nil_append]
      cases hc : cstring r.pkg with
      | none => simp
      | some c =>
          have hempty : indicesOf (fun s => decide (s.pkg = r.pkg)) rules = [] := by
            rw [List.eq_nil_iff_forall_not_mem]
            intro i hi
            simp only [indicesOf, List.mem_map, List.mem_filter, decide_eq_true_eq] at hi
            obtain ⟨x, ⟨hx, hpkg⟩, -⟩ := hi
            have hx1 : x.1 ∈ rules := List.fst_mem_of_mem_zipIdx hx
            exact hnew (by simp [hc]) (hpkg ▸ List.mem_map_of_mem hx1)
          simp [groupOf, indicesOf_concat, hempty, cstring_eq_some hc]
  | cons p patterns ih =>
      have hp : p ≠ r.pkg := by
        rintro rfl
        exact hmem (by simp)
      rw [List.map_cons, List.map_cons, pushWildcard, groupOf_pattern, if_neg hp,
        ih fun h => hmem (by simp [h]), groupOf_concat_of_ne (Ne.symm hp), List.cons_append]

theorem wildcards_step {rules : List CompiledRule} {idx : RuleIndex} (h : Indexed rules idx)
    (r : CompiledRule) :
    (indexStep idx (r, rules.length)).wildcards =
      ((distinct ((rules ++ [r]).map (·.pkg))).filter isPattern).map (groupOf (rules ++ [r])) := by
  have hseen : ∀ {p}, p ∈ (distinct (rules.map (·.pkg))).filter isPattern →
      p ∈ rules.map (·.pkg) ∧ isPattern p = true :=
    fun hp => ⟨mem_distinct.mp (List.mem_filter.mp hp).1, (List.mem_filter.mp hp).2⟩
  rw [List.map_append, List.map_singleton, distinct_concat, pushNew]
  by_cases hw : containsWildcard r.pkg = true
  · have hpush : (indexStep idx (r, rules.length)).wildcards =
        pushWildcard r.pkg rules.length idx.wildcards := by
      simp [indexStep, hw]
    rw [hpush, h.wildcards_eq]
    by_cases hmem : r.pkg ∈ rules.map (·.pkg)
    · rw [if_pos (mem_distinct.mpr hmem)]
      by_cases hc : (cstring r.pkg).isSome = true
      · apply pushWildcard_of_mem
        · exact List.mem_filter.mpr ⟨mem_distinct.mpr hmem, by simp [isPattern, hw, hc]⟩
        · exact (nodup_distinct _).filter _
      · rw [pushWildcard_of_not_mem (fun hin => hc (by simpa [isPattern, hw] using (hseen hin).2))
          (fun hc' => absurd hc' hc), if_neg hc, List.append_nil]
    · rw [if_neg (fun hd => hmem (mem_distinct.mp hd)),
        pushWildcard_of_not_mem (fun hin => hmem (hseen hin).1) (fun _ => hmem),
        List.filter_append, List.map_append]
      by_cases hc : (cstring r.pkg).isSome = true <;> simp [isPattern, hw, hc]
  · have hkeep : (indexStep idx (r, rules.length)).wildcards = idx.wildcards := by
      simp [indexStep, hw]
    have hnot : r.pkg ∉ (distinct (rules.map (·.pkg))).filter isPattern :=
      fun hin => hw (by simpa [isPattern] using (Bool.and_eq_true_iff.mp (hseen hin).2).1)
    have hfilter : (if r.pkg ∈ distinct (rules.map (·.pkg)) then distinct (rules.map (·.pkg))
          else distinct (rules.map (·.pkg)) ++ [r.pkg]).filter isPattern =
        (distinct (rules.map (·.pkg))).filter isPattern := by
      split
      · rfl
      · simp [List.filter_append, isPattern, hw]
    rw [hkeep, h.wildcards_eq, hfilter, map_groupOf_concat hnot]

theorem exact_step {rules : List CompiledRule} {idx : RuleIndex} (h : Indexed rules idx)
    (r : CompiledRule) (q : String) :
    ((indexStep idx (r, rules.length)).exact.lookup q).getD [] =
      indicesOf (isExactFor q) (rules ++ [r]) := by
  rw [indicesOf_concat]
  by_cases hw : containsWildcard r.pkg = true
  · simp [indexStep, hw, h.exact_eq q, isExactFor]
  · by_cases hq : r.pkg = q
    · subst hq
      simp [indexStep, hw, h.exact_eq, isExactFor]
    · simp [indexStep, hw, AList.lookup_insert_ne (Ne.symm hq), h.exact_eq q, isExactFor, hq]

theorem indexed_step {rules : List CompiledRule} {idx : RuleIndex} (h : Indexed rules idx)
    (r : CompiledRule) : Indexed (rules ++ [r]) (indexStep idx (r, rules.length)) where
  exact_eq := exact_step h r
  wildcards_eq := wildcards_step h r
  pkgs_eq := by
    rw [List.map_append, List.map_singleton, distinct_concat, ← h.pkgs_eq, indexStep]
    split <;> rfl

/-- The one-pass index is the closed form. -/
theorem indexed_buildIndex (rules : List CompiledRule) : Indexed rules (buildIndex rules) := by
  induction rules using List.reverseRecOn with
  | nil => exact ⟨fun q => by simp [buildIndex], rfl, rfl⟩
  | append_singleton rules r ih =>
      have hstep : buildIndex (rules ++ [r]) = indexStep (buildIndex rules) (r, rules.length) := by
        simp [buildIndex, List.zipIdx_append]
      rw [hstep]
      exact indexed_step ih r

/-- Compiled rules with their index. -/
structure RuleSet extends RuleIndex where
  rules : List CompiledRule
  indexed : Indexed rules toRuleIndex

def RuleSet.ofRules (rules : List CompiledRule) : RuleSet where
  toRuleIndex := buildIndex rules
  rules := rules
  indexed := indexed_buildIndex rules

structure CompileResult where
  rules : RuleSet
  errors : List RuleError

def compile (configs : List RuleConfig) (topo : CpuTopology) : CompileResult :=
  let (rules, errors) := compileRules topo configs
  ⟨RuleSet.ofRules rules, errors⟩

/-! ## Queries -/

/-- Globs of literals, `*` and `?`: what libc `fnmatch` answers for a pattern
without brackets. -/
def globChars : List Char → List Char → Bool
  | [], s => s.isEmpty
  | '*' :: p, s => s.tails.any (globChars p)
  | '?' :: p, s =>
      match s with
      | [] => false
      | _ :: s => globChars p s
  | c :: p, s =>
      match s with
      | [] => false
      | d :: s => decide (c = d) && globChars p s

def glob (pattern string : String) : Bool :=
  globChars pattern.toList string.toList

section Queries

variable (fnmatch : String → String → Bool)

/-- `fnmatch_c`: thread names of 32 bytes and more never match. -/
def fnmatchC (pattern string : String) : Bool :=
  if maxThreadLen ≤ string.utf8ByteSize then false else fnmatch pattern (untilNul string)

/-- `fnmatch_pkg`, with the package-name limit. -/
def fnmatchPkg (pattern string : String) : Bool :=
  if maxPkgLen ≤ string.utf8ByteSize then false else fnmatch pattern (untilNul string)

/-- One step of the running maximum over the wildcard groups. -/
def bestStep (pkg : String) (best : Nat × Option (List Nat)) (w : WildcardRule) :
    Nat × Option (List Nat) :=
  if best.1 < w.specificity ∧ fnmatchPkg fnmatch w.patternCstr pkg then
    (w.specificity, some w.ruleIdxs)
  else best

/-- The source collection on a cache miss: exact rules first, then the best
wildcard group. -/
def RuleSet.collectPkgMatches (rs : RuleSet) (pkg : String) : List RuleMatch :=
  let exact := match rs.exact.lookup pkg with
    | some idxs => idxs.map fun i => ⟨i, .packageExact⟩
    | none => []
  let wildcard := match (rs.wildcards.foldl (bestStep fnmatch pkg) (0, none)).2 with
    | some idxs => idxs.map fun i => ⟨i, .packageWildcard⟩
    | none => []
  exact ++ wildcard

def RuleSet.isInterested (rs : RuleSet) (pkg : String) : Bool :=
  !(rs.collectPkgMatches fnmatch pkg).isEmpty

def RuleSet.hasThreadRules (rs : RuleSet) (pkg : String) : Bool :=
  (rs.collectPkgMatches fnmatch pkg).any fun m => !rs.rules[m.index]!.thread.isEmpty

end Queries

end Threadctl.Core

import Mathlib.Data.List.TakeWhile
import Mathlib.Data.String.Basic
import Threadctl.Core.Resolve

/-!
# Which rules a package reaches

The score of a pattern in closed form, the wildcard group a package uses, and the
packages the rules are interested in.
-/

namespace Threadctl.Core

open Threadctl.Support Threadctl.Support.Indexing Threadctl.Support.Ranked

/-! ## The score of a pattern -/

/-- The characters the score counts as wildcards. -/
def isSpecial (c : Char) : Bool :=
  decide (c = '*' ∨ c = '?' ∨ c = '[' ∨ c = ']')

/-- Bytes before the first counted wildcard. -/
def plainPrefixLen (s : String) : Nat :=
  String.utf8Len (s.toList.takeWhile (!isSpecial ·))

def literalCount (s : String) : Nat :=
  s.toList.countP (!isSpecial ·)

def specialCount (s : String) : Nat :=
  s.toList.countP isSpecial

theorem utf8Len_takeWhile_lt {l : List Char} (h : l.any isSpecial = true) :
    String.utf8Len (l.takeWhile (!isSpecial ·)) < String.utf8Len l := by
  induction l with
  | nil => simp at h
  | cons c l ih =>
      cases hc : isSpecial c with
      | true =>
          have hpos := c.utf8Size_pos
          simp only [List.takeWhile_cons, hc, Bool.not_true, Bool.false_eq_true, if_false,
            String.utf8Len]
          omega
      | false =>
          have hrest : l.any isSpecial = true := by simpa [hc] using h
          have := ih hrest
          simp only [List.takeWhile_cons, hc, Bool.not_false, if_true, String.utf8Len]
          omega

theorem takeWhile_append_of_any {l : List Char} (h : l.any isSpecial = true) (r : List Char) :
    (l ++ r).takeWhile (!isSpecial ·) = l.takeWhile (!isSpecial ·) := by
  induction l with
  | nil => simp at h
  | cons c l ih =>
      cases hc : isSpecial c with
      | true => simp [hc]
      | false =>
          have hrest : l.any isSpecial = true := by simpa [hc] using h
          simp [hc, ih hrest]

theorem takeWhile_append_of_not_any {l : List Char} (h : l.any isSpecial = false)
    (r : List Char) :
    (l ++ r).takeWhile (!isSpecial ·) = l ++ r.takeWhile (!isSpecial ·) := by
  apply List.takeWhile_append_of_pos
  intro c hc
  simpa using List.any_eq_false.mp h c hc

/-- The scan after the characters `l`; `len` is the length of the whole pattern. -/
theorem foldl_specificityStep {len : Nat} {l : List Char} (hlen : String.utf8Len l ≤ len) :
    l.foldl (specificityStep len) ⟨0, len, 0, 0⟩ =
      ⟨String.utf8Len l,
        if l.any isSpecial then String.utf8Len (l.takeWhile (!isSpecial ·)) else len,
        l.countP (!isSpecial ·), l.countP isSpecial⟩ := by
  induction l using List.reverseRecOn with
  | nil => rfl
  | append_singleton l c ih =>
      rw [String.utf8Len_append] at hlen
      rw [List.foldl_append, ih (by omega), List.foldl_cons, List.foldl_nil, specificityStep,
        List.countP_append, List.countP_append, List.any_append, String.utf8Len_append]
      by_cases hc : isSpecial c = true
      · have hspecial : c = '*' ∨ c = '?' ∨ c = '[' ∨ c = ']' := of_decide_eq_true hc
        rw [if_pos hspecial]
        cases hany : l.any isSpecial with
        | true =>
            -- the prefix is settled: it is shorter than what was read
            have hlt := utf8Len_takeWhile_lt hany
            have hne : ¬ String.utf8Len (l.takeWhile (!isSpecial ·)) = len := by omega
            simp [hc, hne, takeWhile_append_of_any hany, String.utf8Len]
        | false => simp [hc, takeWhile_append_of_not_any hany, String.utf8Len]
      · have hplain : ¬ (c = '*' ∨ c = '?' ∨ c = '[' ∨ c = ']') := fun h =>
          hc (decide_eq_true h)
        rw [if_neg hplain]
        cases hany : l.any isSpecial with
        | true => simp [hc, takeWhile_append_of_any hany, String.utf8Len]
        | false => simp [hc, String.utf8Len]

theorem specificityScan_eq (s : String) :
    s.toList.foldl (specificityStep s.utf8ByteSize) ⟨0, s.utf8ByteSize, 0, 0⟩ =
      ⟨s.utf8ByteSize, plainPrefixLen s, literalCount s, specialCount s⟩ := by
  have hscan := foldl_specificityStep (le_of_eq (String.utf8Len_toList s))
  have hlead : (if s.toList.any isSpecial then
      String.utf8Len (s.toList.takeWhile (!isSpecial ·)) else s.utf8ByteSize) =
        plainPrefixLen s := by
    cases hany : s.toList.any isSpecial with
    | true => rfl
    | false =>
        have hall := takeWhile_append_of_not_any hany []
        rw [List.takeWhile_nil, List.append_nil] at hall
        rw [plainPrefixLen, hall, String.utf8Len_toList]
        rfl
  rw [hscan, hlead, String.utf8Len_toList, literalCount, specialCount]

theorem patternSpecificity_eq (s : String) :
    patternSpecificity s =
      (plainPrefixLen s * 100 + literalCount s + (2 ^ 64 - specialCount s * 10 % 2 ^ 64)) %
        2 ^ 64 := by
  simp only [patternSpecificity, specificityScan_eq]

theorem length_le_utf8Len (l : List Char) : l.length ≤ String.utf8Len l := by
  induction l with
  | nil => simp
  | cons c l ih =>
      have hpos := c.utf8Size_pos
      simp only [List.length_cons, String.utf8Len]
      omega

theorem specificity_terms_le (s : String) :
    plainPrefixLen s ≤ s.utf8ByteSize ∧ literalCount s ≤ s.utf8ByteSize ∧
      specialCount s ≤ s.utf8ByteSize := by
  have hbytes : s.toList.length ≤ s.utf8ByteSize := by
    rw [← String.utf8Len_toList]
    exact length_le_utf8Len _
  have hspecial : specialCount s ≤ s.toList.length := List.countP_le_length
  have hliteral : literalCount s ≤ s.toList.length := List.countP_le_length
  have hlead : plainPrefixLen s ≤ s.utf8ByteSize := by
    have happend := congrArg String.utf8Len
      (List.takeWhile_append_dropWhile (p := (!isSpecial ·)) (l := s.toList))
    rw [String.utf8Len_append, String.utf8Len_toList] at happend
    unfold plainPrefixLen
    omega
  exact ⟨hlead, hliteral.trans hbytes, hspecial.trans hbytes⟩

/-- Below the length limit a score is zero only when the wildcards outweigh the rest
exactly. -/
theorem patternSpecificity_eq_zero_iff {s : String} (h : s.utf8ByteSize < maxPkgLen) :
    patternSpecificity s = 0 ↔ specialCount s * 10 = plainPrefixLen s * 100 + literalCount s := by
  obtain ⟨hlead, hliteral, hspecial⟩ := specificity_terms_le s
  have hmax : maxPkgLen = 128 := rfl
  rw [patternSpecificity_eq]
  omega

section Match

variable (fnmatch : String → String → Bool)

/-! ## Interest -/

theorem mem_pkgs_iff {rs : RuleSet} {pkg : String} :
    pkg ∈ rs.pkgs ↔ ∃ r ∈ rs.rules, r.pkg = pkg := by
  rw [rs.indexed.pkgs_eq, mem_distinct, List.mem_map]

theorem chosenGroup_eq_none_iff (rs : RuleSet) (pkg : String) :
    rs.chosenGroup fnmatch pkg = none ↔
      ∀ w ∈ rs.wildcards, w.isCandidate fnmatch pkg = false := by
  rw [RuleSet.chosenGroup, List.argmax_eq_none, List.filter_eq_nil_iff]
  simp only [Bool.not_eq_true]

theorem wildcardIdxs_eq_nil_iff (rs : RuleSet) (pkg : String) :
    rs.wildcardIdxs fnmatch pkg = [] ↔ rs.chosenGroup fnmatch pkg = none := by
  unfold RuleSet.wildcardIdxs
  cases hw : rs.chosenGroup fnmatch pkg with
  | none => simp
  | some w =>
      -- a group exists because a rule has its pattern
      have hmem := (rs.mem_of_chosenGroup fnmatch hw).1
      rw [rs.indexed.wildcards_eq] at hmem
      obtain ⟨pattern, hpattern, hgroup⟩ := List.mem_map.mp hmem
      have hpkg := mem_distinct.mp (List.mem_filter.mp hpattern).1
      obtain ⟨r, hr, hrp⟩ := List.mem_map.mp hpkg
      have hwp : w.pattern = pattern := by rw [← hgroup]; rfl
      simp only [reduceCtorEq, iff_false]
      intro hnil
      have hno := indicesOf_eq_nil_iff.mp hnil r hr
      simp [hwp, hrp] at hno

theorem isInterested_iff (rs : RuleSet) (pkg : String) :
    rs.isInterested fnmatch pkg = true ↔
      (pkg ∈ rs.pkgs ∧ containsWildcard pkg = false) ∨
        ∃ w ∈ rs.wildcards, w.isCandidate fnmatch pkg = true := by
  have hexact : indicesOf (isExactFor pkg) rs.rules = [] ↔
      ¬(pkg ∈ rs.pkgs ∧ containsWildcard pkg = false) := by
    rw [indicesOf_eq_nil_iff, mem_pkgs_iff]
    constructor
    · rintro h ⟨⟨r, hr, rfl⟩, hplain⟩
      have hno := h r hr
      simp [isExactFor, hplain] at hno
    · intro h r hr
      by_contra hyes
      simp only [Bool.not_eq_false, isExactFor, Bool.and_eq_true, decide_eq_true_eq,
        Bool.not_eq_true'] at hyes
      exact h ⟨⟨r, hr, hyes.1⟩, hyes.1 ▸ hyes.2⟩
  have hwild : rs.wildcardIdxs fnmatch pkg = [] ↔
      ¬∃ w ∈ rs.wildcards, w.isCandidate fnmatch pkg = true := by
    rw [wildcardIdxs_eq_nil_iff, chosenGroup_eq_none_iff]
    simp only [not_exists, not_and, Bool.not_eq_true]
  rw [RuleSet.isInterested, RuleSet.collectPkgMatches_eq, Bool.not_eq_true',
    List.isEmpty_eq_false_iff,
    ne_eq, List.append_eq_nil_iff, tagged, tagged, List.map_eq_nil_iff, List.map_eq_nil_iff,
    hexact, hwild, not_and_or, not_not, not_not]

theorem mem_wildcards_iff {rs : RuleSet} {w : WildcardRule} :
    w ∈ rs.wildcards ↔ ∃ r ∈ rs.rules, isPattern r.pkg = true ∧ w = groupOf rs.rules r.pkg := by
  rw [rs.indexed.wildcards_eq, List.mem_map]
  constructor
  · rintro ⟨pattern, hpattern, rfl⟩
    obtain ⟨hlisted, hpat⟩ := List.mem_filter.mp hpattern
    obtain ⟨r, hr, rfl⟩ := List.mem_map.mp (mem_distinct.mp hlisted)
    exact ⟨r, hr, hpat, rfl⟩
  · rintro ⟨r, hr, hpat, rfl⟩
    exact ⟨r.pkg, List.mem_filter.mpr ⟨mem_distinct.mpr (List.mem_map_of_mem hr), hpat⟩, rfl⟩

/-! ## Completeness of matching -/

/-- The package name of a rule covers `q`: it is `q`, or a pattern that libc
accepts for `q`. -/
def covers (pkg q : String) : Bool :=
  if containsWildcard pkg then fnmatch (untilNul pkg) (untilNul q) else decide (pkg = q)

/-- A name that can be chosen: an exact one, or a pattern that has a C string and
whose wildcards do not outweigh the rest of its score exactly. -/
def reachable (pkg : String) : Bool :=
  !containsWildcard pkg ||
    ((cstring pkg).isSome &&
      decide (specialCount pkg * 10 ≠ plainPrefixLen pkg * 100 + literalCount pkg))

theorem mem_compile_rules {configs : List RuleConfig} {topo : CpuTopology} {r : CompiledRule} :
    r ∈ (compile configs topo).rules.rules ↔
      ∃ rc ∈ configs, rc.Accepted topo ∧
        r = ⟨rc.pkg, rc.thread, cstring rc.thread, rc.policy topo⟩ := by
  have hrules : (compile configs topo).rules.rules = (compileRules topo configs).1 := rfl
  rw [hrules, compileRules_fst, List.mem_filterMap]
  constructor
  · rintro ⟨rc, hrc, hr⟩
    cases hcompile : compileRule topo rc with
    | error reason => simp [hcompile, Except.toOption] at hr
    | ok r' =>
        have heq : r' = r := by simpa [hcompile, Except.toOption] using hr
        obtain ⟨haccepted, hrule⟩ := compileRule_eq_ok_iff.mp hcompile
        exact ⟨rc, hrc, haccepted, heq.symm.trans hrule⟩
  · rintro ⟨rc, hrc, haccepted, hrule⟩
    refine ⟨rc, hrc, ?_⟩
    rw [compileRule_eq_ok_iff.mpr ⟨haccepted, rfl⟩, hrule]
    rfl

theorem untilNul_of_cstring {s : String} (h : (cstring s).isSome = true) : untilNul s = s := by
  have hnul : Char.ofNat 0 ∉ s.toList := by
    intro hmem
    simp [cstring, Text.containsChar, hmem] at h
  apply String.toList_inj.mp
  rw [untilNul, String.toList_ofList]
  apply List.takeWhile_eq_self_iff.mpr
  intro c hc
  have hne : c ≠ Char.ofNat 0 := by
    rintro rfl
    exact hnul hc
  simpa using hne

theorem isCandidate_groupOf_iff {rules : List CompiledRule} {r : CompiledRule} {q : String}
    (hlen : r.pkg.utf8ByteSize < maxPkgLen) (hq : q.utf8ByteSize < maxPkgLen)
    (hpattern : isPattern r.pkg = true) :
    (groupOf rules r.pkg).isCandidate fnmatch q = true ↔
      covers fnmatch r.pkg q = true ∧ reachable r.pkg = true := by
  obtain ⟨hwild, hnul⟩ := Bool.and_eq_true_iff.mp hpattern
  have hmatch : fnmatchPkg fnmatch r.pkg q = fnmatch (untilNul r.pkg) (untilNul q) := by
    rw [fnmatchPkg, if_neg (by omega), untilNul_of_cstring hnul]
  have hzero := patternSpecificity_eq_zero_iff hlen
  have hspec : (groupOf rules r.pkg).specificity = patternSpecificity r.pkg := rfl
  have hcstr : (groupOf rules r.pkg).patternCstr = r.pkg := rfl
  rw [WildcardRule.isCandidate, hspec, hcstr, hmatch, covers, if_pos hwild,
    reachable, hwild, hnul, Bool.and_eq_true, decide_eq_true_iff, Nat.pos_iff_ne_zero,
    ne_eq, hzero]
  simp [and_comm]

/-- The rules want exactly the packages that a reachable rule covers. -/
theorem isInterested_compile_iff (configs : List RuleConfig) (topo : CpuTopology) {q : String}
    (hq : q.utf8ByteSize < maxPkgLen) :
    (compile configs topo).rules.isInterested fnmatch q = true ↔
      ∃ r ∈ (compile configs topo).rules.rules,
        covers fnmatch r.pkg q = true ∧ reachable r.pkg = true := by
  rw [isInterested_iff, mem_pkgs_iff]
  have hlen : ∀ {r}, r ∈ (compile configs topo).rules.rules → r.pkg.utf8ByteSize < maxPkgLen := by
    intro r hr
    obtain ⟨rc, -, haccepted, rfl⟩ := mem_compile_rules.mp hr
    exact haccepted.pkg_lt
  constructor
  · rintro (⟨⟨r, hr, rfl⟩, hplain⟩ | ⟨w, hw, hcandidate⟩)
    · exact ⟨r, hr, by simp [covers, hplain], by simp [reachable, hplain]⟩
    · obtain ⟨r, hr, hpattern, rfl⟩ := mem_wildcards_iff.mp hw
      exact ⟨r, hr, (isCandidate_groupOf_iff fnmatch (hlen hr) hq hpattern).mp hcandidate⟩
  · rintro ⟨r, hr, hcovers, hreach⟩
    cases hwild : containsWildcard r.pkg with
    | false =>
        have heq : r.pkg = q := by simpa [covers, hwild] using hcovers
        exact Or.inl ⟨⟨r, hr, heq⟩, heq ▸ hwild⟩
    | true =>
        have hpattern : isPattern r.pkg = true := by
          have hnul := hreach
          simp only [reachable, hwild, Bool.not_true, Bool.false_or,
            Bool.and_eq_true] at hnul
          rw [isPattern, hwild, hnul.1, Bool.and_self]
        exact Or.inr ⟨_, mem_wildcards_iff.mpr ⟨r, hr, hpattern, rfl⟩,
          (isCandidate_groupOf_iff fnmatch (hlen hr) hq hpattern).mpr ⟨hcovers, hreach⟩⟩

/-- Matching is complete on a package exactly when one of the rules that cover it, if
there are any, is reachable. -/
theorem isInterested_complete_iff (configs : List RuleConfig) (topo : CpuTopology) (q : String)
    (hq : q.utf8ByteSize < maxPkgLen) :
    ((compile configs topo).rules.isInterested fnmatch q = true ↔
        ∃ r ∈ (compile configs topo).rules.rules, covers fnmatch r.pkg q = true) ↔
      ((∃ r ∈ (compile configs topo).rules.rules, covers fnmatch r.pkg q = true) →
        ∃ r ∈ (compile configs topo).rules.rules,
          covers fnmatch r.pkg q = true ∧ reachable r.pkg = true) := by
  rw [isInterested_compile_iff fnmatch configs topo hq]
  constructor
  · intro h hcovered
    exact h.mpr hcovered
  · intro h
    constructor
    · rintro ⟨r, hr, hcovers, -⟩
      exact ⟨r, hr, hcovers⟩
    · exact h

/-! ## The longest fixed prefix -/

/-- The text of a pattern before its first wildcard character. -/
def fixedPrefix (pattern : String) : String :=
  String.ofList (pattern.toList.takeWhile fun c => !(c = '*' || c = '?' || c = '['))

/-- The wildcard group whose rules are collected for a package. -/
def RuleSet.UsesGroup (rs : RuleSet) (q : String) (w : WildcardRule) : Prop :=
  w ∈ rs.wildcards ∧
    (rs.collectPkgMatches fnmatch q).filter (fun m => decide (m.source = .packageWildcard)) =
      tagged .packageWildcard w.ruleIdxs

/-- No matching pattern of the rule set has a longer fixed prefix than `w`. -/
def RuleSet.HasLongestPrefix (rs : RuleSet) (q : String) (w : WildcardRule) : Prop :=
  ∀ v ∈ rs.wildcards, fnmatchPkg fnmatch v.patternCstr q = true →
    (fixedPrefix v.pattern).utf8ByteSize ≤ (fixedPrefix w.pattern).utf8ByteSize

/-- The groups the running maximum can end on, in the order of the scan. -/
def RuleSet.candidates (rs : RuleSet) (q : String) : List WildcardRule :=
  rs.wildcards.filter (WildcardRule.isCandidate fnmatch q)

theorem tagged_inj {source : RuleSource} {idxs idxs' : List Nat}
    (h : tagged source idxs = tagged source idxs') : idxs = idxs' := by
  have hindex := congrArg (List.map RuleMatch.index) h
  simpa [tagged, Function.comp_def] using hindex

theorem pattern_of_mem_ruleIdxs {rs : RuleSet} {w : WildcardRule} (hw : w ∈ rs.wildcards) :
    w.ruleIdxs ≠ [] ∧ ∀ i ∈ w.ruleIdxs, (rs.rules[i]!).pkg = w.pattern := by
  obtain ⟨r, hr, -, rfl⟩ := mem_wildcards_iff.mp hw
  have hidxs : (groupOf rs.rules r.pkg).ruleIdxs =
      indicesOf (fun r' => decide (r'.pkg = r.pkg)) rs.rules := rfl
  rw [hidxs]
  constructor
  · intro hnil
    have hno := indicesOf_eq_nil_iff.mp hnil r hr
    simp at hno
  · intro i hi
    have hget := List.mem_map_of_mem (f := (rs.rules[·]!)) hi
    rw [map_get_indicesOf] at hget
    simpa using (List.mem_filter.mp hget).2

theorem usesGroup_iff (rs : RuleSet) (q : String) (w : WildcardRule) :
    rs.UsesGroup fnmatch q w ↔ rs.chosenGroup fnmatch q = some w := by
  have hfilter : (rs.collectPkgMatches fnmatch q).filter
      (fun m => decide (m.source = .packageWildcard)) =
        tagged .packageWildcard (rs.wildcardIdxs fnmatch q) := by
    rw [rs.collectPkgMatches_eq, List.filter_append]
    simp [tagged, List.filter_map, Function.comp_def]
  rw [RuleSet.UsesGroup, hfilter]
  constructor
  · rintro ⟨hw, heq⟩
    obtain ⟨hne, hpkg⟩ := pattern_of_mem_ruleIdxs hw
    have hidxs := tagged_inj heq
    cases hchosen : rs.chosenGroup fnmatch q with
    | none =>
        have hnil := (wildcardIdxs_eq_nil_iff fnmatch rs q).mpr hchosen
        exact absurd (hidxs.symm.trans hnil) hne
    | some v =>
        have hv := (rs.mem_of_chosenGroup fnmatch hchosen).1
        have hvidxs : rs.wildcardIdxs fnmatch q = v.ruleIdxs := by
          rw [RuleSet.wildcardIdxs, hchosen, (rs.ruleIdxs_of_mem hv).1]
          rfl
        obtain ⟨i, hi⟩ := List.exists_mem_of_ne_nil _ hne
        have hsame : v.pattern = w.pattern := by
          rw [← (pattern_of_mem_ruleIdxs hv).2 i (hvidxs ▸ hidxs ▸ hi), hpkg i hi]
        rw [(rs.ruleIdxs_of_mem hv).1, (rs.ruleIdxs_of_mem hw).1, hsame]
  · intro hchosen
    have hw := (rs.mem_of_chosenGroup fnmatch hchosen).1
    refine ⟨hw, ?_⟩
    rw [RuleSet.wildcardIdxs, hchosen, (rs.ruleIdxs_of_mem hw).1]
    rfl

/-- The used group matches and has the longest fixed prefix exactly when every
candidate with a shorter prefix than some matching pattern is outscored by a
candidate with the longest one. -/
theorem usesGroup_longest_iff (rs : RuleSet) (q : String) :
    (∀ w, rs.UsesGroup fnmatch q w →
        fnmatchPkg fnmatch w.patternCstr q = true ∧ rs.HasLongestPrefix fnmatch q w) ↔
      ∀ w ∈ rs.candidates fnmatch q, ¬ rs.HasLongestPrefix fnmatch q w →
        ∃ u ∈ rs.candidates fnmatch q, rs.HasLongestPrefix fnmatch q u ∧
          Beats (fun v => patternSpecificity v.pattern) (rs.candidates fnmatch q) u w := by
  have hscore : (rs.candidates fnmatch q).argmax (fun v => patternSpecificity v.pattern) =
      rs.chosenGroup fnmatch q := by
    apply argmax_congr
    intro v hv
    rw [(rs.ruleIdxs_of_mem (List.mem_filter.mp hv).1).1]
    rfl
  rw [← argmax_good_iff, hscore]
  constructor
  · intro h w hw
    exact (h w ((usesGroup_iff fnmatch rs q w).mpr hw)).2
  · intro h w hw
    have hchosen := (usesGroup_iff fnmatch rs q w).mp hw
    exact ⟨(rs.mem_of_chosenGroup fnmatch hchosen).2.2, h w hchosen⟩

end Match

/-- Twelve wildcards cost more than one more byte of fixed prefix gains. -/
theorem usesGroup_shorter_prefix :
    let rs := (compile [.ofCpus "a*" "" "0-3", .ofCpus "ab????????????" "" "4-7"] (.flat 8)).rules
    ¬ ∀ w, rs.UsesGroup glob "abcdefghijklmn" w →
      fnmatchPkg glob w.patternCstr "abcdefghijklmn" = true ∧
        rs.HasLongestPrefix glob "abcdefghijklmn" w := by
  intro rs h
  have hused : rs.UsesGroup glob "abcdefghijklmn" (groupOf rs.rules "a*") := by
    constructor <;> decide +kernel
  have hlonger : groupOf rs.rules "ab????????????" ∈ rs.wildcards ∧
      fnmatchPkg glob "ab????????????" "abcdefghijklmn" = true ∧
      (fixedPrefix "a*").utf8ByteSize < (fixedPrefix "ab????????????").utf8ByteSize := by
    decide +kernel
  have hle := (h _ hused).2 _ hlonger.1 hlonger.2.1
  exact absurd hlonger.2.2 (Nat.not_lt.mpr hle)

theorem isInterested_complete_at_com_a :
    (compile [.ofCpus "com.*" "" "0-3"] (.flat 8)).rules.isInterested glob "com.a" = true ↔
      ∃ r ∈ (compile [.ofCpus "com.*" "" "0-3"] (.flat 8)).rules.rules,
        covers glob r.pkg "com.a" = true :=
  (isInterested_complete_iff glob [.ofCpus "com.*" "" "0-3"] (.flat 8) "com.a" (by decide)).mpr
    (fun _ => by decide +kernel)

/-- One leading wildcard and ten literals score zero: the pattern never matches. -/
theorem isInterested_misses_zero_score :
    let result := compile [.ofCpus "*abcdefghij" "" "0-3"] (.flat 8)
    let q := "xabcdefghij"
    result.errors = [] ∧ q.utf8ByteSize < maxPkgLen ∧
      ¬(result.rules.isInterested glob q = true ↔
        ∃ r ∈ result.rules.rules, covers glob r.pkg q = true) := by
  decide +kernel

end Threadctl.Core

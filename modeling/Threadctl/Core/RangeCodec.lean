import Mathlib.Data.List.Pairwise
import Threadctl.Core.RangeText

/-!
# CPU ranges as a codec

What the printer writes is canonical and reads back.  What the parser reads is the union of
the ranges of the parts, wherever the separators stand, cut down to the present CPUs.
-/

namespace Threadctl.Core

open Threadctl.Support.Text

/-- The ranges of the CPUs of `s`: they ascend, and a CPU that is absent lies between any
two of them. -/
structure Canonical (s : CpuSet) (rs : List (Nat × Nat)) : Prop where
  proper : ∀ r ∈ rs, r.1 ≤ r.2
  ascending : rs.Pairwise fun a b => a.2 < b.1
  gaps : rs.Pairwise fun a b => ∃ i, a.2 < i ∧ i < b.1 ∧ s.isSet i = false
  covers : ∀ i, s.isSet i = true ↔ ∃ r ∈ rs, r.1 ≤ i ∧ i ≤ r.2

theorem RangesOf.next_absent {s : CpuSet} {n : Nat} {rs : List (Nat × Nat)}
    (h : RangesOf s n rs) {a : Nat × Nat} (ha : a ∈ rs) (hn : a.2 + 1 < n) :
    s.isSet (a.2 + 1) = false := by
  have hsymm : Std.Symm fun q r : Nat × Nat => q.2 + 1 < r.1 ∨ r.2 + 1 < q.1 :=
    ⟨fun _ _ hqr => hqr.symm⟩
  have hapart : rs.Pairwise fun q r => q.2 + 1 < r.1 ∨ r.2 + 1 < q.1 := h.apart.imp Or.inl
  by_contra hset
  obtain ⟨r, hr, hlo, hhi⟩ := (h.covers (a.2 + 1)).mpr ⟨by simpa using hset, hn⟩
  have hproper := h.proper a ha
  by_cases heq : a = r
  · subst heq
    omega
  · have hfar := hapart.forall ha hr heq
    omega

theorem canonical_of_rangesOf {s : CpuSet} {rs : List (Nat × Nat)}
    (h : RangesOf s cpuSetSize rs) : Canonical s rs where
  proper := h.proper
  ascending := h.apart.imp fun hlt => by omega
  gaps := by
    refine h.apart.imp_of_mem fun {a b} ha hb hlt => ?_
    have hproper := h.proper b hb
    have hsize := h.lt hb
    exact ⟨a.2 + 1, by omega, by omega, h.next_absent ha (by omega)⟩
  covers := by
    intro i
    rw [h.covers i]
    constructor
    · intro hset
      have hlt : i < cpuSetSize := by
        by_contra hge
        rw [s.isSet_of_le (Nat.le_of_not_lt hge)] at hset
        exact Bool.false_ne_true hset
      exact ⟨hset, hlt⟩
    · exact And.left

/-- Every set has a text, the one of its canonical ranges, which parses to the set: no two
sets share a text, and what was parsed once parses to the same set when it is printed. -/
theorem range_codec_round_trip :
    (∀ s : CpuSet, parseCpuRanges s.toRangeString none = s) ∧
      Function.Injective CpuSet.toRangeString ∧
      (∀ s : CpuSet, ∃ rs, Canonical s rs ∧ s.toRangeString = rangesText rs) ∧
      ∀ x : String, parseCpuRanges (parseCpuRanges x none).toRangeString none =
        parseCpuRanges x none := by
  refine ⟨parseCpuRanges_toRangeString, toRangeString_injective, fun s => ?_,
    fun x => parseCpuRanges_toRangeString _⟩
  obtain ⟨rs, hrs, htext⟩ := s.toRangeString_ranges
  exact ⟨rs, canonical_of_rangesOf hrs, htext⟩

/-! ## The ranges of a text -/

/-- The ranges that the parts of a text stand for; a part that cannot be read has none. -/
def specRanges (spec : String) : List (Nat × Nat) :=
  (splitAny isSeparator spec).filterMap fun part =>
    if (trim part).isEmpty then none else parsePart (trim part)

theorem specRanges_append {c : Char} (hc : isSeparator c = true) (a b : String) :
    specRanges (a ++ String.singleton c ++ b) = specRanges a ++ specRanges b := by
  rw [specRanges, splitAny_append hc, List.filterMap_append]
  rfl

theorem parseCpuRanges_eq (spec : String) (present : Option CpuSet) :
    parseCpuRanges spec present = (specRanges spec).foldl (setRange present) .new := by
  unfold parseCpuRanges specRanges
  split
  · rename_i hempty
    have hspec : spec = "" := by simpa using hempty
    have hsplit : splitAny isSeparator "" = [""] := by simp [splitAny]
    have htrim : (trim "").isEmpty = true := by decide
    rw [hspec, hsplit, List.filterMap_cons, if_pos htrim, List.filterMap_nil, List.foldl_nil]
  · rw [List.foldl_filterMap]
    refine List.foldl_ext _ _ _ fun set part _ => ?_
    dsimp only
    split
    · rfl
    · cases parsePart (trim part) <;> rfl

theorem isSet_parseCpuRanges (spec : String) (present : Option CpuSet) (i : Nat) :
    (parseCpuRanges spec present).isSet i = true ↔
      (∃ r ∈ specRanges spec, r.1 ≤ i ∧ i ≤ r.2) ∧ i < 1024 ∧
        present.all (·.isSet i) = true := by
  rw [parseCpuRanges_eq, isSet_foldl_setRange, CpuSet.isSet_new]
  simp

theorem parseCpuRanges_append {c : Char} (hc : isSeparator c = true) (a b : String)
    (present : Option CpuSet) :
    parseCpuRanges (a ++ String.singleton c ++ b) present =
      (parseCpuRanges a present).or (parseCpuRanges b present) := by
  apply CpuSet.ext_isSet
  intro i
  rw [Bool.eq_iff_iff, CpuSet.isSet_or, Bool.or_eq_true, isSet_parseCpuRanges,
    isSet_parseCpuRanges, isSet_parseCpuRanges, specRanges_append hc]
  simp only [List.mem_append, or_and_right, exists_or]

theorem parseCpuRanges_present (spec : String) (present : CpuSet) :
    parseCpuRanges spec (some present) = (parseCpuRanges spec none).and present := by
  apply CpuSet.ext_isSet
  intro i
  rw [Bool.eq_iff_iff, CpuSet.isSet_and, Bool.and_eq_true, isSet_parseCpuRanges,
    isSet_parseCpuRanges]
  simp only [Option.all_some, Option.all_none, and_true, and_assoc]

/-! ## One range of two numbers -/

section TwoNumbers

variable {l h : String} {lo hi : Nat} (hl : parseUsize l = some lo) (hh : parseUsize h = some hi)

include hl hh

theorem rangeChars {c : Char} (hc : c ∈ (l ++ "-" ++ h).toList) :
    c.isDigit = true ∨ c = '+' ∨ c = '-' := by
  rw [String.toList_append, String.toList_append, List.mem_append, List.mem_append] at hc
  rcases hc with (hc | hc) | hc
  · exact (char_of_parseUsize hl c hc).imp_right Or.inl
  · exact Or.inr (Or.inr (by simpa using hc))
  · exact (char_of_parseUsize hh c hc).imp_right Or.inl

/-- Two numbers around a dash are one part: the marks of a bad number cut it off. -/
theorem specRanges_twoNumbers :
    specRanges (l ++ "-" ++ h) =
      if lo = usizeMax then [] else [if lo ≤ hi then (lo, hi) else (hi, lo)] := by
  have hchars {c : Char} (hc : c ∈ (l ++ "-" ++ h).toList) := rangeChars hl hh hc
  have hone : splitAny isSeparator (l ++ "-" ++ h) = [l ++ "-" ++ h] := by
    rw [splitAny, List.splitOnP_eq_singleton, List.map_singleton, String.ofList_toList]
    intro c hc
    rcases hchars hc with hdigit | rfl | rfl
    · exact isSeparator_of_isDigit hdigit
    · decide
    · decide
  have htrim : trim (l ++ "-" ++ h) = l ++ "-" ++ h := by
    apply trim_of_forall
    intro c hc
    rcases hchars hc with hdigit | rfl | rfl
    · exact isWhitespace_of_isDigit hdigit
    · decide
    · decide
  have hdash : '-' ∉ l.toList := by
    intro hc
    rcases char_of_parseUsize hl '-' hc with hdigit | heq
    · exact absurd hdigit (by decide)
    · exact absurd heq (by decide)
  have hsplit : splitOnce (l ++ "-" ++ h) '-' = some (l, h) := splitOnce_append hdash h
  have hne : (l ++ "-" ++ h).isEmpty = false := by simp
  have hpart : parsePart (l ++ "-" ++ h) =
      if lo = usizeMax then none else if lo ≤ hi then some (lo, hi) else some (hi, lo) := by
    rw [parsePart, hsplit]
    dsimp only
    rw [hl, hh, Option.getD_some, Option.getD_some]
  rw [specRanges, hone, List.filterMap_cons, htrim, hne, if_neg Bool.false_ne_true, hpart]
  by_cases hmark : lo = usizeMax
  · rw [if_pos hmark, if_pos hmark]
    rfl
  · rw [if_neg hmark, if_neg hmark, ← apply_ite some]
    rfl

theorem isSet_twoNumbers (i : Nat) :
    (parseCpuRanges (l ++ "-" ++ h) none).isSet i = true ↔
      lo ≠ usizeMax ∧ min lo hi ≤ i ∧ i ≤ max lo hi ∧ i < 1024 := by
  rw [isSet_parseCpuRanges, specRanges_twoNumbers hl hh]
  by_cases hmark : lo = usizeMax
  · simp [hmark]
  · rw [if_neg hmark]
    simp only [List.mem_singleton, exists_eq_left, Option.all_none, and_true, ne_eq, hmark,
      not_false_eq_true, true_and, and_assoc]
    split
    · rw [min_eq_left (by omega), max_eq_right (by omega)]
    · rw [min_eq_right (by omega), max_eq_left (by omega)]

/-- Only the mark of a bad number tells the two ends of a range apart. -/
theorem reversed_eq_iff :
    parseCpuRanges (l ++ "-" ++ h) none = parseCpuRanges (h ++ "-" ++ l) none ↔
      (lo = usizeMax ↔ hi = usizeMax) ∨ cpuSetSize ≤ min lo hi := by
  have hforth := isSet_twoNumbers hl hh
  have hback := isSet_twoNumbers hh hl
  have hmax : 1024 < usizeMax := by decide
  have hsize : cpuSetSize = 1024 := rfl
  constructor
  · intro heq
    by_contra hdiff
    -- the smaller number is a CPU of one of the two, and of one only
    have hsmall : min lo hi < 1024 ∧ ¬ (lo = usizeMax ↔ hi = usizeMax) := by omega
    have hsame : (lo ≠ usizeMax ∧ min lo hi ≤ min lo hi ∧ min lo hi ≤ max lo hi ∧
        min lo hi < 1024) ↔ hi ≠ usizeMax ∧ min hi lo ≤ min lo hi ∧ min lo hi ≤ max hi lo ∧
          min lo hi < 1024 := by
      rw [← hforth, ← hback, heq]
    omega
  · intro hcond
    apply CpuSet.ext_isSet
    intro i
    rw [Bool.eq_iff_iff, hforth, hback]
    omega

end TwoNumbers

/-- A separator joins, `present` cuts down, and a range has the CPUs between its numbers.
Its two ends are told apart when one is the mark of a bad number. -/
theorem parse_homomorphism :
    (∀ (a b : String) (c : Char), c = ',' ∨ c = ' ' ∨ c = '\t' →
      parseCpuRanges (a ++ String.singleton c ++ b) none =
        (parseCpuRanges a none).or (parseCpuRanges b none)) ∧
      (∀ (a : String) (p : CpuSet),
        parseCpuRanges a (some p) = (parseCpuRanges a none).and p) ∧
      ∀ (l h : String) (lo hi : Nat), parseUsize l = some lo → parseUsize h = some hi →
        (parseCpuRanges (l ++ "-" ++ h) none = parseCpuRanges (h ++ "-" ++ l) none ↔
          (lo = usizeMax ↔ hi = usizeMax) ∨ cpuSetSize ≤ min lo hi) ∧
        (lo < usizeMax → hi < usizeMax → ∀ i,
          (parseCpuRanges (l ++ "-" ++ h) none).isSet i = true ↔
            min lo hi ≤ i ∧ i ≤ max lo hi ∧ i < cpuSetSize) := by
  refine ⟨?_, fun a p => parseCpuRanges_present a p, ?_⟩
  · intro a b c hc
    have hsep : isSeparator c = true := by
      rcases hc with rfl | rfl | rfl <;> decide
    exact parseCpuRanges_append hsep a b none
  · intro l h lo hi hl hh
    refine ⟨reversed_eq_iff hl hh, fun hlo _ i => ?_⟩
    rw [isSet_twoNumbers hl hh i]
    exact and_iff_right (by omega)

theorem parse_homomorphism_at_7_3 :
    parseCpuRanges "7-3,1" none = (parseCpuRanges "3-7" none).or (parseCpuRanges "1" none) :=
  (parse_homomorphism.1 "7-3" "1" ',' (Or.inl rfl)).trans
    (congrArg (CpuSet.or · _) ((parse_homomorphism.2.2 "7" "3" 7 3 (by decide) (by decide)).1.mpr
      (Or.inl (by decide))))

/-- `usize::MAX` in front of the dash is passed over, behind it it is clamped. -/
theorem reversed_range_differs :
    parseUsize "18446744073709551615" = some usizeMax ∧
      parseCpuRanges "0-18446744073709551615" none ≠
        parseCpuRanges "18446744073709551615-0" none := by
  have hmax : parseUsize "18446744073709551615" = some usizeMax := by decide
  refine ⟨hmax, fun heq => ?_⟩
  have hzero : parseUsize "0" = some 0 := by decide
  have hcond := (reversed_eq_iff hzero hmax).mp heq
  revert hcond
  decide

end Threadctl.Core

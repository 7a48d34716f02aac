import Mathlib.Tactic.Tauto
import Threadctl.Core.Topology

/-!
# The text of a CPU set

`toRangeString` writes the ranges of a set: ascending, with a gap between each two.
`parseCpuRanges` reads them back, so two sets with the same text are the same set.
-/

namespace Threadctl.Core

open Threadctl.Support Threadctl.Support.Text

/-! ## Ranges -/

/-- One range as it is written: a single CPU has no dash. -/
def rangeText (r : Nat × Nat) : String :=
  if r.1 = r.2 then toString r.1 else toString r.1 ++ "-" ++ toString r.2

def rangesText (rs : List (Nat × Nat)) : String := ",".intercalate (rs.map rangeText)

/-- The ranges of the CPUs of `s` below `n`: they ascend with a gap between each other. -/
structure RangesOf (s : CpuSet) (n : Nat) (rs : List (Nat × Nat)) : Prop where
  proper : ∀ r ∈ rs, r.1 ≤ r.2
  apart : rs.Pairwise fun a b => a.2 + 1 < b.1
  covers : ∀ i, (∃ r ∈ rs, r.1 ≤ i ∧ i ≤ r.2) ↔ s.isSet i = true ∧ i < n

theorem rangesText_concat (rs : List (Nat × Nat)) (r : Nat × Nat) :
    rangesText (rs ++ [r]) = rangesText rs ++ (if rs.isEmpty then "" else ",") ++ rangeText r := by
  rw [rangesText, List.map_append, rangesText]
  cases rs with
  | nil => simp
  | cons q rs =>
      rw [String.intercalate_append_of_ne_nil (by simp) (by simp)]
      simp

theorem covered_concat (rs : List (Nat × Nat)) (r : Nat × Nat) (i : Nat) :
    (∃ q ∈ rs ++ [r], q.1 ≤ i ∧ i ≤ q.2) ↔
      (∃ q ∈ rs, q.1 ≤ i ∧ i ≤ q.2) ∨ (r.1 ≤ i ∧ i ≤ r.2) := by
  simp only [List.mem_append, List.mem_singleton, or_and_right, exists_or, exists_eq_left]

section Steps

variable {s : CpuSet} {n : Nat} {rs : List (Nat × Nat)}

theorem RangesOf.lt (h : RangesOf s n rs) {r : Nat × Nat} (hr : r ∈ rs) : r.2 < n :=
  ((h.covers r.2).mp ⟨r, hr, h.proper r hr, le_rfl⟩).2

theorem rangesOf_zero (s : CpuSet) : RangesOf s 0 [] where
  proper := by simp
  apart := List.Pairwise.nil
  covers := by simp

theorem RangesOf.skip (h : RangesOf s n rs) (hn : s.isSet n = false) : RangesOf s (n + 1) rs where
  proper := h.proper
  apart := h.apart
  covers := by
    intro i
    rw [h.covers i]
    constructor
    · exact fun ⟨hi, hlt⟩ => ⟨hi, by omega⟩
    · intro ⟨hi, hlt⟩
      have hne : i ≠ n := by
        rintro rfl
        simp [hn] at hi
      exact ⟨hi, by omega⟩

theorem RangesOf.skipAll (h : RangesOf s n rs) {m : Nat} (hm : n ≤ m)
    (hnone : ∀ i, n ≤ i → i < m → s.isSet i = false) : RangesOf s m rs := by
  induction m, hm using Nat.le_induction with
  | base => exact h
  | succ m hm ih => exact (ih fun i hi hlt => hnone i hi (by omega)).skip (hnone m hm (by omega))

theorem RangesOf.extend {lo hi : Nat} (h : RangesOf s n (rs ++ [(lo, hi)])) (hhi : hi + 1 = n)
    (hn : s.isSet n = true) : RangesOf s (n + 1) (rs ++ [(lo, n)]) where
  proper := by
    intro r hr
    rcases List.mem_append.mp hr with hr | hr
    · exact h.proper r (List.mem_append_left _ hr)
    · rw [List.mem_singleton.mp hr]
      have hle := h.proper (lo, hi) (by simp)
      dsimp only at hle ⊢
      omega
  apart := by
    have hold := List.pairwise_append.mp h.apart
    refine List.pairwise_append.mpr ⟨hold.1, List.pairwise_singleton _ _, ?_⟩
    intro a ha b hb
    rw [List.mem_singleton.mp hb]
    exact hold.2.2 a ha (lo, hi) (by simp)
  covers := by
    intro i
    have hcov := h.covers i
    have hle := h.proper (lo, hi) (by simp)
    rw [covered_concat] at hcov ⊢
    by_cases hin : i = n
    · subst hin
      dsimp only at hle
      exact ⟨fun _ => ⟨hn, by omega⟩, fun _ => Or.inr ⟨by omega, le_rfl⟩⟩
    · have hsplit : (lo ≤ i ∧ i ≤ n) ↔ (lo ≤ i ∧ i ≤ hi) := by omega
      rw [hsplit, hcov]
      constructor
      · exact fun ⟨h1, h2⟩ => ⟨h1, by omega⟩
      · exact fun ⟨h1, h2⟩ => ⟨h1, by omega⟩

theorem RangesOf.start (h : RangesOf s n rs) (hfar : ∀ r ∈ rs, r.2 + 1 < n)
    (hn : s.isSet n = true) : RangesOf s (n + 1) (rs ++ [(n, n)]) where
  proper := by
    intro r hr
    rcases List.mem_append.mp hr with hr | hr
    · exact h.proper r hr
    · rw [List.mem_singleton.mp hr]
  apart := by
    refine List.pairwise_append.mpr ⟨h.apart, List.pairwise_singleton _ _, ?_⟩
    intro a ha b hb
    rw [List.mem_singleton.mp hb]
    exact hfar a ha
  covers := by
    intro i
    rw [covered_concat, h.covers i]
    by_cases hin : i = n
    · subst hin
      exact ⟨fun _ => ⟨hn, by omega⟩, fun _ => Or.inr ⟨le_rfl, le_rfl⟩⟩
    · constructor
      · rintro (⟨h1, h2⟩ | h2)
        · exact ⟨h1, by omega⟩
        · omega
      · exact fun ⟨h1, h2⟩ => Or.inl ⟨h1, by omega⟩

end Steps

/-! ## The printer writes the ranges -/

namespace CpuSet

/-- The printer has read the CPUs below `n`: some ranges are written, and one may be open. -/
def Printing (s : CpuSet) (n : Nat) (p : RangePrinter) : Prop :=
  ∃ rs : List (Nat × Nat), ∃ open_ : Option (Nat × Nat),
    p = ⟨rangesText rs, open_.map (·.1), open_.map (·.2), rs.isEmpty⟩ ∧
      RangesOf s n (rs ++ open_.toList) ∧ (open_ = none → ∀ r ∈ rs, r.2 + 1 < n)

theorem pushRange_some (rs : List (Nat × Nat)) (lo hi : Nat) :
    pushRange ⟨rangesText rs, some lo, some hi, rs.isEmpty⟩ =
      ⟨rangesText (rs ++ [(lo, hi)]), some lo, some hi, false⟩ := by
  rw [rangesText_concat]
  rfl

section Printing

variable {s : CpuSet} {n : Nat} {p : RangePrinter}

theorem Printing.skipAll (h : Printing s n p) {m : Nat} (hm : n ≤ m)
    (hnone : ∀ i, n ≤ i → i < m → s.isSet i = false) : Printing s m p := by
  obtain ⟨rs, open_, hp, hrs, hclosed⟩ := h
  refine ⟨rs, open_, hp, hrs.skipAll hm hnone, fun ho r hr => ?_⟩
  exact lt_of_lt_of_le (hclosed ho r hr) hm

theorem Printing.printCpu (h : Printing s n p) (hn : s.isSet n = true) :
    Printing s (n + 1) (printCpu p n) := by
  obtain ⟨rs, open_, rfl, hrs, hclosed⟩ := h
  unfold CpuSet.printCpu
  cases open_ with
  | none =>
      rw [Option.toList_none, List.append_nil] at hrs
      exact ⟨rs, some (n, n), rfl, hrs.start (hclosed rfl) hn, fun h => nomatch h⟩
  | some r =>
      obtain ⟨lo, hi⟩ := r
      dsimp only [Option.map_some]
      split
      · rename_i hnext
        rw [Option.some.injEq] at hnext
        exact ⟨rs, some (lo, n), rfl, hrs.extend hnext hn, fun h => nomatch h⟩
      · rename_i hnext
        rw [Option.some.injEq] at hnext
        rw [pushRange_some]
        refine ⟨rs ++ [(lo, hi)], some (n, n), by simp, hrs.start ?_ hn, fun h => nomatch h⟩
        have hlast : hi < n := hrs.lt (r := (lo, hi)) (by simp)
        intro q hq
        rcases List.mem_append.mp hq with hq | hq
        · have hgap := (List.pairwise_append.mp hrs.apart).2.2 q hq (lo, hi) (by simp)
          have hle := hrs.proper (lo, hi) (by simp)
          dsimp only at hgap hle
          omega
        · rw [List.mem_singleton.mp hq]
          dsimp only
          omega

theorem Printing.close (h : Printing s n p) (hn : s.isSet n = false) :
    Printing s (n + 1)
      (if p.start.isSome then { pushRange p with start := none, stop := none } else p) := by
  obtain ⟨rs, open_, rfl, hrs, hclosed⟩ := h
  cases open_ with
  | none =>
      refine ⟨rs, none, rfl, hrs.skip hn, fun _ r hr => ?_⟩
      exact lt_trans (hclosed rfl r hr) (Nat.lt_succ_self n)
  | some r =>
      dsimp only [Option.map_some, Option.isSome_some]
      rw [if_pos rfl, pushRange_some]
      refine ⟨rs ++ [r], none, by simp, by simpa using hrs.skip hn, fun _ q hq => ?_⟩
      exact Nat.succ_lt_succ (hrs.lt hq)

theorem Printing.printWord {k : Nat} {word : BitVec cpuWordBits}
    (h : Printing s (k * cpuWordBits) p)
    (hword : ∀ b, b < cpuWordBits → s.isSet (k * cpuWordBits + b) = word.getLsbD b) :
    Printing s ((k + 1) * cpuWordBits) (printWord p (word, k)) := by
  have hnext : (k + 1) * cpuWordBits = k * cpuWordBits + cpuWordBits := Nat.succ_mul _ _
  rw [hnext]
  unfold CpuSet.printWord
  by_cases hzero : word = 0#64
  · have hnone : ∀ i, k * cpuWordBits ≤ i → i < k * cpuWordBits + cpuWordBits →
        s.isSet i = false := by
      intro i hle hlt
      have hbit := hword (i - k * cpuWordBits) (by omega)
      rw [Nat.add_sub_cancel' hle, hzero] at hbit
      simpa using hbit
    rw [if_pos hzero]
    refine (h.close (hnone _ le_rfl (by simp only [cpuWordBits]; omega))).skipAll ?_ ?_
    · simp only [cpuWordBits]
      omega
    · exact fun i hle hlt => hnone i (by omega) hlt
  · rw [if_neg hzero]
    have hbits : ∀ m, m ≤ cpuWordBits → Printing s (k * cpuWordBits + m)
        ((List.range m).foldl (fun p bit =>
          if word.getLsbD bit then CpuSet.printCpu p (k * cpuWordBits + bit) else p) p) := by
      intro m
      induction m with
      | zero => exact fun _ => h
      | succ m ih =>
          intro hm
          have hprev := ih (by omega)
          rw [List.range_succ, List.foldl_append, List.foldl_cons, List.foldl_nil]
          split
          · rename_i hset
            exact hprev.printCpu ((hword m hm).trans hset)
          · rename_i hset
            refine hprev.skipAll (Nat.le_succ _) fun i hle hlt => ?_
            have hi : i = k * cpuWordBits + m := by omega
            rw [hi, hword m hm]
            simpa using hset
    exact hbits cpuWordBits le_rfl

end Printing

theorem Printing.printWords {s : CpuSet} (words : List (BitVec cpuWordBits)) {k : Nat}
    {p : RangePrinter} (h : Printing s (k * cpuWordBits) p)
    (hwords : ∀ j b, b < cpuWordBits → s.isSet ((k + j) * cpuWordBits + b) =
      (words.getD j 0).getLsbD b) :
    Printing s ((k + words.length) * cpuWordBits) ((words.zipIdx k).foldl CpuSet.printWord p) := by
  induction words generalizing k p with
  | nil => exact h
  | cons word words ih =>
      have hfirst : Printing s ((k + 1) * cpuWordBits) (CpuSet.printWord p (word, k)) :=
        h.printWord fun b hb => by simpa using hwords 0 b hb
      have hrest := ih hfirst fun j b hb => by
        have hj := hwords (j + 1) b hb
        rw [List.getD_cons_succ, ← Nat.add_assoc, Nat.add_right_comm] at hj
        exact hj
      rw [List.zipIdx_cons, List.foldl_cons, List.length_cons, ← Nat.add_assoc,
        Nat.add_right_comm]
      exact hrest

/-- What is printed are the ranges of the set. -/
theorem toRangeString_ranges (s : CpuSet) :
    ∃ rs, RangesOf s cpuSetSize rs ∧ s.toRangeString = rangesText rs := by
  have hwords : ∀ j b, b < cpuWordBits → s.isSet ((0 + j) * cpuWordBits + b) =
      (s.bits.toList.getD j 0).getLsbD b := by
    intro j b hb
    rw [Nat.zero_add]
    by_cases hj : j < cpuWords
    · have hi : j * 64 + b < 1024 := by
        simp only [cpuWords, cpuSetSize, cpuWordBits] at hj hb
        omega
      have hdiv : (j * 64 + b) / 64 = j := by simp only [cpuWordBits] at hb; omega
      have hmod : (j * 64 + b) % 64 = b := by simp only [cpuWordBits] at hb; omega
      rw [isSet_eq s hi (word_lt hi)]
      simp [hdiv, hmod, List.getD_eq_getElem?_getD, hj]
    · have hi : 1024 ≤ j * 64 + b := by
        simp only [cpuWords, cpuSetSize, cpuWordBits] at hj
        omega
      rw [isSet_of_le s hi]
      simp [List.getD_eq_getElem?_getD, hj]
  have hstart : Printing s (0 * cpuWordBits) .init :=
    ⟨[], none, rfl, by simpa using rangesOf_zero s, fun _ r hr => nomatch hr⟩
  obtain ⟨rs, open_, hp, hrs, -⟩ := hstart.printWords s.bits.toList hwords
  have hsize : (0 + s.bits.toList.length) * cpuWordBits = cpuSetSize := by
    rw [Vector.length_toList]
    rfl
  rw [hsize] at hrs
  refine ⟨_, hrs, ?_⟩
  rw [toRangeString, hp]
  cases open_ with
  | none => simp [pushRange]
  | some r => exact congrArg RangePrinter.out (pushRange_some rs r.1 r.2)

end CpuSet

/-! ## Written ranges read back -/

theorem isWhitespace_of_isDigit {c : Char} (h : c.isDigit = true) : isWhitespace c = false := by
  obtain ⟨hlo, hhi⟩ := Char.isDigit_iff_toNat.mp h
  have hlo' : 48 ≤ c.toNat := hlo
  have hhi' : c.toNat ≤ 57 := hhi
  simp only [isWhitespace, Bool.or_eq_false_iff, Bool.and_eq_false_iff, decide_eq_false_iff_not,
    beq_eq_false_iff_ne]
  omega

theorem rangeText_chars {r : Nat × Nat} {c : Char} (hc : c ∈ (rangeText r).toList) :
    c.isDigit = true ∨ c = '-' := by
  unfold rangeText at hc
  split at hc
  · exact Or.inl (isDigit_of_mem_repr hc)
  · rw [String.toList_append, String.toList_append, List.mem_append, List.mem_append] at hc
    rcases hc with (hc | hc) | hc
    · exact Or.inl (isDigit_of_mem_repr hc)
    · exact Or.inr (by simpa using hc)
    · exact Or.inl (isDigit_of_mem_repr hc)

theorem parsePart_rangeText {r : Nat × Nat} (hle : r.1 ≤ r.2) (hr : r.2 < usizeMax) :
    parsePart (rangeText r) = some r := by
  have hmax : usizeMax = 2 ^ 64 - 1 := rfl
  have hlo : parseUsize (toString r.1) = some r.1 := parseUsize_repr (by omega)
  have hhi : parseUsize (toString r.2) = some r.2 := parseUsize_repr (by omega)
  have hdash : '-' ∉ (toString r.1).toList := fun h =>
    absurd (isDigit_of_mem_repr h) (by decide)
  by_cases heq : r.1 = r.2
  · have hnone : splitOnce (toString r.1) '-' = none := by
      rw [splitOnce, containsChar, if_neg (by simpa using hdash)]
    rw [rangeText, if_pos heq, parsePart, hnone]
    dsimp only
    rw [hlo, Option.getD_some, if_neg (by omega)]
    exact congrArg some (Prod.ext rfl heq)
  · have hsplit : splitOnce (toString r.1 ++ "-" ++ toString r.2) '-' =
        some (toString r.1, toString r.2) := splitOnce_append hdash _
    rw [rangeText, if_neg heq, parsePart, hsplit]
    dsimp only
    rw [hlo, hhi, Option.getD_some, Option.getD_some, if_neg (by omega), if_pos hle]

theorem rangeText_ne_empty (r : Nat × Nat) : rangeText r ≠ "" := by
  unfold rangeText
  split
  · exact Nat.repr_ne_empty
  · simp

theorem isSet_foldl_setRange (present : Option CpuSet) (rs : List (Nat × Nat)) (set : CpuSet)
    (i : Nat) :
    (rs.foldl (setRange present) set).isSet i = true ↔
      set.isSet i = true ∨
        ((∃ r ∈ rs, r.1 ≤ i ∧ i ≤ r.2) ∧ i < 1024 ∧ present.all (·.isSet i) = true) := by
  induction rs generalizing set with
  | nil => simp
  | cons r rs ih =>
      rw [List.foldl_cons, ih, isSet_setRange]
      simp only [List.mem_cons, exists_eq_or_imp]
      tauto

theorem isSeparator_of_isDigit {c : Char} (h : c.isDigit = true) : isSeparator c = false := by
  have hne : ∀ d : Char, d.isDigit = false → c ≠ d := by
    rintro d hd rfl
    rw [h] at hd
    exact absurd hd (by decide)
  simp [isSeparator, hne ',' (by decide), hne ' ' (by decide), hne '\t' (by decide)]

theorem trim_rangeText (r : Nat × Nat) : trim (rangeText r) = rangeText r := by
  apply trim_of_forall
  intro c hc
  rcases rangeText_chars hc with hdigit | rfl
  · exact isWhitespace_of_isDigit hdigit
  · decide

theorem parseCpuRanges_rangesText {rs : List (Nat × Nat)} (hproper : ∀ r ∈ rs, r.1 ≤ r.2)
    (hsize : ∀ r ∈ rs, r.2 < usizeMax) :
    parseCpuRanges (rangesText rs) none = rs.foldl (setRange none) .new := by
  by_cases hne : rs = []
  · subst hne
    rfl
  · have hseparators : ∀ part ∈ rs.map rangeText, ∀ c ∈ part.toList, isSeparator c = false := by
      intro part hpart c hc
      obtain ⟨r, -, rfl⟩ := List.mem_map.mp hpart
      rcases rangeText_chars hc with hdigit | rfl
      · exact isSeparator_of_isDigit hdigit
      · decide
    have hcomma : "," = String.singleton ',' := rfl
    have hsplit : splitAny isSeparator (rangesText rs) = rs.map rangeText := by
      rw [rangesText, hcomma]
      exact splitAny_intercalate rfl (by simpa using hne) hseparators
    have hnonempty : (rangesText rs).isEmpty = false := by
      rw [Bool.eq_false_iff]
      intro hempty
      have hnone : rangesText rs = "" := by simpa using hempty
      have hmem : "" ∈ rs.map rangeText := by
        rw [← hsplit, hnone, splitAny]
        simp
      obtain ⟨r, -, hr⟩ := List.mem_map.mp hmem
      exact rangeText_ne_empty r hr
    rw [parseCpuRanges, hnonempty, if_neg Bool.false_ne_true, hsplit, List.foldl_map]
    refine List.foldl_ext _ _ _ fun set r hr => ?_
    dsimp only
    rw [trim_rangeText, if_neg (by simpa using rangeText_ne_empty r),
      parsePart_rangeText (hproper r hr) (hsize r hr)]

/-- Printing a set and parsing the text gives the set back. -/
theorem parseCpuRanges_toRangeString (s : CpuSet) : parseCpuRanges s.toRangeString none = s := by
  obtain ⟨rs, hrs, htext⟩ := s.toRangeString_ranges
  have hsize : ∀ r ∈ rs, r.2 < usizeMax := fun r hr =>
    lt_of_lt_of_le (hrs.lt hr) (by decide)
  rw [htext, parseCpuRanges_rangesText hrs.proper hsize]
  apply CpuSet.ext_isSet
  intro i
  rw [Bool.eq_iff_iff, isSet_foldl_setRange none, CpuSet.isSet_new, hrs.covers i]
  constructor
  · rintro (h | ⟨⟨hi, -⟩, -⟩)
    · exact absurd h Bool.false_ne_true
    · exact hi
  · intro hi
    have hlt : i < 1024 := by
      by_contra hge
      rw [CpuSet.isSet_of_le s (Nat.le_of_not_lt hge)] at hi
      exact absurd hi Bool.false_ne_true
    exact Or.inr ⟨⟨hi, hlt⟩, hlt, rfl⟩

theorem toRangeString_injective : Function.Injective CpuSet.toRangeString := by
  intro s t h
  rw [← parseCpuRanges_toRangeString s, h, parseCpuRanges_toRangeString t]

end Threadctl.Core

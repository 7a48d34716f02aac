import Mathlib.Data.List.Basic
import Mathlib.Data.Vector.Basic
import Threadctl.Support.Runs
import Threadctl.Support.Text

/-!
# CPU sets and topology

`CpuSet` keeps the sixteen 64-bit words of `cpu_set_t`.  Everything proved about
it goes through membership (`isSet`): two sets with the same members are equal,
and each operation has one membership lemma.
-/

namespace Threadctl.Core

open Threadctl.Support Threadctl.Support.Text

def maxPkgLen : Nat := 128
def maxThreadLen : Nat := 32
abbrev cpuSetSize : Nat := 1024
abbrev cpuWordBits : Nat := 64
abbrev cpuWords : Nat := cpuSetSize / cpuWordBits

theorem word_lt {cpu : Nat} (h : cpu < cpuSetSize) : cpu / cpuWordBits < cpuWords := by
  simp only [cpuSetSize, cpuWordBits, cpuWords] at *
  omega

/-- The bitmap of `cpu_set_t`. -/
structure CpuSet where
  bits : Vector (BitVec cpuWordBits) cpuWords
  deriving DecidableEq

namespace CpuSet

def new : CpuSet := ⟨Vector.replicate cpuWords 0#64⟩

instance : Inhabited CpuSet := ⟨new⟩

def set (s : CpuSet) (cpu : Nat) : CpuSet :=
  if h : cpu < cpuSetSize then
    have hw := word_lt h
    ⟨s.bits.set (cpu / cpuWordBits)
      (s.bits[cpu / cpuWordBits] ||| (1#64 <<< (cpu % cpuWordBits)))⟩
  else s

def isSet (s : CpuSet) (cpu : Nat) : Bool :=
  if h : cpu < cpuSetSize then
    have hw := word_lt h
    (s.bits[cpu / cpuWordBits] &&& (1#64 <<< (cpu % cpuWordBits))) != 0#64
  else false

/-- `u64::count_ones`. -/
def countOnes (w : BitVec cpuWordBits) : Nat :=
  (List.range cpuWordBits).countP (fun b => w.getLsbD b)

def count (s : CpuSet) : Nat :=
  (s.bits.toList.map countOnes).sum

def or (s other : CpuSet) : CpuSet :=
  ⟨Vector.zipWith (· ||| ·) s.bits other.bits⟩

def isEmpty (s : CpuSet) : Bool :=
  s.bits.toList.all (· == 0#64)

def and (s other : CpuSet) : CpuSet :=
  ⟨Vector.zipWith (· &&& ·) s.bits other.bits⟩

/-- `self.bits[i / 64] &= !(1 << (i % 64))`, the clearing step of the online filter. -/
def clear (s : CpuSet) (cpu : Nat) : CpuSet :=
  if h : cpu < cpuSetSize then
    have hw := word_lt h
    ⟨s.bits.set (cpu / cpuWordBits)
      (s.bits[cpu / cpuWordBits] &&& ~~~(1#64 <<< (cpu % cpuWordBits)))⟩
  else s

/-! ## Membership -/

theorem mask_ne_zero (w : BitVec 64) {b : Nat} (hb : b < 64) :
    ((w &&& (1#64 <<< b)) != 0#64) = w.getLsbD b := by
  rw [← BitVec.twoPow_eq, BitVec.and_twoPow]
  have hne : BitVec.twoPow 64 b ≠ 0#64 := by
    intro h0
    have h := congrArg (fun v => v.getLsbD b) h0
    simp [hb] at h
  cases hw : w.getLsbD b <;> simp [hne]

theorem getLsbD_one_shiftLeft {b j : Nat} (hj : j < 64) :
    (1#64 <<< b).getLsbD j = decide (b = j) := by
  rw [← BitVec.twoPow_eq, BitVec.getLsbD_twoPow]
  by_cases h : b = j <;> simp [h, hj]

theorem isSet_eq (s : CpuSet) {i : Nat} (hi : i < 1024) (hw : i / 64 < cpuWords) :
    s.isSet i = s.bits[i / 64].getLsbD (i % 64) := by
  unfold isSet
  rw [dif_pos hi]
  exact mask_ne_zero _ (Nat.mod_lt _ (by decide))

theorem isSet_of_le (s : CpuSet) {i : Nat} (hi : 1024 ≤ i) : s.isSet i = false := by
  unfold isSet
  rw [dif_neg (Nat.not_lt.mpr hi)]

theorem ext_isSet {s t : CpuSet} (h : ∀ i, s.isSet i = t.isSet i) : s = t := by
  obtain ⟨sb⟩ := s
  obtain ⟨tb⟩ := t
  congr 1
  apply Vector.ext
  intro w hw
  apply BitVec.eq_of_getLsbD_eq
  intro b hb
  have hw' : w < 16 := hw
  have hb' : b < 64 := hb
  have hi : w * 64 + b < 1024 := by omega
  have hbit := h (w * 64 + b)
  rw [isSet_eq _ hi (word_lt hi), isSet_eq _ hi (word_lt hi)] at hbit
  have hdiv : (w * 64 + b) / 64 = w := by omega
  have hmod : (w * 64 + b) % 64 = b := by omega
  simpa only [hdiv, hmod] using hbit

@[simp] theorem isSet_new (i : Nat) : new.isSet i = false := by
  by_cases hi : i < 1024
  · rw [isSet_eq _ hi (word_lt hi)]
    simp [new]
  · exact isSet_of_le _ (by omega)

@[simp] theorem isSet_or (s t : CpuSet) (i : Nat) :
    (s.or t).isSet i = (s.isSet i || t.isSet i) := by
  by_cases hi : i < 1024
  · rw [isSet_eq _ hi (word_lt hi), isSet_eq _ hi (word_lt hi), isSet_eq _ hi (word_lt hi)]
    simp [or]
  · simp [isSet_of_le _ (Nat.le_of_not_lt hi)]

@[simp] theorem isSet_and (s t : CpuSet) (i : Nat) :
    (s.and t).isSet i = (s.isSet i && t.isSet i) := by
  by_cases hi : i < 1024
  · rw [isSet_eq _ hi (word_lt hi), isSet_eq _ hi (word_lt hi), isSet_eq _ hi (word_lt hi)]
    simp [and]
  · simp [isSet_of_le _ (Nat.le_of_not_lt hi)]

/-- Writing a bit of the word of `c` decides whether `c` is in the set, and no other CPU. -/
theorem isSet_writeBit (s : CpuSet) {c i : Nat} (hw : c / 64 < cpuWords) (hi : i < 1024)
    {f : BitVec 64 → BitVec 64} {b : Bool}
    (hf : ∀ w, (f w).getLsbD (i % 64) = if c % 64 = i % 64 then b else w.getLsbD (i % 64)) :
    isSet ⟨s.bits.set (c / 64) (f s.bits[c / 64])⟩ i = if c = i then b else s.isSet i := by
  rw [isSet_eq _ hi (word_lt hi), isSet_eq _ hi (word_lt hi)]
  simp only [Vector.getElem_set]
  split
  · rename_i hword
    have hword' : c / 64 = i / 64 := hword
    have heq : (c % 64 = i % 64) ↔ c = i := by omega
    simp only [hf, hword', heq]
  · rename_i hword
    have hne : c ≠ i := by rintro rfl; exact hword rfl
    rw [if_neg hne]

@[simp] theorem isSet_set (s : CpuSet) (c i : Nat) :
    (s.set c).isSet i = (s.isSet i || (decide (c = i) && decide (i < 1024))) := by
  by_cases hi : i < 1024
  · unfold set
    by_cases hc : c < 1024
    · rw [dif_pos hc]
      have hmod : i % 64 < 64 := Nat.mod_lt _ (by omega)
      have hwrite (w : BitVec 64) : (w ||| (1#64 <<< (c % 64))).getLsbD (i % 64) =
          if c % 64 = i % 64 then true else w.getLsbD (i % 64) := by
        rw [BitVec.getLsbD_or, getLsbD_one_shiftLeft hmod]
        by_cases hmatch : c % 64 = i % 64 <;> simp [hmatch]
      refine (isSet_writeBit s (word_lt hc) hi hwrite).trans ?_
      by_cases heq : c = i <;> simp [heq, hi]
    · have hne : c ≠ i := by omega
      rw [dif_neg hc]
      simp [hne]
  · simp [isSet_of_le _ (Nat.le_of_not_lt hi), hi]

@[simp] theorem isSet_clear (s : CpuSet) (c i : Nat) :
    (s.clear c).isSet i = (s.isSet i && decide (c ≠ i)) := by
  by_cases hi : i < 1024
  · unfold clear
    by_cases hc : c < 1024
    · rw [dif_pos hc]
      have hmod : i % 64 < 64 := Nat.mod_lt _ (by omega)
      have hwrite (w : BitVec 64) : (w &&& ~~~(1#64 <<< (c % 64))).getLsbD (i % 64) =
          if c % 64 = i % 64 then false else w.getLsbD (i % 64) := by
        rw [BitVec.getLsbD_and, BitVec.getLsbD_not, getLsbD_one_shiftLeft hmod]
        by_cases hmatch : c % 64 = i % 64 <;> simp [hmatch, hmod]
      refine (isSet_writeBit s (word_lt hc) hi hwrite).trans ?_
      by_cases heq : c = i <;> simp [heq]
    · have hne : c ≠ i := by omega
      rw [dif_neg hc]
      simp [hne]
  · simp [isSet_of_le _ (Nat.le_of_not_lt hi)]

theorem countOnes_eq_zero {w : BitVec 64} : countOnes w = 0 ↔ w = 0#64 := by
  unfold countOnes
  rw [List.countP_eq_zero]
  constructor
  · intro h
    apply BitVec.eq_of_getLsbD_eq
    intro b hb
    simpa using h b (List.mem_range.mpr hb)
  · rintro rfl b -
    simp

/-- `count() == 0` is the emptiness test of the code. -/
theorem count_eq_zero {s : CpuSet} : s.count = 0 ↔ s = new := by
  have hwords : s.count = 0 ↔ ∀ w ∈ s.bits.toList, w = 0#64 := by
    rw [count, List.sum_eq_zero_iff_forall_eq_nat]
    simp [countOnes_eq_zero]
  rw [hwords]
  constructor
  · intro h
    obtain ⟨sb⟩ := s
    unfold new
    congr 1
    apply Vector.ext
    intro w hw
    simpa using h sb[w] (by simp)
  · rintro rfl w hw
    have hmem : w ∈ List.replicate cpuWords 0#64 := by
      simpa only [new, Vector.toList_replicate] using hw
    exact List.eq_of_mem_replicate hmem

theorem count_pos_iff {s : CpuSet} : 0 < s.count ↔ ∃ i, s.isSet i = true := by
  constructor
  · intro h
    by_contra hno
    push Not at hno
    have hs : s = new := ext_isSet fun i => by simpa using hno i
    rw [count_eq_zero.mpr hs] at h
    exact absurd h (Nat.lt_irrefl 0)
  · rintro ⟨i, hi⟩
    apply Nat.pos_of_ne_zero
    intro h0
    rw [count_eq_zero.mp h0] at hi
    simp at hi

def within (s t : CpuSet) : Prop := ∀ i, s.isSet i = true → t.isSet i = true

theorem and_eq_left_iff {s t : CpuSet} : s.and t = s ↔ s.within t := by
  constructor
  · intro h i hi
    rw [← h, isSet_and, Bool.and_eq_true] at hi
    exact hi.2
  · intro h
    apply ext_isSet
    intro i
    rw [isSet_and]
    cases hs : s.isSet i with
    | false => rfl
    | true => exact h i hs

/-! ## The range printer -/

/-- The locals of `to_range_string`: the text so far, the open range and the
flag that suppresses the first comma. -/
structure RangePrinter where
  out : String
  start : Option Nat
  stop : Option Nat
  first : Bool

def RangePrinter.init : RangePrinter := ⟨"", none, none, true⟩

def pushRange (p : RangePrinter) : RangePrinter :=
  match p.start, p.stop with
  | some lo, some hi =>
      { p with
        out := p.out ++ (if p.first then "" else ",") ++
          (if lo = hi then toString lo else toString lo ++ "-" ++ toString hi)
        first := false }
  | _, _ => p

/-- One set bit: extend the open range, or close it and open the next. -/
def printCpu (p : RangePrinter) (cpu : Nat) : RangePrinter :=
  match p.start with
  | none => { p with start := some cpu, stop := some cpu }
  | some _ =>
      if p.stop.map (· + 1) = some cpu then { p with stop := some cpu }
      else { pushRange p with start := some cpu, stop := some cpu }

/-- One word: a zero word closes the open range, others are read bit by bit. -/
def printWord (p : RangePrinter) (word : BitVec cpuWordBits × Nat) : RangePrinter :=
  if word.1 = 0#64 then
    if p.start.isSome then { pushRange p with start := none, stop := none } else p
  else
    (List.range cpuWordBits).foldl
      (fun p bit => if word.1.getLsbD bit then printCpu p (word.2 * cpuWordBits + bit) else p) p

def toRangeString (s : CpuSet) : String :=
  (pushRange (s.bits.toList.zipIdx.foldl printWord .init)).out

/-- Something is printed, now or at the end of the open range. -/
def RangePrinter.Busy (p : RangePrinter) : Prop :=
  p.out ≠ "" ∨ (p.start.isSome = true ∧ p.stop.isSome = true)

theorem pushRange_out_ne {p : RangePrinter} (hp : p.Busy) : (pushRange p).out ≠ "" := by
  obtain ⟨out, start, stop, first⟩ := p
  have hrange : ∀ lo hi : Nat,
      (if lo = hi then toString lo else toString lo ++ "-" ++ toString hi) ≠ "" := by
    intro lo hi
    split
    · exact Nat.repr_ne_empty
    · simp
  unfold pushRange
  cases start with
  | none =>
      rcases hp with hout | ⟨hstart, _⟩
      · exact hout
      · exact absurd hstart Bool.false_ne_true
  | some lo =>
      cases stop with
      | none =>
          rcases hp with hout | ⟨_, hstop⟩
          · exact hout
          · exact absurd hstop Bool.false_ne_true
      | some hi =>
          dsimp only
          intro hempty
          exact hrange lo hi (String.append_eq_empty_iff.mp hempty).2

theorem printCpu_busy (p : RangePrinter) (cpu : Nat) : (printCpu p cpu).Busy := by
  unfold printCpu
  cases hstart : p.start with
  | none => exact Or.inr ⟨rfl, rfl⟩
  | some lo =>
      dsimp only
      split
      · exact Or.inr ⟨rfl, rfl⟩
      · exact Or.inr ⟨rfl, rfl⟩

theorem printWord_busy {p : RangePrinter} (hp : p.Busy) (word : BitVec cpuWordBits × Nat) :
    (printWord p word).Busy := by
  unfold printWord
  split
  · split
    · exact Or.inl (pushRange_out_ne hp)
    · exact hp
  · refine Runs.run_invariant (fun p bit => if word.1.getLsbD bit then
      printCpu p (word.2 * cpuWordBits + bit) else p) (fun q bit hq => ?_) hp _
    split
    · exact printCpu_busy q _
    · exact hq

theorem printWord_busy_of_ne {word : BitVec cpuWordBits × Nat} (hword : word.1 ≠ 0#64)
    (p : RangePrinter) : (printWord p word).Busy := by
  have hbit : ∃ bit ∈ List.range cpuWordBits, word.1.getLsbD bit = true := by
    by_contra hnone
    apply hword
    apply countOnes_eq_zero.mp
    exact List.countP_eq_zero.mpr fun bit hmem hset => hnone ⟨bit, hmem, hset⟩
  obtain ⟨bit, hmem, hset⟩ := hbit
  unfold printWord
  rw [if_neg hword]
  refine Runs.run_reaches (fun p bit => if word.1.getLsbD bit then
    printCpu p (word.2 * cpuWordBits + bit) else p) (fun q bit hq => ?_) hmem (fun q => ?_) p
  · split
    · exact printCpu_busy q _
    · exact hq
  · rw [if_pos hset]
    exact printCpu_busy q _

theorem toRangeString_ne_empty {s : CpuSet} (h : 0 < s.count) : s.toRangeString ≠ "" := by
  have hword : ∃ w ∈ s.bits.toList, w ≠ 0#64 := by
    by_contra hnone
    have hzero : s.count = 0 := by
      apply List.sum_eq_zero
      intro n hn
      obtain ⟨w, hw, rfl⟩ := List.mem_map.mp hn
      exact countOnes_eq_zero.mpr (by_contra fun hne => hnone ⟨w, hw, hne⟩)
    omega
  obtain ⟨w, hw, hne⟩ := hword
  rw [← List.zipIdx_map_fst 0 s.bits.toList] at hw
  obtain ⟨word, hmem, rfl⟩ := List.mem_map.mp hw
  apply pushRange_out_ne
  exact Runs.run_reaches printWord (Q := RangePrinter.Busy)
    (fun _ word hp => printWord_busy hp word) hmem (printWord_busy_of_ne hne) .init

end CpuSet

/-! ## Clusters and topology -/

inductive CpuClusterKind where
  | prime
  | big
  | mid
  | little
  | unknown
  deriving DecidableEq

structure CpuCluster where
  kind : CpuClusterKind
  cpus : CpuSet
  rangeStr : String
  capacity : Nat
  deriving DecidableEq

/-- The part of the topology that rules and affinity read. -/
structure CpuTopology where
  presentCpus : CpuSet
  onlineCpus : CpuSet
  cpusetEnabled : Bool
  baseCpusetFd : Int
  clusters : List CpuCluster

def CpuTopology.default : CpuTopology := ⟨.new, .new, false, -1, []⟩

def CpuSet.firstN (n : Nat) : CpuSet := (List.range n).foldl CpuSet.set .new

/-- `n` present and online CPUs in no cluster, with cpusets unavailable. -/
def CpuTopology.flat (n : Nat) : CpuTopology :=
  { CpuTopology.default with presentCpus := .firstN n, onlineCpus := .firstN n }

/-! ## The range parser -/

def usizeMax : Nat := 2 ^ 64 - 1

/-- The two ends of one part; `usize::MAX` doubles as the error mark. -/
def parsePart (part : String) : Option (Nat × Nat) :=
  match splitOnce part '-' with
  | some (lo, hi) =>
      let a := (parseUsize lo).getD usizeMax
      let b := (parseUsize hi).getD a
      if a = usizeMax then none
      else if a ≤ b then some (a, b) else some (b, a)
  | none =>
      let v := (parseUsize part).getD usizeMax
      if v = usizeMax then none else some (v, v)

/-- `for i in lo..=hi.min(CPU_SETSIZE - 1)`, filtered by `present`. -/
def setRange (present : Option CpuSet) (set : CpuSet) (range : Nat × Nat) : CpuSet :=
  (List.range' range.1 (min range.2 (cpuSetSize - 1) + 1 - range.1)).foldl
    (fun set i => if present.all (·.isSet i) then set.set i else set) set

def isSeparator (c : Char) : Bool := c == ',' || c == ' ' || c == '\t'

def parseCpuRanges (spec : String) (present : Option CpuSet) : CpuSet :=
  if spec.isEmpty then .new
  else (splitAny isSeparator spec).foldl
    (fun set part =>
      let part := trim part
      if part.isEmpty then set
      else match parsePart part with
        | some range => setRange present set range
        | none => set)
    .new

theorem isSet_setRange (present : Option CpuSet) (set : CpuSet) (range : Nat × Nat) (i : Nat) :
    (setRange present set range).isSet i = true ↔
      set.isSet i = true ∨
        (range.1 ≤ i ∧ i ≤ range.2 ∧ i < 1024 ∧ present.all (·.isSet i) = true) := by
  have key : ∀ (is : List Nat) (set : CpuSet),
      (is.foldl (fun set i => if present.all (·.isSet i) then set.set i else set) set).isSet i =
          true ↔
        set.isSet i = true ∨ (i ∈ is ∧ i < 1024 ∧ present.all (·.isSet i) = true) := by
    intro is
    induction is with
    | nil => simp
    | cons j is ih =>
        intro set
        rw [List.foldl_cons, ih]
        by_cases hj : present.all (·.isSet j) = true
        · rw [if_pos hj, CpuSet.isSet_set]
          by_cases hji : j = i
          · subst hji
            simp [hj]
            tauto
          · simp [hji, Ne.symm hji]
        · rw [if_neg hj]
          by_cases hji : j = i
          · subst hji
            simp [hj]
          · simp [Ne.symm hji]
  rw [setRange, key, List.mem_range'_1]
  constructor
  · rintro (h | ⟨⟨hlo, hhi⟩, hlt, hp⟩)
    · exact Or.inl h
    · refine Or.inr ⟨hlo, ?_, hlt, hp⟩
      omega
  · rintro (h | ⟨hlo, hhi, hlt, hp⟩)
    · exact Or.inl h
    · refine Or.inr ⟨⟨hlo, ?_⟩, hlt, hp⟩
      simp only [cpuSetSize]
      omega

end Threadctl.Core

import Threadctl.Core.RangeText
import Threadctl.Support.Words

/-!
# The columns of `/proc/<pid>/stat`

The command name stands in parentheses and may hold anything but a line feed, so the
fields are counted from the last closing parenthesis on.  The field after it is the
third; index `k` is field `k + 3`.
-/

namespace Threadctl.Core

open Threadctl.Support.Text

/-! ## The source's functions -/

/-- `str::rsplit_once`: the text after the last `c`. -/
def afterLast (s : String) (c : Char) : Option String :=
  if c ∈ s.toList then some (String.ofList (s.toList.reverse.takeWhile (· != c)).reverse) else none

/-- `u64::from_str`, the same as `usize::from_str` on a 64-bit machine. -/
def parseU64 (s : String) : Option Nat := parseUsize s

def parseU32 (s : String) : Option Nat := (parseUsize s).filter (· < 2 ^ 32)

def readStartTime (stat : String) : Option Nat := do
  let afterComm ← afterLast stat ')'
  let v ← (splitWhitespace afterComm)[19]?
  parseU64 v

def parseStatFields (stat : String) : Option (List String) := do
  let after ← afterLast stat ')'
  pure (splitWhitespace (trim after))

def readProcessor (stat : String) : Option Nat := do
  let f ← parseStatFields stat
  let v ← f[36]?
  parseU32 v

/-- The sum wraps around in a release build. -/
def readThreadCpuSecs (stat : String) : Option Nat := do
  let f ← parseStatFields stat
  let utimeField ← f[10]?
  let utime ← parseU64 utimeField
  let stimeField ← f[11]?
  let stime ← parseU64 stimeField
  pure ((utime + stime) % 2 ^ 64)

/-- A line as `proc(5)` lays it out.  `numbers` are the fields from the fourth on. -/
structure StatLine where
  pid : Nat
  comm : String
  state : Char
  numbers : List Int
  comm_line : '\n' ∉ comm.toList
  state_letter : state.isAlpha = true
  long : 36 ≤ numbers.length
  /-- `cmajflt`, `utime`, `stime` and `starttime` are 64-bit counts. -/
  counts : ∀ n ∈ [13, 14, 15, 22], 0 ≤ numbers.getD (n - 4) 0 ∧ numbers.getD (n - 4) 0 < 2 ^ 64
  /-- `processor` is the number of a CPU. -/
  processor : 0 ≤ numbers.getD 35 0 ∧ numbers.getD 35 0 < 2 ^ 31

def StatLine.field (line : StatLine) (n : Nat) : Nat := (line.numbers.getD (n - 4) 0).toNat

def StatLine.words (line : StatLine) : List String :=
  String.singleton line.state :: line.numbers.map fun n => toString n

def StatLine.text (line : StatLine) : String :=
  toString line.pid ++ " (" ++ line.comm ++ ") " ++ " ".intercalate line.words ++ "\n"

/-! ## Reading the layout -/

theorem afterLast_append {c : Char} {b : String} (h : c ∉ b.toList) (a : String) :
    afterLast (a ++ String.singleton c ++ b) c = some b := by
  have hchars : (a ++ String.singleton c ++ b).toList = a.toList ++ c :: b.toList := by simp
  have hrest : (a.toList ++ c :: b.toList).reverse.takeWhile (· != c) = b.toList.reverse := by
    rw [List.reverse_append, List.reverse_cons, List.append_assoc, List.singleton_append]
    exact takeWhile_append_cons (by simpa using h) _
  rw [afterLast, hchars, if_pos (by simp), hrest, List.reverse_reverse, String.ofList_toList]

theorem toString_ofNat (n : Nat) : toString (n : Int) = n.repr := rfl

theorem mem_toString_int {n : Int} {c : Char} (hc : c ∈ (toString n).toList) :
    c.isDigit = true ∨ c = '-' := by
  cases n with
  | ofNat n => exact Or.inl (isDigit_of_mem_repr hc)
  | negSucc n =>
      have htext : (toString (Int.negSucc n)).toList = '-' :: (n + 1).repr.toList := by
        show ("-" ++ (n + 1).repr).toList = _
        simp
      rw [htext] at hc
      rcases List.mem_cons.mp hc with rfl | hc
      · exact Or.inr rfl
      · exact Or.inl (isDigit_of_mem_repr hc)

theorem toString_int_ne_empty (n : Int) : (toString n).toList ≠ [] := by
  cases n with
  | ofNat n =>
      show n.repr.toList ≠ []
      simp
  | negSucc n =>
      show ("-" ++ (n + 1).repr).toList ≠ []
      simp

theorem fieldChar {line : StatLine} {w : String} (hw : w ∈ line.words) {c : Char}
    (hc : c ∈ w.toList) : c.isAlpha = true ∨ c.isDigit = true ∨ c = '-' := by
  rcases List.mem_cons.mp hw with rfl | hw
  · have hstate : c = line.state := by simpa using hc
    exact Or.inl (hstate ▸ line.state_letter)
  · obtain ⟨n, -, rfl⟩ := List.mem_map.mp hw
    exact Or.inr (mem_toString_int hc)

theorem isWhitespace_of_isAlpha {c : Char} (h : c.isAlpha = true) : isWhitespace c = false := by
  have hcases : (decide (c.val ≥ 65 ∧ c.val ≤ 90) || (c.val ≥ 97 && c.val ≤ 122)) = true := h
  have hletter : (65 ≤ c.toNat ∧ c.toNat ≤ 90) ∨ (97 ≤ c.toNat ∧ c.toNat ≤ 122) := by
    simpa [UInt32.le_iff_toNat_le] using hcases
  simp only [isWhitespace, Bool.or_eq_false_iff, Bool.and_eq_false_iff, decide_eq_false_iff_not,
    beq_eq_false_iff_ne]
  omega

theorem isWord_field {line : StatLine} {w : String} (hw : w ∈ line.words) : IsWord w := by
  have hne : w ≠ "" := by
    rcases List.mem_cons.mp hw with rfl | hw
    · simp
    · obtain ⟨n, -, rfl⟩ := List.mem_map.mp hw
      intro hempty
      exact absurd (toString_int_ne_empty n) (by simp [hempty])
  have hblank : ∀ c ∈ w.toList, isWhitespace c = false := by
    intro c hc
    rcases fieldChar hw hc with halpha | hdigit | rfl
    · exact isWhitespace_of_isAlpha halpha
    · exact isWhitespace_of_isDigit hdigit
    · decide
  exact ⟨hne, hblank⟩

def StatLine.tail (line : StatLine) : String := " " ++ " ".intercalate line.words ++ "\n"

/-- The name is skipped, whatever it holds. -/
theorem afterLast_text (line : StatLine) : afterLast line.text ')' = some line.tail := by
  have hparen : ')' ∉ line.tail.toList := by
    intro hc
    rw [StatLine.tail, String.toList_append, String.toList_append, List.mem_append,
      List.mem_append] at hc
    rcases hc with (hc | hc) | hc
    · exact absurd hc (by decide)
    · rcases mem_intercalate hc with hc | ⟨w, hw, hc⟩
      · exact absurd hc (by decide)
      · exact absurd (fieldChar hw hc) (by decide)
    · exact absurd hc (by decide)
  have htext : line.text =
      (toString line.pid ++ " (" ++ line.comm) ++ String.singleton ')' ++ line.tail := by
    apply String.toList_inj.mp
    simp [StatLine.text, StatLine.tail]
  rw [htext, afterLast_append hparen]

theorem splitWhitespace_tail (line : StatLine) : splitWhitespace line.tail = line.words := by
  have hend : "\n" = String.singleton '\n' := rfl
  have hstart : " " ++ " ".intercalate line.words =
      "" ++ String.singleton ' ' ++ (String.singleton ' ').intercalate line.words := by
    rw [String.empty_append]
    rfl
  rw [StatLine.tail, hend, splitWhitespace_concat (by decide), hstart,
    splitWhitespace_append (by decide), splitWhitespace_empty, List.nil_append,
    splitWhitespace_intercalate (by decide) fun w => isWord_field]

/-! ## The columns -/

theorem words_field (line : StatLine) {n k : Nat} (hn : n = k + 4) (hlong : n ≤ 39) :
    line.words[k + 1]? = some (toString (line.numbers.getD (n - 4) 0)) := by
  have hk : k < line.numbers.length := by
    have := line.long
    omega
  have hget : line.numbers.getD (n - 4) 0 = line.numbers[k] := by
    rw [hn, Nat.add_sub_cancel, List.getD_eq_getElem?_getD, List.getElem?_eq_getElem hk,
      Option.getD_some]
  rw [StatLine.words, List.getElem?_cons_succ, List.getElem?_map, List.getElem?_eq_getElem hk, hget]
  rfl

theorem parseU64_toString {v : Int} (hnonneg : 0 ≤ v) (hlt : v < 2 ^ 64) :
    parseU64 (toString v) = some v.toNat := by
  have hv : toString v = v.toNat.repr := by
    rw [← toString_ofNat, Int.toNat_of_nonneg hnonneg]
  rw [parseU64, hv, parseUsize_repr (by omega)]

theorem parseU64_count (line : StatLine) {n : Nat} (hn : n ∈ [13, 14, 15, 22]) :
    parseU64 (toString (line.numbers.getD (n - 4) 0)) = some (line.field n) :=
  parseU64_toString (line.counts n hn).1 (line.counts n hn).2

theorem field_lt (line : StatLine) {n : Nat} (hn : n ∈ [13, 14, 15, 22]) :
    line.field n < 2 ^ 64 := by
  have hcount := line.counts n hn
  rw [StatLine.field]
  omega

theorem parseStatFields_text (line : StatLine) : parseStatFields line.text = some line.words := by
  rw [parseStatFields, afterLast_text, Option.bind_eq_bind, Option.bind_some, splitWhitespace_trim,
    splitWhitespace_tail]
  rfl

theorem readStartTime_text (line : StatLine) : readStartTime line.text = some (line.field 22) := by
  have hword := words_field line (n := 22) (k := 18) rfl (by decide)
  have hvalue := parseU64_count line (n := 22) (by decide)
  simp only [readStartTime, afterLast_text, Option.bind_eq_bind, Option.bind_some,
    splitWhitespace_tail, hword, hvalue]

theorem readProcessor_text (line : StatLine) : readProcessor line.text = some (line.field 39) := by
  have hword := words_field line (n := 39) (k := 35) rfl (by decide)
  have hvalue : parseU32 (toString (line.numbers.getD (39 - 4) 0)) = some (line.field 39) := by
    obtain ⟨hnonneg, hlt⟩ : 0 ≤ line.numbers.getD (39 - 4) 0 ∧
        line.numbers.getD (39 - 4) 0 < 2 ^ 31 := line.processor
    have hsmall : line.field 39 < 2 ^ 32 := by
      rw [StatLine.field]
      omega
    have hread : parseUsize (toString (line.numbers.getD (39 - 4) 0)) = some (line.field 39) :=
      parseU64_toString hnonneg (by omega)
    rw [parseU32, hread, Option.filter_some, if_pos (decide_eq_true hsmall)]
  simp only [readProcessor, parseStatFields_text, Option.bind_eq_bind, Option.bind_some, hword,
    hvalue]

/-- The indices of the two times are those of the fields before them. -/
theorem readThreadCpuSecs_text (line : StatLine) :
    readThreadCpuSecs line.text = some ((line.field 13 + line.field 14) % 2 ^ 64) := by
  have hword := words_field line (n := 13) (k := 9) rfl (by decide)
  have hnext := words_field line (n := 14) (k := 10) rfl (by decide)
  have hvalue := parseU64_count line (n := 13) (by decide)
  have hnextValue := parseU64_count line (n := 14) (by decide)
  simp only [readThreadCpuSecs, parseStatFields_text, Option.bind_eq_bind, Option.bind_some, hword,
    hnext, hvalue, hnextValue]
  rfl

/-- `starttime` and `processor` come from their own columns on every line.  The times come from
the columns in front of theirs, so that their sum is right just where `cmajflt` is the same as
`stime` (and the sum fits the word). -/
theorem stat_fields_iff (line : StatLine) :
    (readStartTime line.text = some (line.field 22) ∧
      readProcessor line.text = some (line.field 39) ∧
      readThreadCpuSecs line.text = some (line.field 14 + line.field 15)) ↔
    (line.field 13 = line.field 15 ∧ line.field 14 + line.field 15 < 2 ^ 64) := by
  have hmajor := field_lt line (n := 13) (by decide)
  have huser := field_lt line (n := 14) (by decide)
  rw [readStartTime_text, readProcessor_text, readThreadCpuSecs_text]
  simp only [Option.some_inj, true_and]
  constructor
  · intro hsum
    omega
  · intro ⟨hsame, hfits⟩
    omega

/-- A thread that used 40 ticks in user space and 2 in the kernel, with three major faults of the
children it waited for. -/
def renderThread : StatLine where
  pid := 99
  comm := "RenderThread (GL)"
  state := 'S'
  numbers := [1, 99, 99, 0, -1, 0, 0, 0, 0, 3, 40, 2] ++ List.replicate 24 0
  comm_line := by decide
  state_letter := by decide
  long := by decide
  counts := by decide
  processor := by decide

theorem cpu_secs_from_wrong_columns :
    ¬ ∀ line : StatLine, readStartTime line.text = some (line.field 22) ∧
      readProcessor line.text = some (line.field 39) ∧
      readThreadCpuSecs line.text = some (line.field 14 + line.field 15) := by
  intro h
  have hsum := (h renderThread).2.2
  rw [readThreadCpuSecs_text] at hsum
  exact absurd hsum (by decide)

end Threadctl.Core

import Mathlib.Algebra.GroupWithZero.Nat
import Mathlib.Data.List.Basic
import Mathlib.Tactic.Set

/-!
# Text operations of the Rust standard library

Strings are Lean `String`s; every operation works on the list of their
characters.  Only the operations the configuration and scene code use are here:
trimming, prefix tests, splitting, line iteration and integer parsing.
-/

namespace Threadctl.Support.Text

/-- The Unicode `White_Space` property, as `char::is_whitespace` reads it. -/
def isWhitespace (c : Char) : Bool :=
  let n := c.toNat
  (9 ≤ n && n ≤ 13) || n == 0x20 || n == 0x85 || n == 0xA0 || n == 0x1680 ||
    (0x2000 ≤ n && n ≤ 0x200A) || n == 0x2028 || n == 0x2029 || n == 0x202F ||
    n == 0x205F || n == 0x3000

def trimStart (s : String) : String :=
  String.ofList (s.toList.dropWhile isWhitespace)

def trimEnd (s : String) : String :=
  String.ofList (s.toList.reverse.dropWhile isWhitespace).reverse

def trim (s : String) : String :=
  trimEnd (trimStart s)

def startsWith (s pre : String) : Bool :=
  pre.toList.isPrefixOf s.toList

/-- `str::trim_start_matches` on a text: `pre` is dropped as often as it occurs. -/
def trimStartMatches (s pre : String) : String :=
  String.ofList (drop s.toList.length s.toList)
where
  drop : Nat → List Char → List Char
    | 0, cs => cs
    | n + 1, cs => if pre.toList.isPrefixOf cs then drop n (cs.drop pre.toList.length) else cs

def containsChar (s : String) (c : Char) : Bool :=
  s.toList.contains c

/-- `str::split` on a character predicate; the pieces may be empty. -/
def splitAny (sep : Char → Bool) (s : String) : List String :=
  (s.toList.splitOnP sep).map String.ofList

/-- `str::split_once`: the text before and after the first `c`. -/
def splitOnce (s : String) (c : Char) : Option (String × String) :=
  if containsChar s c then
    some (String.ofList (s.toList.takeWhile (· != c)),
      String.ofList ((s.toList.dropWhile (· != c)).drop 1))
  else none

/-- Drop one carriage return in front of a line feed. -/
def stripCr (line : List Char) : List Char :=
  if line.getLast? = some '\r' then line.dropLast else line

/-- `str::lines`: the text after the last line feed is a line only when it is
not empty, and only a line that ends in a line feed loses a carriage return. -/
def lines (s : String) : List String :=
  let pieces := s.toList.splitOnP (· == '\n')
  let ended := pieces.dropLast.map (fun l => String.ofList (stripCr l))
  match pieces.getLast? with
  | some (c :: cs) => ended ++ [String.ofList (c :: cs)]
  | _ => ended

def unlines (ls : List String) : String :=
  ls.foldl (fun out l => out ++ l ++ "\n") ""

/-! ## Integers -/

/-- The value of a non-empty run of decimal digits. -/
def parseDigits (cs : List Char) : Option Nat :=
  if cs.isEmpty then none
  else cs.foldl (fun acc c =>
    acc.bind fun n => if c.isDigit then some (10 * n + (c.toNat - '0'.toNat)) else none)
    (some 0)

/-- `usize::from_str` on a 64-bit machine: an optional `+`, digits, no overflow. -/
def parseUsize (s : String) : Option Nat :=
  let digits := match s.toList with
    | '+' :: cs => parseDigits cs
    | cs => parseDigits cs
  digits.filter (· < 2 ^ 64)

/-- `i32::from_str`: an optional sign, digits, no overflow. -/
def parseI32 (s : String) : Option Int :=
  match s.toList with
  | '-' :: cs => (parseDigits cs).bind fun n => if n ≤ 2 ^ 31 then some (-(n : Int)) else none
  | '+' :: cs => (parseDigits cs).bind fun n => if n < 2 ^ 31 then some (n : Int) else none
  | cs => (parseDigits cs).bind fun n => if n < 2 ^ 31 then some (n : Int) else none

theorem startsWith_iff {s pre : String} :
    startsWith s pre = true ↔ pre.toList <+: s.toList := by
  simp [startsWith]

theorem dropWhile_of_head {p : Char → Bool} {l : List Char} (h : l.head?.any p = false) :
    l.dropWhile p = l := by
  cases l with
  | nil => rfl
  | cons c l =>
      rw [List.head?_cons, Option.any_some] at h
      rw [List.dropWhile_cons, h, if_neg Bool.false_ne_true]

theorem startsWith_trim {s pre : String} (h : startsWith s pre = true) (hne : pre.toList ≠ [])
    (hfirst : pre.toList.head?.any isWhitespace = false)
    (hlast : pre.toList.getLast?.any isWhitespace = false) :
    startsWith (trim s) pre = true := by
  obtain ⟨rest, hs⟩ := startsWith_iff.mp h
  have hstart : trimStart s = s := by
    have hhead : s.toList.head?.any isWhitespace = false := by
      rw [← hs, List.head?_append_of_ne_nil _ hne]
      exact hfirst
    rw [trimStart, dropWhile_of_head hhead, String.ofList_toList]
  have hreverse : pre.toList.reverse.dropWhile isWhitespace = pre.toList.reverse := by
    apply dropWhile_of_head
    rw [List.head?_reverse]
    exact hlast
  rw [startsWith_iff, trim, hstart, trimEnd, String.toList_ofList, ← hs, List.reverse_append,
    List.dropWhile_append, hreverse]
  split
  · simp
  · rw [List.reverse_append, List.reverse_reverse]
    exact List.prefix_append _ _

theorem toList_unlines (ls : List String) :
    (unlines ls).toList = (ls.map (fun l => l.toList ++ ['\n'])).flatten := by
  have key : ∀ (out : String), (ls.foldl (fun out l => out ++ l ++ "\n") out).toList =
      out.toList ++ (ls.map (fun l => l.toList ++ ['\n'])).flatten := by
    induction ls with
    | nil => simp
    | cons l ls ih => intro out; simp [ih]
  simpa [unlines] using key ""

theorem unlines_cons (l : String) (ls : List String) :
    unlines (l :: ls) = l ++ "\n" ++ unlines ls := by
  apply String.toList_inj.mp
  simp [toList_unlines]

theorem takeWhile_append_cons {c : Char} {l : List Char} (h : c ∉ l) (r : List Char) :
    (l ++ c :: r).takeWhile (· != c) = l := by
  rw [List.takeWhile_append_of_pos]
  · simp
  · intro d hd
    have hne : d ≠ c := by rintro rfl; exact h hd
    simpa using hne

/-- Lines without line feeds can be read back. -/
theorem unlines_inj {ls ls' : List String} (h : ∀ l ∈ ls, '\n' ∉ l.toList)
    (h' : ∀ l ∈ ls', '\n' ∉ l.toList) (heq : unlines ls = unlines ls') : ls = ls' := by
  induction ls generalizing ls' with
  | nil =>
      cases ls' with
      | nil => rfl
      | cons l' ls' =>
          have hlen := congrArg String.toList heq
          simp [toList_unlines] at hlen
  | cons l ls ih =>
      cases ls' with
      | nil =>
          have hlen := congrArg String.toList heq
          simp [toList_unlines] at hlen
      | cons l' ls' =>
          have hchars := congrArg String.toList heq
          simp only [unlines_cons, String.toList_append, List.append_assoc] at hchars
          have hfirst := congrArg (List.takeWhile (· != '\n')) hchars
          have hl : l.toList = l'.toList :=
            (takeWhile_append_cons (h l List.mem_cons_self) _).symm.trans
              (hfirst.trans (takeWhile_append_cons (h' l' List.mem_cons_self) _))
          rw [hl] at hchars
          have hrest := List.append_cancel_left (List.append_cancel_left hchars)
          rw [String.toList_inj.mp hl, ih (fun l hl => h l (List.mem_cons_of_mem _ hl))
            (fun l hl => h' l (List.mem_cons_of_mem _ hl)) (String.toList_inj.mp hrest)]

theorem not_mem_of_mem_splitOnP {p : Char → Bool} {c : Char} (hc : p c = true)
    (cs : List Char) : ∀ piece ∈ cs.splitOnP p, c ∉ piece := by
  induction cs with
  | nil => simp
  | cons d cs ih =>
      intro piece hp
      rw [List.splitOnP_cons_eq_if_modifyHead] at hp
      split at hp
      · rcases List.mem_cons.mp hp with rfl | hp
        · simp
        · exact ih piece hp
      · rename_i hd
        rcases hps : cs.splitOnP p with _ | ⟨q, qs⟩
        · exact absurd hps (List.splitOnP_ne_nil _ _)
        · rw [hps] at hp ih
          rcases List.mem_cons.mp hp with rfl | hp
          · have hq := ih q (by simp)
            have hne : c ≠ d := by rintro rfl; exact hd hc
            simp [hq, hne]
          · exact ih piece (by simp [hp])

theorem not_mem_stripCr {c : Char} {line : List Char} (h : c ∉ line) :
    c ∉ stripCr line := by
  unfold stripCr
  split
  · exact fun hm => h (List.dropLast_subset _ hm)
  · exact h

theorem no_newline_of_mem_lines {s l : String} (hl : l ∈ lines s) :
    '\n' ∉ l.toList := by
  have hpiece := not_mem_of_mem_splitOnP (p := (· == '\n')) (c := '\n') (by simp) s.toList
  set pieces := s.toList.splitOnP (· == '\n') with hpc
  have hended : ∀ l ∈ pieces.dropLast.map (fun l => String.ofList (stripCr l)),
      '\n' ∉ l.toList := by
    intro l hl
    obtain ⟨piece, hp, rfl⟩ := List.mem_map.mp hl
    rw [String.toList_ofList]
    exact not_mem_stripCr (hpiece _ (List.dropLast_subset _ hp))
  unfold lines at hl
  simp only [← hpc] at hl
  split at hl
  · rename_i c cs hlast
    rcases List.mem_append.mp hl with hl | hl
    · exact hended l hl
    · have hl' : l = String.ofList (c :: cs) := by simpa using hl
      rw [hl', String.toList_ofList]
      exact hpiece _ (List.mem_of_getLast? hlast)
  · exact hended l hl

/-! ## Printed numbers and lists read back -/

theorem parseDigits_of_isDigit {cs : List Char} (hne : cs ≠ [])
    (h : ∀ c ∈ cs, c.isDigit = true) : parseDigits cs = some (Nat.ofDigitChars 10 cs 0) := by
  have key : ∀ (cs : List Char) (acc : Nat), (∀ c ∈ cs, c.isDigit = true) →
      cs.foldl (fun acc c => acc.bind fun n =>
        if c.isDigit then some (10 * n + (c.toNat - '0'.toNat)) else none) (some acc) =
          some (Nat.ofDigitChars 10 cs acc) := by
    intro cs
    induction cs with
    | nil => intro acc _; simp
    | cons c cs ih =>
        intro acc h
        rw [List.foldl_cons, Option.bind_some, if_pos (h c List.mem_cons_self),
          ih _ fun d hd => h d (List.mem_cons_of_mem _ hd), Nat.ofDigitChars_cons]
  rw [parseDigits, if_neg (by simpa using hne)]
  exact key cs 0 h

theorem isDigit_of_parseDigits {cs : List Char} {n : Nat} (h : parseDigits cs = some n) :
    ∀ c ∈ cs, c.isDigit = true := by
  have hnone : ∀ cs : List Char, cs.foldl (fun acc c => acc.bind fun n =>
      if c.isDigit then some (10 * n + (c.toNat - '0'.toNat)) else none) (none : Option Nat) =
        none := by
    intro cs
    induction cs with
    | nil => rfl
    | cons c cs ih => exact ih
  have key : ∀ (cs : List Char) (acc : Nat), cs.foldl (fun acc c => acc.bind fun n =>
      if c.isDigit then some (10 * n + (c.toNat - '0'.toNat)) else none) (some acc) = some n →
        ∀ c ∈ cs, c.isDigit = true := by
    intro cs
    induction cs with
    | nil => simp
    | cons d cs ih =>
        intro acc hcs c hc
        rw [List.foldl_cons, Option.bind_some] at hcs
        split at hcs
        · rename_i hd
          rcases List.mem_cons.mp hc with rfl | hc
          · exact hd
          · exact ih _ hcs c hc
        · rw [hnone] at hcs
          exact absurd hcs (by simp)
  unfold parseDigits at h
  split at h
  · exact absurd h (by simp)
  · exact key cs 0 h

theorem char_of_parseUsize {s : String} {n : Nat} (h : parseUsize s = some n) :
    ∀ c ∈ s.toList, c.isDigit = true ∨ c = '+' := by
  intro c hc
  have hdigits := (Option.filter_eq_some_iff.mp h).1
  split at hdigits
  · rename_i cs hcs
    rw [hcs] at hc
    rcases List.mem_cons.mp hc with rfl | hc
    · exact Or.inr rfl
    · exact Or.inl (isDigit_of_parseDigits hdigits c hc)
  · exact Or.inl (isDigit_of_parseDigits hdigits c hc)

theorem isDigit_of_mem_repr {n : Nat} {c : Char} (hc : c ∈ n.repr.toList) : c.isDigit = true := by
  rw [Nat.toList_repr] at hc
  exact Nat.isDigit_of_mem_toDigits (by decide) (by decide) hc

theorem parseUsize_repr {n : Nat} (h : n < 2 ^ 64) : parseUsize n.repr = some n := by
  have hdigits : parseDigits n.repr.toList = some n := by
    rw [parseDigits_of_isDigit (by simp) fun c => isDigit_of_mem_repr, Nat.toList_repr,
      Nat.ofDigitChars_ten_toDigits]
  unfold parseUsize
  split
  · rename_i cs hcs
    have hplus : '+' ∈ n.repr.toList := hcs ▸ List.mem_cons_self
    exact absurd (isDigit_of_mem_repr hplus) (by decide)
  · rw [hdigits, Option.filter_some, if_pos (decide_eq_true h)]

theorem trim_of_forall {s : String} (h : ∀ c ∈ s.toList, isWhitespace c = false) : trim s = s := by
  have hdrop : ∀ {l : List Char}, (∀ c ∈ l, isWhitespace c = false) →
      l.dropWhile isWhitespace = l := by
    intro l hl
    apply dropWhile_of_head
    cases l with
    | nil => rfl
    | cons c l => exact hl c List.mem_cons_self
  rw [trim, trimStart, hdrop h, String.ofList_toList, trimEnd, hdrop (by simpa using h),
    List.reverse_reverse, String.ofList_toList]

/-- A joined text falls apart again, when no piece holds a separator. -/
theorem splitAny_intercalate {sep : Char → Bool} {c : Char} (hc : sep c = true)
    {parts : List String} (hne : parts ≠ [])
    (h : ∀ part ∈ parts, ∀ d ∈ part.toList, sep d = false) :
    splitAny sep ((String.singleton c).intercalate parts) = parts := by
  induction parts with
  | nil => exact absurd rfl hne
  | cons part parts ih =>
      have hpart := h part List.mem_cons_self
      by_cases hrest : parts = []
      · subst hrest
        rw [String.intercalate_singleton, splitAny, List.splitOnP_eq_singleton hpart]
        simp
      · have hsplit := List.splitOnP_append_cons_of_forall_mem hpart c hc
          ((String.singleton c).intercalate parts).toList
        rw [String.intercalate_cons_of_ne_nil hrest, splitAny, String.toList_append,
          String.toList_append, String.toList_singleton, List.append_assoc, List.singleton_append,
          hsplit, List.map_cons, String.ofList_toList]
        congr 1
        exact ih hrest fun p hp => h p (List.mem_cons_of_mem _ hp)

theorem splitAny_append {sep : Char → Bool} {c : Char} (hc : sep c = true) (a b : String) :
    splitAny sep (a ++ String.singleton c ++ b) = splitAny sep a ++ splitAny sep b := by
  have hchars : (a ++ String.singleton c ++ b).toList = a.toList ++ c :: b.toList := by simp
  rw [splitAny, hchars, List.splitOnP_append_cons _ _ hc, List.map_append]
  rfl

theorem splitOnce_append {c : Char} {a : String} (h : c ∉ a.toList) (b : String) :
    splitOnce (a ++ String.singleton c ++ b) c = some (a, b) := by
  have hchars : (a ++ String.singleton c ++ b).toList = a.toList ++ c :: b.toList := by simp
  have hdrop : (a.toList ++ c :: b.toList).dropWhile (· != c) = c :: b.toList := by
    rw [List.dropWhile_append_of_pos]
    · simp
    · intro d hd
      have hne : d ≠ c := by rintro rfl; exact h hd
      simpa using hne
  rw [splitOnce, containsChar, hchars, if_pos (by simp), takeWhile_append_cons h, hdrop]
  simp

theorem head?_intercalate (sep : String) {parts : List String} (hne : parts ≠ [])
    (h : ∀ p ∈ parts, p.toList ≠ []) :
    ∃ p ∈ parts, (sep.intercalate parts).toList.head? = p.toList.head? := by
  cases parts with
  | nil => exact absurd rfl hne
  | cons p parts =>
      refine ⟨p, List.mem_cons_self, ?_⟩
      by_cases hrest : parts = []
      · rw [hrest, String.intercalate_singleton]
      · rw [String.intercalate_cons_of_ne_nil hrest, String.toList_append, String.toList_append,
          List.append_assoc, List.head?_append_of_ne_nil _ (h p List.mem_cons_self)]

theorem getLast?_intercalate (sep : String) {parts : List String} (hne : parts ≠ [])
    (h : ∀ p ∈ parts, p.toList ≠ []) :
    ∃ p ∈ parts, (sep.intercalate parts).toList.getLast? = p.toList.getLast? := by
  induction parts with
  | nil => exact absurd rfl hne
  | cons p parts ih =>
      by_cases hrest : parts = []
      · exact ⟨p, List.mem_cons_self, by rw [hrest, String.intercalate_singleton]⟩
      · obtain ⟨q, hq, hlast⟩ := ih hrest fun q hq => h q (List.mem_cons_of_mem p hq)
        refine ⟨q, List.mem_cons_of_mem p hq, ?_⟩
        have hnonempty : (sep.intercalate parts).toList ≠ [] := by
          intro hnil
          rw [hnil, eq_comm, List.getLast?_nil, List.getLast?_eq_none_iff] at hlast
          exact h q (List.mem_cons_of_mem p hq) hlast
        rw [String.intercalate_cons_of_ne_nil hrest, String.toList_append,
          List.getLast?_append_of_ne_nil _ hnonempty, hlast]

theorem trim_line {s : String} (hhead : s.toList.head?.any isWhitespace = false)
    (hlast : s.toList.getLast?.any isWhitespace = false) : trim (s ++ "\n") = s := by
  have hnewline : isWhitespace '\n' = true := by decide
  by_cases hempty : s.toList = []
  · obtain rfl : s = "" := String.toList_injective hempty
    decide
  · have hstart : (s.toList ++ ['\n']).dropWhile isWhitespace = s.toList ++ ['\n'] := by
      apply dropWhile_of_head
      rwa [List.head?_append_of_ne_nil _ hempty]
    have hend : ('\n' :: s.toList.reverse).dropWhile isWhitespace = s.toList.reverse := by
      rw [List.dropWhile_cons, if_pos hnewline]
      apply dropWhile_of_head
      rwa [List.head?_reverse]
    have hline : (s ++ "\n").toList = s.toList ++ ['\n'] := by
      rw [String.toList_append]
      rfl
    rw [trim, trimStart, hline, hstart, trimEnd, String.toList_ofList, List.reverse_append,
      List.reverse_singleton, List.singleton_append, hend, List.reverse_reverse,
      String.ofList_toList]

end Threadctl.Support.Text

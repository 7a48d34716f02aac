import Threadctl.Support.Text
import Mathlib.Data.List.Induction

/-!
# Words of a text

`str::split_whitespace`, and the words of texts that are put together from words.
-/

namespace Threadctl.Support.Text

/-- `str::split_whitespace`: the pieces between white space that are not empty. -/
def splitWhitespace (s : String) : List String :=
  (splitAny isWhitespace s).filter fun w => !w.isEmpty

/-- Not empty and without white space. -/
def IsWord (w : String) : Prop := w ≠ "" ∧ ∀ c ∈ w.toList, isWhitespace c = false

instance (w : String) : Decidable (IsWord w) :=
  decidable_of_iff (w ≠ "" ∧ w.toList.all (!isWhitespace ·) = true) (by simp [IsWord])

theorem isWord_append {a b : String} (ha : IsWord a) (hb : IsWord b) : IsWord (a ++ b) := by
  refine ⟨fun h => ha.1 (String.append_eq_empty_iff.mp h).1, ?_⟩
  intro c hc
  rw [String.toList_append, List.mem_append] at hc
  rcases hc with hc | hc
  · exact ha.2 c hc
  · exact hb.2 c hc

@[simp] theorem splitWhitespace_empty : splitWhitespace "" = [] := rfl

theorem splitWhitespace_word {w : String} (h : IsWord w) : splitWhitespace w = [w] := by
  have hne : w.isEmpty = false := by
    rw [Bool.eq_false_iff, Ne, String.isEmpty_iff]
    exact h.1
  rw [splitWhitespace, splitAny, List.splitOnP_eq_singleton h.2, List.map_singleton,
    String.ofList_toList, List.filter_singleton, hne]
  rfl

theorem splitWhitespace_append {c : Char} (hc : isWhitespace c = true) (a b : String) :
    splitWhitespace (a ++ String.singleton c ++ b) = splitWhitespace a ++ splitWhitespace b := by
  rw [splitWhitespace, splitAny_append hc, List.filter_append]
  rfl

theorem splitWhitespace_concat {c : Char} (hc : isWhitespace c = true) (a : String) :
    splitWhitespace (a ++ String.singleton c) = splitWhitespace a := by
  have h := splitWhitespace_append hc a ""
  rwa [String.append_empty, splitWhitespace_empty, List.append_nil] at h

/-- Words joined by white space are read back. -/
theorem splitWhitespace_intercalate {c : Char} (hc : isWhitespace c = true) {words : List String}
    (h : ∀ w ∈ words, IsWord w) :
    splitWhitespace ((String.singleton c).intercalate words) = words := by
  induction words with
  | nil => rfl
  | cons w words ih =>
      have hw := h w List.mem_cons_self
      by_cases hrest : words = []
      · subst hrest
        rw [String.intercalate_singleton, splitWhitespace_word hw]
      · rw [String.intercalate_cons_of_ne_nil hrest, splitWhitespace_append hc,
          splitWhitespace_word hw, ih fun v hv => h v (List.mem_cons_of_mem w hv),
          List.singleton_append]

theorem mem_intercalate {sep : String} {c : Char} {words : List String}
    (h : c ∈ (sep.intercalate words).toList) :
    c ∈ sep.toList ∨ ∃ w ∈ words, c ∈ w.toList := by
  induction words with
  | nil => exact absurd h (by simp)
  | cons w words ih =>
      by_cases hrest : words = []
      · subst hrest
        rw [String.intercalate_singleton] at h
        exact Or.inr ⟨w, List.mem_cons_self, h⟩
      · rw [String.intercalate_cons_of_ne_nil hrest, String.toList_append, String.toList_append,
          List.mem_append, List.mem_append] at h
        rcases h with (hw | hsep) | hwords
        · exact Or.inr ⟨w, List.mem_cons_self, hw⟩
        · exact Or.inl hsep
        · rcases ih hwords with hsep | ⟨v, hv, hc⟩
          · exact Or.inl hsep
          · exact Or.inr ⟨v, List.mem_cons_of_mem w hv, hc⟩

/-- White space at the ends of a text does not matter to its words. -/
theorem splitWhitespace_trim (s : String) : splitWhitespace (trim s) = splitWhitespace s := by
  have hstart : ∀ cs : List Char,
      splitWhitespace (String.ofList (cs.dropWhile isWhitespace)) =
        splitWhitespace (String.ofList cs) := by
    intro cs
    induction cs with
    | nil => rfl
    | cons c cs ih =>
        cases hc : isWhitespace c with
        | false => rw [List.dropWhile_cons_of_neg (by simp [hc])]
        | true =>
            have hsplit := splitWhitespace_append hc "" (String.ofList cs)
            have hchars : "" ++ String.singleton c ++ String.ofList cs =
                String.ofList (c :: cs) := by
              apply String.toList_inj.mp
              simp
            rw [hchars, splitWhitespace_empty, List.nil_append] at hsplit
            rw [List.dropWhile_cons_of_pos hc, ih, hsplit]
  have hend : ∀ cs : List Char,
      splitWhitespace (String.ofList (cs.reverse.dropWhile isWhitespace).reverse) =
        splitWhitespace (String.ofList cs) := by
    intro cs
    induction cs using List.reverseRecOn with
    | nil => rfl
    | append_singleton cs c ih =>
        rw [List.reverse_append, List.reverse_singleton, List.singleton_append]
        cases hc : isWhitespace c with
        | false =>
            rw [List.dropWhile_cons_of_neg (by simp [hc]), List.reverse_cons, List.reverse_reverse]
        | true =>
            have hsplit := splitWhitespace_concat hc (String.ofList cs)
            have hchars : String.ofList cs ++ String.singleton c = String.ofList (cs ++ [c]) := by
              apply String.toList_inj.mp
              simp
            rw [hchars] at hsplit
            rw [List.dropWhile_cons_of_pos hc, ih, hsplit]
  rw [trim, trimEnd, hend, String.ofList_toList, trimStart, hstart, String.ofList_toList]

end Threadctl.Support.Text

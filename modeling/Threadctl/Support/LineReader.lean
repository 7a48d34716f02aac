import Threadctl.Support.Text

/-!
# Lines read from a stream of bytes

`BufRead::read_line` through `Read::take`: bytes are read up to the first line feed, to the
limit or to the end of the stream, and have to be the UTF-8 of a text.
-/

namespace Threadctl.Support.LineReader

def textBytes (s : String) : List UInt8 := s.toList.flatMap String.utf8EncodeChar

/-- `String::from_utf8`. -/
def decodeText (bytes : List UInt8) : Option String := String.fromUTF8? bytes.toByteArray

def lineFeed : UInt8 := 10

/-- The bytes up to the first line feed, which is one of them. -/
def firstLine : List UInt8 → List UInt8
  | [] => []
  | b :: bytes => if b = lineFeed then [b] else b :: firstLine bytes

/-- What is read of a stream that has brought these bytes so far. -/
def readLine (limit : Nat) (bytes : List UInt8) : Option String :=
  decodeText (firstLine (bytes.take limit))

/-- Nothing more is read, however the stream goes on. -/
def LineRead (limit : Nat) (bytes : List UInt8) : Prop :=
  lineFeed ∈ bytes.take limit ∨ limit ≤ bytes.length

instance (limit : Nat) (bytes : List UInt8) : Decidable (LineRead limit bytes) :=
  inferInstanceAs (Decidable (_ ∨ _))

/-! ## Bytes of texts -/

@[simp] theorem textBytes_append (s t : String) :
    textBytes (s ++ t) = textBytes s ++ textBytes t := by
  rw [textBytes, String.toList_append, List.flatMap_append]
  rfl

theorem toByteArray_textBytes (s : String) : (textBytes s).toByteArray = s.toByteArray := by
  have h : s.toByteArray = s.toList.utf8Encode := by
    rw [← String.toByteArray_ofList, String.ofList_toList]
  rw [h]
  rfl

theorem decodeText_textBytes (s : String) : decodeText (textBytes s) = some s := by
  have hvalid : (textBytes s).toByteArray.IsValidUTF8 := by
    rw [toByteArray_textBytes]
    exact s.isValidUTF8
  rw [decodeText, String.fromUTF8?, dif_pos hvalid, Option.some.injEq, ← String.toByteArray_inj]
  exact toByteArray_textBytes s

theorem eq_of_lineFeed_eq {n : Nat} (hn : n < 256) (h : lineFeed = UInt8.ofNat n) : n = 10 := by
  have hnat := congrArg UInt8.toNat h
  rw [UInt8.toNat_ofNat_of_lt' hn] at hnat
  exact hnat.symm

/-- Only a line feed is encoded with the byte of a line feed: the bytes of the longer
encodings are all from 128 on. -/
theorem lineFeed_mem_encode {c : Char} (h : lineFeed ∈ String.utf8EncodeChar c) : c = '\n' := by
  unfold String.utf8EncodeChar at h
  dsimp only at h
  split at h
  · have hten := eq_of_lineFeed_eq (by omega) (List.mem_singleton.mp h)
    exact Char.ext (UInt32.toNat_inj.mp hten)
  · have hbyte : ∃ n k m : Nat, m + k ≤ 256 ∧ 128 ≤ k ∧ 0 < m ∧
        lineFeed = UInt8.ofNat (n % m + k) := by
      split at h
      · simp only [List.mem_cons, List.not_mem_nil, or_false] at h
        rcases h with h | h <;> exact ⟨_, _, _, by decide, by decide, by decide, h⟩
      · split at h
        · simp only [List.mem_cons, List.not_mem_nil, or_false] at h
          rcases h with h | h | h <;> exact ⟨_, _, _, by decide, by decide, by decide, h⟩
        · simp only [List.mem_cons, List.not_mem_nil, or_false] at h
          rcases h with h | h | h | h <;> exact ⟨_, _, _, by decide, by decide, by decide, h⟩
    obtain ⟨n, k, m, hm, hk, hpos, heq⟩ := hbyte
    have hlt : n % m < m := Nat.mod_lt n hpos
    have hten := eq_of_lineFeed_eq (by omega) heq
    omega

theorem lineFeed_not_mem {s : String} (h : '\n' ∉ s.toList) : lineFeed ∉ textBytes s := by
  intro hmem
  obtain ⟨c, hc, hbyte⟩ := List.mem_flatMap.mp hmem
  rw [lineFeed_mem_encode hbyte] at hc
  exact h hc

/-! ## First lines -/

theorem firstLine_append {bytes : List UInt8} (h : lineFeed ∉ bytes) (rest : List UInt8) :
    firstLine (bytes ++ rest) = bytes ++ firstLine rest := by
  induction bytes with
  | nil => rfl
  | cons b bytes ih =>
      have hb : b ≠ lineFeed := fun hb => h (hb ▸ List.mem_cons_self)
      rw [List.cons_append, firstLine, if_neg hb, ih fun hmem => h (List.mem_cons_of_mem b hmem),
        List.cons_append]

theorem firstLine_append_of_mem {bytes : List UInt8} (h : lineFeed ∈ bytes) (rest : List UInt8) :
    firstLine (bytes ++ rest) = firstLine bytes := by
  induction bytes with
  | nil => exact absurd h List.not_mem_nil
  | cons b bytes ih =>
      by_cases hb : b = lineFeed
      · rw [List.cons_append, firstLine, firstLine, if_pos hb, if_pos hb]
      · have hmem : lineFeed ∈ bytes := (List.mem_cons.mp h).resolve_left fun he => hb he.symm
        rw [List.cons_append, firstLine, firstLine, if_neg hb, if_neg hb, ih hmem]

theorem LineRead.append {limit : Nat} {bytes : List UInt8} (h : LineRead limit bytes)
    (more : List UInt8) : LineRead limit (bytes ++ more) := by
  rcases h with hfeed | hfull
  · left
    rw [List.take_append]
    exact List.mem_append_left _ hfeed
  · right
    rw [List.length_append]
    omega

/-- A line that has been read does not change when more arrives. -/
theorem readLine_append {limit : Nat} {bytes : List UInt8} (h : LineRead limit bytes)
    (more : List UInt8) : readLine limit (bytes ++ more) = readLine limit bytes := by
  unfold readLine
  rcases h with hfeed | hfull
  · rw [List.take_append, firstLine_append_of_mem hfeed]
  · rw [List.take_append_of_le_length hfull]

/-- A line of a text, within the limit, is read with its line feed. -/
theorem readLine_line {limit : Nat} {s : String} (h : '\n' ∉ s.toList)
    (hlimit : (textBytes s).length < limit) (rest : List UInt8) :
    LineRead limit (textBytes s ++ lineFeed :: rest) ∧
      readLine limit (textBytes s ++ lineFeed :: rest) = some (s ++ "\n") := by
  have hfeed : textBytes "\n" = [lineFeed] := rfl
  obtain ⟨n, rfl⟩ : ∃ n, limit = (textBytes s).length + (n + 1) :=
    ⟨limit - (textBytes s).length - 1, by omega⟩
  have htake : (textBytes s ++ lineFeed :: rest).take ((textBytes s).length + (n + 1)) =
      textBytes s ++ lineFeed :: rest.take n := by
    rw [List.take_length_add_append, List.take_succ_cons]
  have hline : firstLine (textBytes s ++ lineFeed :: rest.take n) = textBytes (s ++ "\n") := by
    rw [firstLine_append (lineFeed_not_mem h), textBytes_append, hfeed, firstLine, if_pos rfl]
  constructor
  · left
    rw [htake]
    exact List.mem_append_right _ List.mem_cons_self
  · rw [readLine, htake, hline, decodeText_textBytes]

end Threadctl.Support.LineReader

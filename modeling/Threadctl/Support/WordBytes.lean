import Mathlib.Data.Nat.Digits.Lemmas

/-!
# Words in memory

A word of a fixed number of bytes, the lowest byte first, and where it is read back.
-/

namespace Threadctl.Support.WordBytes

def wordBytes (width value : ℕ) : List UInt8 :=
  (Nat.digitsAppend 256 width value).map UInt8.ofNat

/-- The word of `width` bytes that begins at `offset`. -/
def wordAt (bytes : List UInt8) (offset width : ℕ) : ℕ :=
  Nat.ofDigits 256 (((bytes.drop offset).take width).map UInt8.toNat)

variable {width value : ℕ}

theorem length_wordBytes (h : value < 256 ^ width) : (wordBytes width value).length = width := by
  rw [wordBytes, List.length_map, Nat.length_digitsAppend (by decide) width h]

theorem toNat_wordBytes (width value : ℕ) :
    (wordBytes width value).map UInt8.toNat = Nat.digitsAppend 256 width value := by
  have hdigit : ∀ d ∈ Nat.digitsAppend 256 width value, (UInt8.ofNat d).toNat = d := by
    intro d hd
    have hlt : d < 256 := Nat.lt_of_mem_digitsAppend (by decide) width d hd
    exact UInt8.toNat_ofNat_of_lt' hlt
  rw [wordBytes, List.map_map]
  exact (List.map_congr_left hdigit).trans (List.map_id _)

/-- A word is read back where it stands. -/
theorem wordAt_wordBytes (h : value < 256 ^ width) (front back : List UInt8) :
    wordAt (front ++ (wordBytes width value ++ back)) front.length width = value := by
  have htake : (wordBytes width value ++ back).take width = wordBytes width value := by
    rw [List.take_append_of_le_length (length_wordBytes h).ge,
      List.take_of_length_le (length_wordBytes h).le]
  rw [wordAt, List.drop_left, htake, toNat_wordBytes]
  exact (Nat.setInvOn_digitsAppend_ofDigits (by decide) width).2 h

end Threadctl.Support.WordBytes

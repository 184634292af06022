import Mathlib.Data.Nat.Notation

/-!
# Machinery/Utf8 — what a cut does to well-formed UTF-8

A byte list is well-formed when it encodes characters.  Its beginning is well-formed as well exactly
when no character lies across the cut, which the first byte after the cut tells.
-/

namespace Utf8

/-- **Well-formed UTF-8**: the encoding of some characters. -/
def Valid (b : List UInt8) : Prop := b.toByteArray.IsValidUTF8

/-- The characters of well-formed UTF-8. -/
def decode? (b : List UInt8) : Option (List Char) := b.toByteArray.utf8Decode?.map (·.toList)

theorem isSome_decode? {b : List UInt8} : (decode? b).isSome = true ↔ Valid b := by
  rw [decode?, Option.isSome_map, ByteArray.isSome_utf8Decode?_iff]
  rfl

/-- A character lies across the offset `n`. -/
def Straddles (b : List UInt8) (n : ℕ) : Prop := ∃ c ∈ b[n]?, ¬ c.IsUTF8FirstByte

theorem toByteArray_take (b : List UInt8) (n : ℕ) :
    (b.take n).toByteArray = b.toByteArray.extract 0 n := by
  refine ByteArray.ext ?_
  rw [ByteArray.data_extract, List.data_toByteArray, List.data_toByteArray, List.extract_toArray]
  simp

/-- **The beginning of well-formed UTF-8** is well-formed when no character lies across the cut. -/
theorem valid_take {b : List UInt8} (h : Valid b) (n : ℕ) : Valid (b.take n) ↔ ¬ Straddles b n := by
  rcases Nat.lt_or_ge n b.length with hn | hn
  · have hsize : (String.ofByteArray b.toByteArray h).rawEndPos = ⟨b.length⟩ :=
      congrArg String.Pos.Raw.mk List.size_toByteArray
    have hlt : (⟨n⟩ : String.Pos.Raw) < (String.ofByteArray b.toByteArray h).rawEndPos := by
      rw [hsize]
      exact hn
    have hne : (⟨n⟩ : String.Pos.Raw) ≠ (String.ofByteArray b.toByteArray h).rawEndPos :=
      fun heq => by
      rw [hsize] at heq
      exact Nat.ne_of_lt hn (congrArg String.Pos.Raw.byteIdx heq)
    have hboundary : (⟨n⟩ : String.Pos.Raw).IsValid ⟨b.toByteArray, h⟩ ↔ Valid (b.take n) := by
      rw [String.Pos.Raw.isValid_iff_isValidUTF8_extract_zero, Valid, toByteArray_take]
      exact and_iff_right (Nat.le_of_lt hlt)
    have hbyte : String.getUTF8Byte ⟨b.toByteArray, h⟩ ⟨n⟩ hlt = b[n] := List.getElem_toByteArray
    rw [← hboundary, String.Pos.Raw.isValid_iff_isUTF8FirstByte, or_iff_right hne,
      exists_prop_of_true hlt, hbyte, Straddles, List.getElem?_eq_getElem hn]
    simp
  · have hnone : b[n]? = none := List.getElem?_eq_none hn
    rw [List.take_of_length_le hn]
    refine iff_of_true h ?_
    rintro ⟨c, hc, -⟩
    rw [hnone] at hc
    cases hc

/-- What characters encode is well-formed. -/
theorem valid_encode (cs : List Char) : Valid (cs.flatMap String.utf8EncodeChar) :=
  ⟨cs, rfl⟩

/-- **What characters encode is decoded to them.** -/
theorem decode?_encode (cs : List Char) : decode? (cs.flatMap String.utf8EncodeChar) = some cs := by
  have hdecode : (cs.flatMap String.utf8EncodeChar).toByteArray.utf8Decode? = some cs.toArray :=
    List.utf8Decode?_utf8Encode
  rw [decode?, hdecode]
  rfl

end Utf8

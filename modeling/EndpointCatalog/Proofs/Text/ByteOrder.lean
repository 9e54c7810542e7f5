import EndpointCatalog.Proofs.Text.Lines
import Mathlib.Data.String.Basic

/-! Text in the order of its bytes. The bytes of a greater character are greater, whatever
stands behind them, so texts that are compared character by character are compared by
their bytes. -/

namespace EndpointCatalog.Text

namespace Utf8

theorem encodeChar_append_lt {c d : Char} (h : c < d) (s t : Bytes) :
    encodeChar c ++ s < encodeChar d ++ t := by
  have hvalid (c : Char) : c.toNat < 0x110000 := by
    have : c.toNat < 0xD800 ∨ 0xDFFF < c.toNat ∧ c.toNat < 0x110000 := c.valid
    omega
  have hc := hvalid c
  have hd := hvalid d
  have hlt : c.toNat < d.toNat := h
  -- Either the first bytes tell the lengths apart, or the digits to base 64 are compared.
  rw [encodeChar, encodeChar]
  split_ifs <;>
    simp (disch := omega) only [List.cons_append, List.nil_append, List.cons_lt_cons_iff,
      UInt8.lt_iff_toNat_lt, ← UInt8.toNat_inj, toNat_ofNat] <;> omega

theorem encodeChar_ne_nil (c : Char) : encodeChar c ≠ [] := by
  rw [encodeChar]
  split_ifs <;> simp

theorem encode_lt {as bs : List Char} (h : as < bs) : encode as < encode bs := by
  induction as generalizing bs with
  | nil =>
    cases bs with
    | nil => exact absurd h (List.lt_irrefl [])
    | cons b bs =>
      obtain ⟨byte, bytes, hb⟩ := List.exists_cons_of_ne_nil (encodeChar_ne_nil b)
      rw [encode, encode, List.flatMap_cons, hb]
      exact List.nil_lt_cons byte _
  | cons a as ih =>
    cases bs with
    | nil => exact absurd h (List.not_lt_nil _)
    | cons b bs =>
      rw [encode, encode, List.flatMap_cons, List.flatMap_cons]
      rcases List.cons_lt_cons_iff.1 h with hab | ⟨rfl, hrest⟩
      · exact encodeChar_append_lt hab _ _
      · exact List.append_left_lt (ih hrest)

theorem encode_lt_iff {as bs : List Char} : encode as < encode bs ↔ as < bs := by
  refine ⟨fun h => ?_, encode_lt⟩
  by_contra hnot
  rcases eq_or_ne as bs with rfl | hne
  · exact List.lt_irrefl _ h
  · have hba : bs < as := by
      by_contra hnot'
      exact hne (List.le_antisymm hnot' hnot)
    exact List.lt_asymm h (encode_lt hba)

end Utf8

/-- The order of two texts by their bytes. -/
def BytesLt (s t : String) : Prop := Utf8.encode s.toList < Utf8.encode t.toList

theorem bytesLt_iff {s t : String} : BytesLt s t ↔ s < t := Utf8.encode_lt_iff

end EndpointCatalog.Text

import Mathlib.Tactic

set_option autoImplicit false

/-! # The order of bytes

Texts are compared character by character, by code points. Written in UTF-8 they stand in the same
order when they are compared byte by byte (`lt_iff_bytes_lt`): the first byte of a character tells
how long it is, longer ones belong to greater code points, and among characters of one length the
bytes are the digits of the code point, the highest first.
-/

namespace PocketShell.Text

/-- The bytes of a text in UTF-8. -/
def bytes (s : String) : List UInt8 := s.toByteArray.data.toList

theorem bytes_eq (s : String) : bytes s = s.toList.flatMap String.utf8EncodeChar := by
  rw [bytes, ← String.utf8Encode_toList, List.utf8Encode, List.data_toByteArray]

/-- Lists of bytes are compared at their first bytes, and after them if these are the same. -/
theorem byte_cons_lt_iff {m n : Nat} (hm : m < 256) (hn : n < 256) {rest other : List UInt8} :
    UInt8.ofNat m :: rest < UInt8.ofNat n :: other ↔ m < n ∨ m = n ∧ rest < other := by
  rw [List.cons_lt_cons_iff, UInt8.lt_iff_toNat_lt, ← UInt8.toNat_inj, UInt8.toNat_ofNat_of_lt' hm,
    UInt8.toNat_ofNat_of_lt' hn]

/-- **A smaller character has smaller bytes**, whatever follows it. -/
theorem encodeChar_append_lt {c d : Char} (h : c < d) (rest other : List UInt8) :
    String.utf8EncodeChar c ++ rest < String.utf8EncodeChar d ++ other := by
  have hlt : c.val.toNat < d.val.toNat := h
  have hmax : d.val.toNat < 0x110000 := by
    have hvalid := d.valid
    simp only [UInt32.isValidChar, Nat.isValidChar] at hvalid
    omega
  -- digits to the base 64
  have htwo : ∀ n : Nat, n / 4096 = n / 64 / 64 := fun n => (Nat.div_div_eq_div_mul n 64 64).symm
  have hthree : ∀ n : Nat, n / 262144 = n / 64 / 64 / 64 := fun n => by
    rw [← htwo, Nat.div_div_eq_div_mul]
  rw [String.utf8EncodeChar, String.utf8EncodeChar]
  generalize c.val.toNat = v at hlt ⊢
  generalize d.val.toNat = w at hlt hmax ⊢
  -- the first bytes tell the lengths apart, and the digits decide where these are the same
  split_ifs <;>
    simp (disch := omega) only [List.cons_append, List.nil_append, byte_cons_lt_iff, htwo,
      hthree] <;>
    omega

/-- **The order of texts is that of their bytes.** -/
theorem lt_iff_bytes_lt {a b : String} : a < b ↔ bytes a < bytes b := by
  have hmono : ∀ {cs ds : List Char}, cs < ds →
      cs.flatMap String.utf8EncodeChar < ds.flatMap String.utf8EncodeChar := by
    intro cs ds h
    induction h with
    | @nil d ds =>
        rw [List.flatMap_nil, List.flatMap_cons]
        cases hd : String.utf8EncodeChar d with
        | nil => exact absurd (hd ▸ String.length_utf8EncodeChar d) (by simpa using d.utf8Size_pos.ne)
        | cons first more => exact List.nil_lt_cons first _
    | @cons c cs ds h ih =>
        rw [List.flatMap_cons, List.flatMap_cons]
        exact List.append_left_lt ih
    | rel h =>
        rw [List.flatMap_cons, List.flatMap_cons]
        exact encodeChar_append_lt h _ _
  have hlt : ∀ {a b : String}, a < b → bytes a < bytes b := by
    intro a b h
    rw [bytes_eq, bytes_eq]
    exact hmono h
  refine ⟨hlt, fun h => ?_⟩
  by_contra hnot
  by_cases hba : b < a
  · exact List.lt_asymm h (hlt hba)
  · rw [String.le_antisymm (String.not_lt.mp hba) (String.not_lt.mp hnot)] at h
    exact List.lt_irrefl _ h

end PocketShell.Text

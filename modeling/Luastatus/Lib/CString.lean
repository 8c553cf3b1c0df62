import Luastatus.Lib.Bytes
import Mathlib.Order.Defs.LinearOrder

/-!
# C strings

A C string is a string of bytes without a NUL byte.  `strcmp` compares two of them byte by byte, as
unsigned numbers, the end counting as zero.  Its sign is that of the lexicographic order, which is
the linear order of C strings here.
-/

namespace Text

/-- A C string, without its terminator. -/
structure CString where
  bytes : Bytes
  noNul : (0 : Byte) ∉ bytes
deriving DecidableEq

@[ext] theorem CString.ext {s t : CString} (h : s.bytes = t.bytes) : s = t := by
  cases s
  cases t
  cases h
  rfl

/-- `strcmp` on the bytes. -/
def strcmpBytes : Bytes → Bytes → Int
  | [], [] => 0
  | [], b :: _ => 0 - (b.toNat : Int)
  | a :: _, [] => a.toNat
  | a :: as, b :: bs => if a = b then strcmpBytes as bs else (a.toNat : Int) - b.toNat

/-- `strcmp`. -/
def strcmp (s t : CString) : Int := strcmpBytes s.bytes t.bytes

theorem toNat_pos_of_ne_zero {b : Byte} (h : (0 : Byte) ≠ b) : 0 < b.toNat := by
  rcases Nat.eq_zero_or_pos b.toNat with hz | hp
  · exact absurd (UInt8.toNat_inj.mp hz).symm h
  · exact hp

theorem strcmpBytes_eq_zero {as bs : Bytes} (ha : (0 : Byte) ∉ as) (hb : (0 : Byte) ∉ bs) :
    strcmpBytes as bs = 0 ↔ as = bs := by
  induction as generalizing bs with
  | nil =>
      cases bs with
      | nil => simp [strcmpBytes]
      | cons b bs =>
          have := toNat_pos_of_ne_zero (List.ne_of_not_mem_cons hb)
          simp only [strcmpBytes, reduceCtorEq, iff_false]
          omega
  | cons a as ih =>
      cases bs with
      | nil =>
          have := toNat_pos_of_ne_zero (List.ne_of_not_mem_cons ha)
          simp only [strcmpBytes, reduceCtorEq, iff_false]
          omega
      | cons b bs =>
          rw [strcmpBytes, List.cons_eq_cons]
          split
          · rename_i h
            rw [ih (List.not_mem_of_not_mem_cons ha) (List.not_mem_of_not_mem_cons hb)]
            simp [h]
          · rename_i h
            have hne : a.toNat ≠ b.toNat := fun he => h (UInt8.toNat_inj.mp he)
            simp only [h, false_and, iff_false]
            omega

theorem strcmpBytes_lt_zero {as bs : Bytes} (hb : (0 : Byte) ∉ bs) :
    strcmpBytes as bs < 0 ↔ as < bs := by
  induction as generalizing bs with
  | nil =>
      cases bs with
      | nil => simp [strcmpBytes]
      | cons b bs =>
          have := toNat_pos_of_ne_zero (List.ne_of_not_mem_cons hb)
          simp only [strcmpBytes, List.nil_lt_cons, iff_true]
          omega
  | cons a as ih =>
      cases bs with
      | nil =>
          simp only [strcmpBytes, List.not_lt_nil, iff_false]
          omega
      | cons b bs =>
          rw [strcmpBytes, List.cons_lt_cons_iff, UInt8.lt_iff_toNat_lt]
          split
          · rename_i h
            rw [ih (List.not_mem_of_not_mem_cons hb)]
            simp [h]
          · rename_i h
            simp only [h, false_and, or_false]
            omega

theorem strcmp_eq_zero_iff {s t : CString} : strcmp s t = 0 ↔ s = t := by
  rw [strcmp, strcmpBytes_eq_zero s.noNul t.noNul, CString.ext_iff]

theorem strcmp_le_zero_iff {s t : CString} : strcmp s t ≤ 0 ↔ s.bytes ≤ t.bytes := by
  rw [Int.le_iff_lt_or_eq, List.le_iff_lt_or_eq, strcmp, strcmpBytes_lt_zero t.noNul,
    strcmpBytes_eq_zero s.noNul t.noNul]

/-- C strings in the order of `strcmp`. -/
instance : LinearOrder CString where
  le s t := strcmp s t ≤ 0
  le_refl s := strcmp_le_zero_iff.mpr (List.le_refl _)
  le_trans _ _ _ h h' := strcmp_le_zero_iff.mpr
    (List.le_trans (strcmp_le_zero_iff.mp h) (strcmp_le_zero_iff.mp h'))
  le_antisymm _ _ h h' := CString.ext
    (List.le_antisymm (strcmp_le_zero_iff.mp h) (strcmp_le_zero_iff.mp h'))
  le_total _ _ := (List.le_total _ _).imp strcmp_le_zero_iff.mpr strcmp_le_zero_iff.mpr
  toDecidableLE s t := Int.decLe (strcmp s t) 0
  toDecidableEq := inferInstance

end Text

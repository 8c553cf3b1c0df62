import Luastatus.Lib.Bytes

/-!
# Words in memory

A word is stored as its bytes, the least significant one first.
-/

namespace Text

/-- The lowest `w` bytes of a number. -/
def toLE : Nat → Nat → Bytes
  | 0, _ => []
  | w + 1, n => UInt8.ofNat n :: toLE w (n / 256)

/-- The number that is stored in the bytes. -/
def ofLE : Bytes → Nat
  | [] => 0
  | b :: bs => b.toNat + 256 * ofLE bs

@[simp] theorem length_toLE (w n : Nat) : (toLE w n).length = w := by
  induction w generalizing n with
  | zero => rfl
  | succ w ih => rw [toLE, List.length_cons, ih]

theorem ofLE_toLE {w n : Nat} (h : n < 256 ^ w) : ofLE (toLE w n) = n := by
  induction w generalizing n with
  | zero =>
      rw [Nat.pow_zero] at h
      rw [toLE, ofLE]
      omega
  | succ w ih =>
      have hdiv : n / 256 < 256 ^ w := by
        rw [Nat.pow_succ] at h
        exact Nat.div_lt_of_lt_mul (by omega)
      rw [toLE, ofLE, ih hdiv, UInt8.toNat_ofNat']
      omega

/-- The 32-bit word at an offset. -/
def readWord (buf : Bytes) (off : Nat) : BitVec 32 := BitVec.ofNat 32 (ofLE ((buf.drop off).take 4))

/-- The bytes of a 32-bit word. -/
def wordBytes (v : BitVec 32) : Bytes := toLE 4 v.toNat

@[simp] theorem length_wordBytes (v : BitVec 32) : (wordBytes v).length = 4 := length_toLE ..

theorem readWord_append {buf rest : Bytes} {off : Nat} {v : BitVec 32}
    (h : buf.drop off = wordBytes v ++ rest) : readWord buf off = v := by
  rw [readWord, h, List.take_left' (length_wordBytes v), wordBytes, ofLE_toLE v.isLt,
    BitVec.ofNat_toNat, BitVec.setWidth_eq]

end Text

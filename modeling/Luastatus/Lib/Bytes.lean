import Mathlib.Data.Nat.Digits.Defs
import Mathlib.Data.Nat.Digits.Lemmas

/-!
# Byte strings

C strings, buffers and files are lists of bytes.  A literal is written as a string and read byte
by byte (`lit`), a character constant as a character (`ch`).

`decimal n` is what `printf` writes for `%zu`, `digitValue` reads one digit back, and
`ofDecimal_decimal` says that reading the digits of `decimal n` from the left gives `n`.
-/

namespace Text

abbrev Byte := UInt8

abbrev Bytes := List UInt8

/-- The byte of an ASCII character. -/
def ch (c : Char) : Byte := UInt8.ofNat c.toNat

/-- The bytes of an ASCII string. -/
def lit (s : String) : Bytes := s.toList.map ch

/-! ## Decimal numbers -/

/-- The byte of a decimal digit. -/
def digitByte (d : Nat) : Byte := UInt8.ofNat (48 + d)

/-- The decimal representation of a number. -/
def decimal (n : Nat) : Bytes :=
  if n = 0 then [digitByte 0] else (Nat.digits 10 n).reverse.map digitByte

/-- The value of a byte, if it is a decimal digit. -/
def digitValue (b : Byte) : Option Nat :=
  if 48 ≤ b.toNat ∧ b.toNat ≤ 57 then some (b.toNat - 48) else none

/-- The number a list of digits denotes, most significant first, continuing `acc`. -/
def ofDigitsFrom (acc : Nat) : List Nat → Nat
  | [] => acc
  | d :: ds => ofDigitsFrom (10 * acc + d) ds

/-- The number that a string of digits denotes, if it is one. -/
def decimalValue (s : Bytes) : Option Nat :=
  if s = [] then none else (s.mapM digitValue).map (ofDigitsFrom 0)

theorem digitByte_toNat {d : Nat} (h : d < 10) : (digitByte d).toNat = 48 + d := by
  rw [digitByte, UInt8.toNat_ofNat']
  omega

@[simp] theorem digitValue_digitByte {d : Nat} (h : d < 10) :
    digitValue (digitByte d) = some d := by
  rw [digitValue, digitByte_toNat h, if_pos (by omega)]
  congr
  omega

/-- The digits of a decimal number. -/
def decimalDigits (n : Nat) : List Nat := if n = 0 then [0] else (Nat.digits 10 n).reverse

theorem decimal_eq_map (n : Nat) : decimal n = (decimalDigits n).map digitByte := by
  unfold decimal decimalDigits
  split <;> rfl

theorem decimalDigits_lt {n d : Nat} (h : d ∈ decimalDigits n) : d < 10 := by
  unfold decimalDigits at h
  split at h
  · rw [List.mem_singleton] at h
    omega
  · exact Nat.digits_lt_base (by omega) (List.mem_reverse.mp h)

theorem decimalDigits_ne_nil (n : Nat) : decimalDigits n ≠ [] := by
  unfold decimalDigits
  split
  · simp
  · rename_i h
    simpa [Nat.digits_ne_nil_iff_ne_zero] using h

theorem decimal_ne_nil (n : Nat) : decimal n ≠ [] := by
  rw [decimal_eq_map]
  simpa using decimalDigits_ne_nil n

/-- Every byte of a decimal number is a digit. -/
theorem mem_decimal {n : Nat} {b : Byte} (h : b ∈ decimal n) : 48 ≤ b.toNat ∧ b.toNat ≤ 57 := by
  rw [decimal_eq_map] at h
  obtain ⟨d, hd, rfl⟩ := List.mem_map.mp h
  have := decimalDigits_lt hd
  rw [digitByte_toNat this]
  omega

theorem ofDigitsFrom_append (acc : Nat) (ds : List Nat) (d : Nat) :
    ofDigitsFrom acc (ds ++ [d]) = 10 * ofDigitsFrom acc ds + d := by
  induction ds generalizing acc with
  | nil => rfl
  | cons e ds ih => exact ih _

theorem ofDigitsFrom_reverse (ds : List Nat) : ofDigitsFrom 0 ds.reverse = Nat.ofDigits 10 ds := by
  induction ds with
  | nil => rfl
  | cons d ds ih =>
      rw [List.reverse_cons, ofDigitsFrom_append, ih, Nat.ofDigits_cons]
      omega

/-- Reading the digits of a decimal number gives the number back. -/
theorem ofDigitsFrom_decimalDigits (n : Nat) : ofDigitsFrom 0 (decimalDigits n) = n := by
  unfold decimalDigits
  split
  · rename_i h
    rw [h]
    rfl
  · rw [ofDigitsFrom_reverse, Nat.ofDigits_digits]

theorem mapM_digitValue {ds : List Nat} (h : ∀ d ∈ ds, d < 10) :
    (ds.map digitByte).mapM digitValue = some ds := by
  induction ds with
  | nil => rfl
  | cons d ds ih =>
      rw [List.map_cons, List.mapM_cons, digitValue_digitByte (h d List.mem_cons_self),
        ih fun d' hd' => h d' (List.mem_cons_of_mem d hd')]
      rfl

/-- A decimal number denotes itself. -/
theorem decimalValue_decimal (n : Nat) : decimalValue (decimal n) = some n := by
  rw [decimalValue, if_neg (decimal_ne_nil n), decimal_eq_map,
    mapM_digitValue fun d => decimalDigits_lt, Option.map_some, ofDigitsFrom_decimalDigits]

theorem le_ofDigitsFrom (acc : Nat) (ds : List Nat) : acc ≤ ofDigitsFrom acc ds := by
  induction ds generalizing acc with
  | nil => exact Nat.le_refl _
  | cons d ds ih =>
      have := ih (10 * acc + d)
      simp only [ofDigitsFrom]
      omega

end Text

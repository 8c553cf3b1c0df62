import Luastatus.Lib.Bytes

/-!
# Reading integers

`strtoll` and `strtoull` with base 0 skip white space, take a sign, and read a number that is
hexadecimal if it begins with `0x`, octal if it begins with `0`, and decimal otherwise.

`Spells s i` says that `s` is the integer `i` in plain decimal.  Both functions read such a string
to its end (`strtoll_of_spells`, `strtoull_of_spells`).
-/

namespace Text

/-! ## Digits -/

/-- `isspace` in the C locale. -/
def isSpace (b : Byte) : Bool := b = 32 || (9 ≤ b && b ≤ 13)

/-- The value of a byte as a digit, with the letters as the digits from ten on. -/
def alnumValue (b : Byte) : Option Nat :=
  if ch '0' ≤ b ∧ b ≤ ch '9' then some (b.toNat - 48)
  else if ch 'a' ≤ b ∧ b ≤ ch 'z' then some (b.toNat - 87)
  else if ch 'A' ≤ b ∧ b ≤ ch 'Z' then some (b.toNat - 55)
  else none

/-- The value of a byte as a digit in a base. -/
def baseDigit (base : Nat) (b : Byte) : Option Nat := (alnumValue b).filter (· < base)

/-- Read digits as long as there are any, continuing `acc`. -/
def readDigits (base acc : Nat) : Bytes → Nat × Bytes
  | [] => (acc, [])
  | b :: bs =>
      match baseDigit base b with
      | some d => readDigits base (base * acc + d) bs
      | none => (acc, b :: bs)

/-! ## Integers -/

/-- The number at the beginning of a string, if there is one, and what follows it. -/
def readUnsigned (s : Bytes) : Option (Nat × Bytes) :=
  if s.head? = some (ch '0') then
    if (s[1]? = some (ch 'x') ∨ s[1]? = some (ch 'X')) ∧
        (s[2]?.bind (baseDigit 16)).isSome then some (readDigits 16 0 (s.drop 2))
    else some (readDigits 8 0 s)
  else if (s.head?.bind (baseDigit 10)).isSome then some (readDigits 10 0 s)
  else none

/-- White space, a sign and a number: whether the sign is a minus, the number, and what follows. -/
def readSigned (s : Bytes) : Option (Bool × Nat × Bytes) :=
  let t := s.dropWhile isSpace
  if t.head? = some (ch '-') then (readUnsigned (t.drop 1)).map (true, ·)
  else if t.head? = some (ch '+') then (readUnsigned (t.drop 1)).map (false, ·)
  else (readUnsigned t).map (false, ·)

/-- What `strtoll` and `strtoull` return. -/
structure Strto where
  value : Int
  /-- What `endptr` points to. -/
  rest : Bytes
  /-- `errno` is set to `ERANGE`. -/
  erange : Bool
deriving DecidableEq, Repr

/-- The integer with a sign and an absolute value. -/
def signed (neg : Bool) (m : Nat) : Int := if neg then -m else m

/-- `strtoll` with base 0. -/
def strtoll (s : Bytes) : Strto :=
  match readSigned s with
  | none => ⟨0, s, false⟩
  | some (neg, m, rest) =>
      if signed neg m < -2 ^ 63 then ⟨-2 ^ 63, rest, true⟩
      else if 2 ^ 63 ≤ signed neg m then ⟨2 ^ 63 - 1, rest, true⟩
      else ⟨signed neg m, rest, false⟩

/-- `strtoull` with base 0.  A number with a minus is negated in the unsigned type. -/
def strtoull (s : Bytes) : Strto :=
  match readSigned s with
  | none => ⟨0, s, false⟩
  | some (neg, m, rest) =>
      if 2 ^ 64 ≤ m then ⟨2 ^ 64 - 1, rest, true⟩
      else ⟨signed neg m % 2 ^ 64, rest, false⟩

/-! ## Plain decimal -/

/-- What `printf` writes for a signed or an unsigned integer. -/
def decimalInt (i : Int) : Bytes := if i < 0 then ch '-' :: decimal i.natAbs else decimal i.natAbs

/-- The string is the integer in decimal, without leading zeros. -/
def Spells (s : Bytes) (i : Int) : Prop :=
  ∃ neg m, s = (if neg then [ch '-'] else []) ++ decimal m ∧ i = signed neg m

theorem spells_decimalInt (i : Int) : Spells (decimalInt i) i := by
  rw [decimalInt]
  split
  · exact ⟨true, i.natAbs, rfl, by rw [signed, if_pos rfl]; omega⟩
  · exact ⟨false, i.natAbs, rfl, by rw [signed, if_neg nofun]; omega⟩

theorem alnumValue_digitByte {d : Nat} (h : d < 10) : alnumValue (digitByte d) = some d := by
  have hrange : ch '0' ≤ digitByte d ∧ digitByte d ≤ ch '9' := by
    rw [UInt8.le_iff_toNat_le, UInt8.le_iff_toNat_le, digitByte_toNat h]
    have h0 : (ch '0').toNat = 48 := rfl
    have h9 : (ch '9').toNat = 57 := rfl
    omega
  rw [alnumValue, if_pos hrange, digitByte_toNat h, Nat.add_sub_cancel_left]

theorem baseDigit_digitByte {base d : Nat} (hd : d < 10) (hbase : d < base) :
    baseDigit base (digitByte d) = some d := by
  rw [baseDigit, alnumValue_digitByte hd, Option.filter_some, if_pos (by simpa using hbase)]

theorem readDigits_map {ds : List Nat} (hds : ∀ d ∈ ds, d < 10) (acc : Nat) :
    readDigits 10 acc (ds.map digitByte) = (ofDigitsFrom acc ds, []) := by
  induction ds generalizing acc with
  | nil => rfl
  | cons d ds ih =>
      have hd := hds d List.mem_cons_self
      rw [List.map_cons, readDigits, baseDigit_digitByte hd hd]
      exact ih (fun d' h => hds d' (List.mem_cons_of_mem d h)) _

/-- A positive number does not begin with a zero. -/
theorem decimal_eq_cons {n : Nat} (hn : n ≠ 0) :
    ∃ d rest, decimal n = digitByte d :: rest ∧ 0 < d ∧ d < 10 := by
  have hdigits : decimalDigits n = (Nat.digits 10 n).reverse := if_neg hn
  have hne : Nat.digits 10 n ≠ [] := Nat.digits_ne_nil_iff_ne_zero.mpr hn
  obtain ⟨d, rest, hcons⟩ := List.exists_cons_of_ne_nil (decimalDigits_ne_nil n)
  have hlast : (Nat.digits 10 n).getLast hne = d := by
    have := List.head?_reverse (l := Nat.digits 10 n)
    rw [← hdigits, hcons, List.head?_cons, List.getLast?_eq_some_getLast hne] at this
    exact (Option.some.inj this).symm
  refine ⟨d, rest.map digitByte, by rw [decimal_eq_map, hcons, List.map_cons], ?_, ?_⟩
  · exact Nat.pos_of_ne_zero (hlast ▸ Nat.getLast_digit_ne_zero 10 hn)
  · exact decimalDigits_lt (hcons ▸ List.mem_cons_self)

theorem readUnsigned_decimal (n : Nat) : readUnsigned (decimal n) = some (n, []) := by
  by_cases hn : n = 0
  · subst hn
    decide
  · obtain ⟨d, rest, hcons, hpos, hlt⟩ := decimal_eq_cons hn
    have hzero : (decimal n).head? ≠ some (ch '0') := by
      rw [hcons, List.head?_cons]
      intro he
      have := congrArg UInt8.toNat (Option.some.inj he)
      rw [digitByte_toNat hlt] at this
      have h0 : (ch '0').toNat = 48 := rfl
      omega
    have hdigit : ((decimal n).head?.bind (baseDigit 10)).isSome := by
      rw [hcons, List.head?_cons, Option.bind_some, baseDigit_digitByte hlt hlt]
      rfl
    rw [readUnsigned, if_neg hzero, if_pos hdigit, decimal_eq_map,
      readDigits_map (fun _ => decimalDigits_lt), ofDigitsFrom_decimalDigits]

/-- A number begins with a digit. -/
theorem head?_decimal (n : Nat) :
    ∃ b rest, decimal n = b :: rest ∧ isSpace b = false ∧ b ≠ ch '-' ∧ b ≠ ch '+' := by
  obtain ⟨b, rest, hcons⟩ := List.exists_cons_of_ne_nil (decimal_ne_nil n)
  have hb := mem_decimal (hcons ▸ List.mem_cons_self : b ∈ decimal n)
  refine ⟨b, rest, hcons, ?_, ?_, ?_⟩
  · have h32 : b ≠ 32 := by
      rintro rfl
      exact absurd hb (by decide)
    have h13 : ¬ b ≤ 13 := by
      rw [UInt8.le_iff_toNat_le]
      have : (13 : Byte).toNat = 13 := rfl
      omega
    simp [isSpace, h32, h13]
  · rintro rfl
    exact absurd hb (by decide)
  · rintro rfl
    exact absurd hb (by decide)

theorem readSigned_of_spells {s : Bytes} {i : Int} (h : Spells s i) :
    ∃ neg m, readSigned s = some (neg, m, []) ∧ i = signed neg m := by
  obtain ⟨neg, m, rfl, hi⟩ := h
  refine ⟨neg, m, ?_, hi⟩
  obtain ⟨b, rest, hcons, hspace, hminus, hplus⟩ := head?_decimal m
  cases neg with
  | true =>
      have hskip : (ch '-' :: decimal m).dropWhile isSpace = ch '-' :: decimal m :=
        List.dropWhile_cons_of_neg (by decide)
      simp only [↓reduceIte, List.singleton_append]
      rw [readSigned, hskip, if_pos List.head?_cons]
      simp only [List.drop_succ_cons, List.drop_zero]
      rw [readUnsigned_decimal]
      rfl
  | false =>
      have hskip : (decimal m).dropWhile isSpace = decimal m := by
        rw [hcons]
        exact List.dropWhile_cons_of_neg (by simp [hspace])
      have hhead : (decimal m).head? = some b := by rw [hcons, List.head?_cons]
      simp only [Bool.false_eq_true, ↓reduceIte, List.nil_append]
      rw [readSigned, hskip, hhead, if_neg (by simpa using hminus), if_neg (by simpa using hplus),
        readUnsigned_decimal]
      rfl

/-- `strtoll` reads an integer of 64 bits. -/
theorem strtoll_of_spells {s : Bytes} {i : Int} (h : Spells s i) (hlo : -2 ^ 63 ≤ i)
    (hhi : i < 2 ^ 63) : strtoll s = ⟨i, [], false⟩ := by
  obtain ⟨neg, m, hread, rfl⟩ := readSigned_of_spells h
  rw [strtoll, hread]
  simp only
  rw [if_neg (by omega), if_neg (by omega)]

/-- `strtoull` reads a natural number of 64 bits. -/
theorem strtoull_of_spells {s : Bytes} {i : Int} (h : Spells s i) (hlo : 0 ≤ i)
    (hhi : i < 2 ^ 64) : strtoull s = ⟨i, [], false⟩ := by
  obtain ⟨neg, m, hread, rfl⟩ := readSigned_of_spells h
  have hm : m < 2 ^ 64 := by
    cases neg <;> simp only [signed, Bool.false_eq_true, ↓reduceIte] at hlo hhi <;> omega
  rw [strtoull, hread]
  simp only
  rw [if_neg (by omega), Int.emod_eq_of_lt hlo hhi]

/-- The string of an integer is not empty, and has no NUL byte. -/
theorem Spells.isCString {s : Bytes} {i : Int} (h : Spells s i) : s ≠ [] ∧ 0 ∉ s := by
  obtain ⟨neg, m, rfl, -⟩ := h
  have hzero : (0 : Byte) ∉ decimal m := fun hmem => absurd (mem_decimal hmem) (by decide)
  cases neg with
  | true => exact ⟨nofun, by simp [hzero]; decide⟩
  | false => exact ⟨decimal_ne_nil m, hzero⟩

end Text

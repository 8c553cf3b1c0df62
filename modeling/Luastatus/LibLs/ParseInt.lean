import Luastatus.Lib.Bytes

/-!
# Decimal parsing of unsigned integers

`ls_strtou_b` reads the longest prefix of digits and stops early when the value leaves the range of
`int`.  The end pointer is modelled as the number of bytes consumed.

`lsStrtouB_decimal` says that a number up to `INT_MAX`, printed in decimal and followed by
something that does not begin with a digit, is read back.  `lsFullStrtouB_eq` says which strings
`ls_full_strtou_b` accepts, and what their value is.
-/

namespace Luastatus.LibLs

open Text

/-- `INT_MAX`. -/
def intMax : Nat := 2 ^ 31 - 1

def erange : Int := 34

def einval : Int := 22

/-- The value of a `char`, which is signed. -/
def charVal (b : Byte) : Int := if b.toNat < 128 then b.toNat else b.toNat - 256

/-- The loop of `ls_strtou_b`, with the value read so far and the position. -/
def lsStrtouLoop (ret : Nat) (i : Nat) : Bytes → Int × Nat
  | [] => (ret, i)
  | b :: bs =>
      let digit := charVal b - 48
      if digit < 0 ∨ digit > 9 then (ret, i)
      else if ret > intMax / 10 then (-erange, i)
      else if (ret * 10 : Int) > intMax - digit then (-erange, i)
      else lsStrtouLoop (ret * 10 + digit.toNat) (i + 1) bs

/-- `ls_strtou_b`: the value, or `-ERANGE`, and the number of bytes consumed. -/
def lsStrtouB (s : Bytes) : Int × Nat := lsStrtouLoop 0 0 s

/-- `ls_full_strtou_b`. -/
def lsFullStrtouB (s : Bytes) : Int :=
  if s = [] then -einval
  else
    let (r, i) := lsStrtouB s
    if r < 0 then r
    else if i ≠ s.length then -einval
    else r

/-! ## One byte -/

theorem charVal_digit {b : Byte} {d : Nat} (h : digitValue b = some d) : charVal b - 48 = d := by
  unfold digitValue at h
  split at h
  · obtain rfl := Option.some.inj h
    unfold charVal
    rw [if_pos (by omega)]
    omega
  · cases h

/-- A range of ASCII characters contains the same bytes whether a `char` is signed or not. -/
theorem charVal_range {a b : Byte} (ha : a.toNat < 128) (hb : b.toNat < 128) (c : Byte) :
    charVal a ≤ charVal c ∧ charVal c ≤ charVal b ↔ a ≤ c ∧ c ≤ b := by
  have hc := c.toNat_lt
  rw [UInt8.le_iff_toNat_le, UInt8.le_iff_toNat_le, charVal, charVal, charVal, if_pos ha, if_pos hb]
  split <;> omega

theorem charVal_not_digit {b : Byte} (h : digitValue b = none) :
    charVal b - 48 < 0 ∨ charVal b - 48 > 9 := by
  unfold digitValue at h
  split at h
  · cases h
  · unfold charVal
    have := b.toNat_lt
    split <;> omega

theorem digitValue_le {b : Byte} {d : Nat} (h : digitValue b = some d) : d ≤ 9 := by
  unfold digitValue at h
  split at h
  · obtain rfl := Option.some.inj h
    omega
  · cases h

theorem lsStrtouLoop_not_digit {b : Byte} (h : digitValue b = none) (ret i : Nat) (bs : Bytes) :
    lsStrtouLoop ret i (b :: bs) = ((ret : Int), i) := by
  rw [lsStrtouLoop, if_pos (charVal_not_digit h)]

theorem lsStrtouLoop_digit {b : Byte} {d ret : Nat} (h : digitValue b = some d)
    (hr : 10 * ret + d ≤ intMax) (i : Nat) (bs : Bytes) :
    lsStrtouLoop ret i (b :: bs) = lsStrtouLoop (10 * ret + d) (i + 1) bs := by
  have hd := digitValue_le h
  rw [lsStrtouLoop, charVal_digit h, if_neg (by omega), if_neg (by omega), if_neg (by omega)]
  congr 1
  omega

theorem lsStrtouLoop_overflow {b : Byte} {d ret : Nat} (h : digitValue b = some d)
    (hr : intMax < 10 * ret + d) (i : Nat) (bs : Bytes) :
    lsStrtouLoop ret i (b :: bs) = (-erange, i) := by
  have hd := digitValue_le h
  rw [lsStrtouLoop, charVal_digit h, if_neg (by omega)]
  split
  · rfl
  · rw [if_pos (by omega)]

/-! ## Numbers -/

/-- Digits whose value fits in an `int` are read as their value. -/
theorem lsStrtouLoop_digits (ds : List Nat) (hds : ∀ d ∈ ds, d < 10) (rest : Bytes) :
    ∀ ret i, ofDigitsFrom ret ds ≤ intMax →
      lsStrtouLoop ret i (ds.map digitByte ++ rest) =
        lsStrtouLoop (ofDigitsFrom ret ds) (i + ds.length) rest := by
  induction ds with
  | nil => intro ret i _; rfl
  | cons d ds ih =>
      intro ret i hle
      have hd : d < 10 := hds d (List.mem_cons_self ..)
      have hstep : 10 * ret + d ≤ intMax :=
        Nat.le_trans (le_ofDigitsFrom _ ds) hle
      rw [List.map_cons, List.cons_append,
        lsStrtouLoop_digit (digitValue_digitByte hd) hstep,
        ih (fun e he => hds e (List.mem_cons_of_mem _ he)) _ _ hle]
      simp only [ofDigitsFrom, List.length_cons]
      congr 1
      omega

/-- A number that fits in an `int` is read back from its decimal representation. -/
theorem lsStrtouB_decimal {n : Nat} (hn : n ≤ intMax) (rest : Bytes)
    (hrest : ∀ b, rest.head? = some b → digitValue b = none) :
    lsStrtouB (decimal n ++ rest) = ((n : Int), (decimal n).length) := by
  have hval := ofDigitsFrom_decimalDigits n
  rw [lsStrtouB, decimal_eq_map,
    lsStrtouLoop_digits _ (fun d hd => decimalDigits_lt hd) _ _ _ (by rw [hval]; exact hn),
    hval, List.length_map, Nat.zero_add]
  cases rest with
  | nil => rfl
  | cons b bs => exact lsStrtouLoop_not_digit (hrest b rfl) _ _ _

/-! ## Whole strings -/

/-- The loop on a string of digits: it reads them all, or their value is too large. -/
theorem lsStrtouLoop_of_mapM (s : Bytes) :
    ∀ (ds : List Nat) (ret i : Nat), s.mapM digitValue = some ds → ret ≤ intMax →
      if ofDigitsFrom ret ds ≤ intMax then
        lsStrtouLoop ret i s = ((ofDigitsFrom ret ds : Int), i + s.length)
      else ∃ k, lsStrtouLoop ret i s = (-erange, k) := by
  induction s with
  | nil =>
      intro ds ret i h hret
      rw [List.mapM_nil] at h
      cases h
      rw [ofDigitsFrom, if_pos hret]
      rfl
  | cons b bs ih =>
      intro ds ret i h hret
      rw [List.mapM_cons] at h
      obtain ⟨d, hd, h⟩ := Option.bind_eq_some_iff.mp h
      obtain ⟨ds', hds', h⟩ := Option.bind_eq_some_iff.mp h
      cases h
      by_cases hle : 10 * ret + d ≤ intMax
      · rw [lsStrtouLoop_digit hd hle, List.length_cons, ← Nat.add_assoc, Nat.add_right_comm]
        exact ih ds' _ (i + 1) hds' hle
      · have hbig : ¬ ofDigitsFrom ret (d :: ds') ≤ intMax := fun h =>
          hle (Nat.le_trans (le_ofDigitsFrom _ ds') h)
        rw [if_neg hbig]
        exact ⟨i, lsStrtouLoop_overflow hd (Nat.not_le.mp hle) i bs⟩

/-- The loop on another string stops inside it. -/
theorem lsStrtouLoop_of_mapM_none (s : Bytes) :
    ∀ ret i : Nat, s.mapM digitValue = none →
      (lsStrtouLoop ret i s).1 < 0 ∨ (lsStrtouLoop ret i s).2 ≠ i + s.length := by
  induction s with
  | nil => intro ret i h; cases h
  | cons b bs ih =>
      intro ret i h
      rw [List.mapM_cons] at h
      rcases hd : digitValue b with _ | d
      · rw [lsStrtouLoop_not_digit hd]
        right
        simp
      · rw [hd] at h
        have htail : bs.mapM digitValue = none := by
          rcases hbs : bs.mapM digitValue with _ | ds
          · rfl
          · rw [hbs] at h
            cases h
        by_cases hle : 10 * ret + d ≤ intMax
        · rw [lsStrtouLoop_digit hd hle, List.length_cons, ← Nat.add_assoc, Nat.add_right_comm]
          exact ih _ _ htail
        · rw [lsStrtouLoop_overflow hd (Nat.not_le.mp hle)]
          exact .inl (show -erange < 0 by decide)

/-- `ls_full_strtou_b` accepts the decimal numbers up to `INT_MAX`. -/
theorem lsFullStrtouB_eq (s : Bytes) :
    match decimalValue s with
    | some n => if n ≤ intMax then lsFullStrtouB s = n else lsFullStrtouB s < 0
    | none => lsFullStrtouB s < 0 := by
  by_cases hnil : s = []
  · rw [decimalValue, if_pos hnil, lsFullStrtouB, if_pos hnil]
    decide
  · rw [decimalValue, if_neg hnil]
    have hfull {r : Int} {i : Nat} (h : lsStrtouB s = (r, i)) :
        lsFullStrtouB s = if r < 0 then r else if i ≠ s.length then -einval else r := by
      rw [lsFullStrtouB, if_neg hnil, h]
    rcases hds : s.mapM digitValue with _ | ds
    · have hstop := lsStrtouLoop_of_mapM_none s 0 0 hds
      rw [Nat.zero_add] at hstop
      simp only [Option.map_none]
      rw [hfull rfl]
      split
      · assumption
      · rw [if_pos (hstop.resolve_left ‹_›)]
        decide
    · have hread := lsStrtouLoop_of_mapM s ds 0 0 hds (Nat.zero_le _)
      simp only [Option.map_some]
      split at hread
      · rename_i hle
        rw [if_pos hle, hfull hread, if_neg (by omega), if_neg (by omega)]
      · rename_i hgt
        obtain ⟨k, hk⟩ := hread
        rw [if_neg hgt, hfull hk, if_pos (by decide)]
        decide

end Luastatus.LibLs

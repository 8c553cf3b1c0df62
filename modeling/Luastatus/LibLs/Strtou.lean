import Luastatus.LibLs.ParseInt
import Mathlib.Data.List.TakeWhile

/-!
# Overflow in decimal parsing

`ls_strtou_b` multiplies and adds in `int`, where an overflow is undefined.  Here every operation
of the source on an `int` is checked, and a computation that overflows has no result.

No operation does, so the checked functions compute what the functions on unbounded integers
compute (`lsStrtouLoopC_eq`), and the results are exact for every string (`lsStrtou_exact`).
-/

namespace Luastatus.LibLs

open Text

/-! ## The checked functions -/

/-- The result of an operation on `int`, if there is no overflow. -/
def cInt (n : Int) : Option Int := if -2 ^ 31 ≤ n ∧ n ≤ intMax then some n else none

/-- The loop of `ls_strtou_b`, with the value read so far and the position. -/
def lsStrtouLoopC (ret : Int) (i : Nat) : Bytes → Option (Int × Nat)
  | [] => some (ret, i)
  | b :: bs => do
      let digit ← cInt (charVal b - 48)
      if digit < 0 ∨ digit > 9 then some (ret, i)
      else if ret > intMax / 10 then return (← cInt (-erange), i)
      else do
        let ret ← cInt (ret * 10)
        if ret > (← cInt (intMax - digit)) then return (← cInt (-erange), i)
        else do
          let ret ← cInt (ret + digit)
          lsStrtouLoopC ret (i + 1) bs

/-- `ls_strtou_b`. -/
def lsStrtouBC (s : Bytes) : Option (Int × Nat) := lsStrtouLoopC 0 0 s

/-- `ls_full_strtou_b`. -/
def lsFullStrtouBC (s : Bytes) : Option Int :=
  if s = [] then cInt (-einval)
  else do
    let (r, i) ← lsStrtouBC s
    if r < 0 then return r
    else if i ≠ s.length then cInt (-einval)
    else return r

theorem cInt_eq {n : Int} (hlo : -2 ^ 31 ≤ n) (hhi : n ≤ intMax) : cInt n = some n :=
  if_pos ⟨hlo, hhi⟩

theorem charVal_range_int (b : Byte) : -128 ≤ charVal b ∧ charVal b ≤ 127 := by
  have hb := b.toNat_lt
  unfold charVal
  split <;> omega

/-- While the value read so far is an `int`, no operation overflows. -/
theorem lsStrtouLoopC_eq (s : Bytes) :
    ∀ ret i : Nat, ret ≤ intMax → lsStrtouLoopC ret i s = some (lsStrtouLoop ret i s) := by
  induction s with
  | nil => intro ret i _; rfl
  | cons b bs ih =>
      intro ret i hret
      have hb := charVal_range_int b
      have hmax : (intMax : Int) = 2147483647 := rfl
      have hdigit : cInt (charVal b - 48) = some (charVal b - 48) :=
        cInt_eq (by omega) (by omega)
      have herange : cInt (-erange) = some (-erange) := rfl
      rw [lsStrtouLoopC, hdigit, Option.bind_eq_bind, Option.bind_some]
      rcases hd : digitValue b with _ | d
      · rw [if_pos (charVal_not_digit hd), lsStrtouLoop_not_digit hd]
      · have hd9 := digitValue_le hd
        rw [charVal_digit hd, if_neg (by omega)]
        by_cases hlarge : (ret : Int) > intMax / 10
        · rw [if_pos hlarge, herange, lsStrtouLoop_overflow hd (by omega)]
          rfl
        · have hmul : cInt ((ret : Int) * 10) = some ((ret : Int) * 10) :=
            cInt_eq (by omega) (by omega)
          have hbound : cInt ((intMax : Int) - (d : Int)) = some ((intMax : Int) - (d : Int)) :=
            cInt_eq (by omega) (by omega)
          rw [if_neg hlarge, hmul, Option.bind_some, hbound, Option.bind_some]
          by_cases hover : (ret : Int) * 10 > intMax - d
          · rw [if_pos hover, herange, lsStrtouLoop_overflow hd (by omega)]
            rfl
          · have hle : 10 * ret + d ≤ intMax := by omega
            have hadd : cInt ((ret : Int) * 10 + d) = some ((10 * ret + d : Nat) : Int) := by
              rw [cInt_eq (by omega) (by omega)]
              congr 1
              omega
            rw [if_neg hover, hadd, Option.bind_some, ih _ _ hle, lsStrtouLoop_digit hd hle]

theorem lsStrtouBC_eq (s : Bytes) : lsStrtouBC s = some (lsStrtouB s) :=
  lsStrtouLoopC_eq s 0 0 (Nat.zero_le _)

theorem lsFullStrtouBC_eq (s : Bytes) : lsFullStrtouBC s = some (lsFullStrtouB s) := by
  have heinval : cInt (-einval) = some (-einval) := rfl
  rw [lsFullStrtouBC, lsFullStrtouB, lsStrtouBC_eq, heinval]
  split
  · rfl
  · rw [Option.bind_eq_bind, Option.bind_some]
    obtain ⟨r, i⟩ := lsStrtouB s
    dsimp only
    split
    · rfl
    · split <;> rfl

/-! ## The digits at the start -/

/-- The maximal prefix of digits. -/
def digitPrefix (s : Bytes) : Bytes := s.takeWhile fun b => (digitValue b).isSome

/-- The number that the prefix denotes; zero if it is empty. -/
def prefixValue (s : Bytes) : Nat := ofDigitsFrom 0 ((digitPrefix s).filterMap digitValue)

theorem digitPrefix_cons_of_none {b : Byte} (h : digitValue b = none) (s : Bytes) :
    digitPrefix (b :: s) = [] := by
  rw [digitPrefix, List.takeWhile_cons, h]
  rfl

theorem digitPrefix_cons_of_some {b : Byte} {d : Nat} (h : digitValue b = some d) (s : Bytes) :
    digitPrefix (b :: s) = b :: digitPrefix s := by
  rw [digitPrefix, List.takeWhile_cons, h]
  rfl

theorem digitPrefix_eq_self_iff (s : Bytes) :
    digitPrefix s = s ↔ ∀ b ∈ s, (digitValue b).isSome = true :=
  List.takeWhile_eq_self_iff

/-- What the loop gives, by the value of the digits that follow. -/
structure LoopResult (ret i : Nat) (s : Bytes) (r : Int × Nat) : Prop where
  fits : ofDigitsFrom ret ((digitPrefix s).filterMap digitValue) ≤ intMax →
    r = ((ofDigitsFrom ret ((digitPrefix s).filterMap digitValue) : Int),
      i + (digitPrefix s).length)
  large : intMax < ofDigitsFrom ret ((digitPrefix s).filterMap digitValue) → r.1 = -erange

/-- The two tests of the loop find the first digit at which the value leaves the range. -/
theorem lsStrtouLoop_result (s : Bytes) :
    ∀ ret i : Nat, ret ≤ intMax → LoopResult ret i s (lsStrtouLoop ret i s) := by
  induction s with
  | nil =>
      intro ret i hret
      exact ⟨fun _ => rfl, fun h => absurd hret (Nat.not_le.mpr h)⟩
  | cons b bs ih =>
      intro ret i hret
      rcases hd : digitValue b with _ | d
      · rw [lsStrtouLoop_not_digit hd]
        have hdigits : digitPrefix (b :: bs) = [] := digitPrefix_cons_of_none hd bs
        refine ⟨fun _ => ?_, fun h => ?_⟩
        · rw [hdigits]
          rfl
        · rw [hdigits] at h
          exact absurd hret (Nat.not_le.mpr h)
      · have hdigits : (digitPrefix (b :: bs)).filterMap digitValue =
            d :: (digitPrefix bs).filterMap digitValue := by
          rw [digitPrefix_cons_of_some hd, List.filterMap_cons_some hd]
        have hlen : (digitPrefix (b :: bs)).length = (digitPrefix bs).length + 1 := by
          rw [digitPrefix_cons_of_some hd, List.length_cons]
        by_cases hle : 10 * ret + d ≤ intMax
        · have hrec := ih (10 * ret + d) (i + 1) hle
          rw [lsStrtouLoop_digit hd hle]
          refine ⟨fun h => ?_, fun h => ?_⟩
          · rw [hdigits] at h ⊢
            rw [hrec.fits h, hlen, Nat.add_assoc, Nat.add_comm 1]
            rfl
          · rw [hdigits] at h
            exact hrec.large h
        · have hbig : intMax < ofDigitsFrom ret (d :: (digitPrefix bs).filterMap digitValue) :=
            Nat.lt_of_lt_of_le (Nat.not_le.mp hle) (le_ofDigitsFrom _ _)
          rw [lsStrtouLoop_overflow hd (Nat.not_le.mp hle)]
          refine ⟨fun h => ?_, fun _ => rfl⟩
          rw [hdigits] at h
          exact absurd h (Nat.not_le.mpr hbig)

/-- The two ways `ls_strtou_b` can go. -/
theorem lsStrtouB_result (s : Bytes) : LoopResult 0 0 s (lsStrtouB s) :=
  lsStrtouLoop_result s 0 0 (Nat.zero_le _)

/-- The string is a number of type `int`. -/
def IsInt (s : Bytes) : Prop :=
  s ≠ [] ∧ (∀ b ∈ s, (digitValue b).isSome = true) ∧ prefixValue s ≤ intMax

theorem lsFullStrtouB_of_large {s : Bytes} (h : intMax < prefixValue s) :
    lsFullStrtouB s = -erange := by
  have hne : s ≠ [] := by
    rintro rfl
    exact absurd h (Nat.not_lt_zero _)
  have hlarge : (lsStrtouB s).1 = -erange := (lsStrtouB_result s).large h
  have hneg : (lsStrtouB s).1 < 0 := by
    rw [hlarge]
    decide
  rw [lsFullStrtouB, if_neg hne]
  dsimp only
  rw [if_pos hneg, hlarge]

/-- A string that is not read to its end is refused. -/
theorem lsFullStrtouB_of_fits {s : Bytes} (hne : s ≠ []) (h : prefixValue s ≤ intMax) :
    lsFullStrtouB s =
      if (digitPrefix s).length ≠ s.length then -einval else (prefixValue s : Int) := by
  have hread : lsStrtouB s = ((prefixValue s : Int), 0 + (digitPrefix s).length) :=
    (lsStrtouB_result s).fits h
  rw [lsFullStrtouB, if_neg hne, hread, Nat.zero_add]
  exact if_neg (Int.not_lt.mpr (Int.natCast_nonneg _))

theorem lsFullStrtouB_of_isInt {s : Bytes} (h : IsInt s) : lsFullStrtouB s = prefixValue s := by
  obtain ⟨hne, hall, hle⟩ := h
  rw [lsFullStrtouB_of_fits hne hle, (digitPrefix_eq_self_iff s).mpr hall, if_neg (by simp)]

theorem lsFullStrtouB_of_not_isInt {s : Bytes} (h : ¬ IsInt s) (hle : prefixValue s ≤ intMax) :
    lsFullStrtouB s = -einval := by
  by_cases hne : s = []
  · rw [lsFullStrtouB, if_pos hne]
  · have hlen : (digitPrefix s).length ≠ s.length := by
      intro hlen
      have hdigits : digitPrefix s = s := (List.takeWhile_prefix _).eq_of_length hlen
      exact h ⟨hne, (digitPrefix_eq_self_iff s).mp hdigits, hle⟩
    rw [lsFullStrtouB_of_fits hne hle, if_pos hlen]

/-- For every string, without an overflow: `ls_strtou_b` reads the maximal prefix of digits and
gives its value, or `-ERANGE` if that is not an `int`; `ls_full_strtou_b` gives the value of a
string that is a number, `-ERANGE` if the prefix is too large, and `-EINVAL` otherwise. -/
theorem lsStrtou_exact (s : Bytes) :
    (∃ r i, lsStrtouBC s = some (r, i) ∧
      (prefixValue s ≤ intMax → r = prefixValue s ∧ i = (digitPrefix s).length) ∧
      (intMax < prefixValue s → r = -erange)) ∧
    ∃ r, lsFullStrtouBC s = some r ∧
      (∀ n : Nat, r = n ↔ IsInt s ∧ prefixValue s = n) ∧
      (r = -erange ↔ intMax < prefixValue s) ∧
      (r = -einval ↔ ¬ IsInt s ∧ ¬ intMax < prefixValue s) := by
  refine ⟨⟨(lsStrtouB s).1, (lsStrtouB s).2, lsStrtouBC_eq s, fun h => ?_,
    (lsStrtouB_result s).large⟩, _, lsFullStrtouBC_eq s, ?_⟩
  · rw [(lsStrtouB_result s).fits h, Nat.zero_add]
    exact ⟨rfl, rfl⟩
  · have herange : -erange = -34 := rfl
    have heinval : -einval = -22 := rfl
    rcases Nat.lt_or_ge intMax (prefixValue s) with hlarge | hfits
    · have hnot : ¬ IsInt s := fun h => Nat.not_lt.mpr h.2.2 hlarge
      rw [lsFullStrtouB_of_large hlarge]
      refine ⟨fun n => ?_, by simp [hlarge], ?_⟩
      · exact iff_of_false (by omega) fun h => hnot h.1
      · exact iff_of_false (by omega) fun h => h.2 hlarge
    · by_cases hint : IsInt s
      · rw [lsFullStrtouB_of_isInt hint]
        refine ⟨fun n => ?_, ?_, ?_⟩
        · rw [Int.natCast_inj]
          exact ⟨fun h => ⟨hint, h⟩, fun h => h.2⟩
        · exact iff_of_false (by omega) (Nat.not_lt.mpr hfits)
        · exact iff_of_false (by omega) fun h => h.1 hint
      · rw [lsFullStrtouB_of_not_isInt hint hfits]
        refine ⟨fun n => ?_, ?_, ?_⟩
        · exact iff_of_false (by omega) fun h => hint h.1
        · exact iff_of_false (by omega) (Nat.not_lt.mpr hfits)
        · exact iff_of_true rfl ⟨hint, Nat.not_lt.mpr hfits⟩

end Luastatus.LibLs

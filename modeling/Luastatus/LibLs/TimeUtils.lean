import Luastatus.LibLs.ParseInt

/-!
# Time deltas

A time delta is a number of seconds in a C double.  Deltas from `LS_TMO_MAX` on are treated as
forever.  The operations of C on doubles are a parameter.
-/

namespace Luastatus.LibLs

/-- The operations of C on doubles. -/
structure DoubleOps (F : Type) where
  isNan : F → Bool
  /-- `<=`, which is false of a NaN. -/
  le : F → F → Bool
  /-- `<`, which is false of a NaN. -/
  lt : F → F → Bool
  mul : F → F → F
  ofInt : Int → F
  /-- Conversion to `int`, of a number in its range. -/
  toInt : F → Int

/-- What C documents of doubles, as far as it is used: the numbers are ordered, the integers of
`int` are among them, and the conversion to `int` drops the fraction. -/
structure DoubleOps.Lawful {F : Type} (O : DoubleOps F) : Prop where
  isNan_iff : ∀ x, O.isNan x = true ↔ ¬ O.le x x
  le_refl : ∀ {x y}, O.le x y → O.le x x ∧ O.le y y
  le_trans : ∀ {x y z}, O.le x y → O.le y z → O.le x z
  le_total : ∀ {x y}, O.le x x → O.le y y → O.le x y ∨ O.le y x
  lt_iff : ∀ {x y}, O.lt x y ↔ O.le x y ∧ ¬ O.le y x
  ofInt_le : ∀ {m n : Int}, -1 ≤ m → m ≤ 2 ^ 31 → -1 ≤ n → n ≤ 2 ^ 31 →
    (O.le (O.ofInt m) (O.ofInt n) ↔ m ≤ n)
  toInt : ∀ {x}, O.le (O.ofInt 0) x → O.le x (O.ofInt intMax) →
    (0 ≤ O.toInt x ∧ O.toInt x ≤ intMax) ∧
      O.le (O.ofInt (O.toInt x)) x ∧ O.lt x (O.ofInt (O.toInt x + 1))
  le_mul : ∀ {x}, O.le (O.ofInt 0) x → O.le x (O.mul x (O.ofInt 1000))

section Order

variable {F : Type} {O : DoubleOps F} (hO : O.Lawful) {x y : F}

include hO

theorem DoubleOps.Lawful.le_of_not_lt (hx : O.le x x) (hy : O.le y y) (h : ¬ O.lt x y) :
    O.le y x := by
  rcases hO.le_total hx hy with hle | hle
  · by_contra hlt
    exact h (hO.lt_iff.mpr ⟨hle, hlt⟩)
  · exact hle

theorem DoubleOps.Lawful.ofInt_self {n : Int} (hlo : -1 ≤ n) (hhi : n ≤ 2 ^ 31) :
    O.le (O.ofInt n) (O.ofInt n) :=
  (hO.ofInt_le hlo hhi hlo hhi).mpr (Int.le_refl n)

theorem DoubleOps.Lawful.self_of_not_isNan (h : O.isNan x = false) : O.le x x := by
  by_contra hx
  exact absurd ((hO.isNan_iff x).mpr hx) (by rw [h]; nofun)

end Order

/-- The operations on those doubles that hold an integer. -/
def wholeDoubles : DoubleOps Int where
  isNan _ := false
  le x y := decide (x ≤ y)
  lt x y := decide (x < y)
  mul x y := x * y
  ofInt x := x
  toInt x := x

theorem wholeDoubles_lawful : wholeDoubles.Lawful where
  isNan_iff x := by simp [wholeDoubles]
  le_refl h := by simp [wholeDoubles]
  le_trans h h' := by
    simp only [wholeDoubles, decide_eq_true_eq] at h h' ⊢
    omega
  le_total _ _ := by
    simp only [wholeDoubles, decide_eq_true_eq]
    omega
  lt_iff := by
    simp only [wholeDoubles, decide_eq_true_eq]
    omega
  ofInt_le _ _ _ _ := by simp [wholeDoubles]
  toInt h h' := by
    simp only [wholeDoubles, decide_eq_true_eq] at h h' ⊢
    omega
  le_mul h := by
    simp only [wholeDoubles, decide_eq_true_eq] at h ⊢
    omega

/-- `LS_TimeDelta`. -/
structure TimeDelta (F : Type) where
  delta : F
deriving DecidableEq, Repr

variable {F : Type} (O : DoubleOps F)

/-- `LS_TMO_MAX`. -/
def lsTmoMax : F := O.ofInt 2147483647

/-- `ls_double_is_good_time_delta`. -/
def lsDoubleIsGoodTimeDelta (x : F) : Bool := O.le (O.ofInt 0) x

/-- `ls_TD_is_forever`. -/
def lsTDIsForever (TD : TimeDelta F) : Bool := O.le (lsTmoMax O) TD.delta

/-- `ls_double_to_TD_checked`. -/
def lsDoubleToTDChecked (delta : F) : Option (TimeDelta F) :=
  if lsDoubleIsGoodTimeDelta O delta then
    some ⟨if O.lt (lsTmoMax O) delta then lsTmoMax O else delta⟩
  else none

/-- `ls_TD_to_poll_ms_tmo`. -/
def lsTDToPollMsTmo (TD : TimeDelta F) : Int :=
  if lsTDIsForever O TD then -1
  else
    let ms := O.mul TD.delta (O.ofInt 1000)
    if O.lt (O.ofInt intMax) ms then intMax else O.toInt ms

end Luastatus.LibLs

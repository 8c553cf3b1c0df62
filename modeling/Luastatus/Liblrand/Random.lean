import Luastatus.Lib.Rounding
import Luastatus.LibLs.ParseInt
import Luastatus.Lua.Error
import Mathlib.Data.Rat.Floor

/-!
# The replacement of `math.random`

For the versions of Lua before 5.4, `liblrand_inject` puts a generator of its own behind
`math.random`.  There is one variant of `l_math_random` for each version; those for Lua 5.1 and for
Lua 5.3 compute with C integers.  An operation of a signed type whose result the type does not have
is an overflow, after which nothing is known of the program.

A floating-point number is the rational number that it stands for.  The conversion of an integer and
the addition of one round; a product is exact.

The variant for Lua 5.3 answers each call with an integer in the interval asked for.  The one for
Lua 5.1 computes the number of integers in the interval as an `int`, without a check, and does so
exactly for the intervals of at most `INT_MAX` integers (`run_answers_iff`).
-/

namespace Luastatus.Liblrand

open Text (Bytes lit)
open Lua (LuaError)
open LibLs (intMax)
open Rounding

/-! ## The generator -/

/-- The state of the generator. -/
abbrev PRNG := UInt32

/-- `PRNG_MAX`. -/
def prngMax : Nat := 0x7fff

/-- `prng_init`. -/
def prngInit (seed : Int32) : PRNG := seed.toUInt32

/-- `prng_next`: the number, and the new state. -/
def prngNext (x : PRNG) : Nat × PRNG :=
  let x := x * 1103515245 + 12345
  (((x >>> 16) &&& 0x7fff).toNat, x)

theorem prngNext_le (x : PRNG) : (prngNext x).1 ≤ prngMax := by
  rw [prngNext, UInt32.toNat_and]
  exact Nat.and_le_right

/-! ## The code -/

/-- What a call throws, or the overflow in it. -/
inductive Fault where
  | raised (e : LuaError)
  | overflow
deriving DecidableEq, Repr

/-- What a function pushes. -/
inductive Pushed where
  /-- By `lua_pushnumber`. -/
  | number (x : ℚ)
  /-- By `lua_pushinteger`. -/
  | integer (i : Int)
deriving DecidableEq, Repr

/-- The number that was pushed. -/
def Pushed.value : Pushed → ℚ
  | number x => x
  | integer i => i

/-- What `luaL_checkinteger` makes of an argument: an integer, or the message of its error. -/
abbrev Argument := Except Bytes Int64

/-- `luaL_checkinteger`. -/
def checkinteger (arg : Nat) : Argument → Except Fault Int64
  | .ok i => .ok i
  | .error msg => .error (.raised (.argError arg msg))

/-- `luaL_argcheck`. -/
def argcheck (c : Prop) [Decidable c] (arg : Nat) (msg : String) : Except Fault Unit :=
  if c then .ok () else .error (.raised (.argError arg (lit msg)))

/-- An operation of a signed type with the largest value `max`; `n` is the exact result. -/
def checked (max : Nat) (n : Int) : Except Fault Int :=
  if -max - 1 ≤ n ∧ n ≤ max then .ok n else .error .overflow

/-- The conversion of a `lua_Integer` to an `int`. -/
def toCInt (i : Int64) : Int := i.toInt32.toInt

/-- `l_math_random` for Lua 5.1. -/
def lMathRandom51 (prng : PRNG) (args : List Argument) : Except Fault Pushed × PRNG :=
  let (next, prng) := prngNext prng
  let r : ℚ := next / (prngMax + 1)
  let pushed : Except Fault Pushed :=
    match args with
    | [] => .ok (.number r)
    | [a] => do
        let u := toCInt (← checkinteger 1 a)
        argcheck (1 ≤ u) 1 "interval is empty"
        return .number (⌊r * u⌋ + 1)
    | [a, b] => do
        let l := toCInt (← checkinteger 1 a)
        let u := toCInt (← checkinteger 2 b)
        argcheck (l ≤ u) 2 "interval is empty"
        let width ← checked intMax ((← checked intMax (u - l)) + 1)
        return .number (⌊r * width⌋ + l)
    | _ => .error (.raised (.error (lit "wrong number of arguments")))
  (pushed, prng)

/-- `LUA_MAXINTEGER`. -/
def luaMaxInteger : Nat := 2 ^ 63 - 1

/-- The precision of a `double`. -/
def dblMantDig : Nat := 53

/-- The conversion of a `double` to an integer, which drops the fraction. -/
def truncate (x : ℚ) : Int := if 0 ≤ x then ⌊x⌋ else ⌈x⌉

/-- The last part of `l_math_random` for Lua 5.3, with a number `r` from 0 to 1. -/
def pushInteger (r : ℚ) (l u : Int) : Except Fault Pushed := do
  argcheck (l ≤ u) 1 "interval is empty"
  if l < 0 then
    argcheck (u ≤ (← checked luaMaxInteger (luaMaxInteger + l))) 1 "interval too large"
  let span := (← checked luaMaxInteger (u - l)).toNat
  let r := r * roundNat dblMantDig (roundNat dblMantDig span + 1)
  let i ← checked luaMaxInteger (truncate r)
  return .integer (← checked luaMaxInteger (i + l))

/-- `l_math_random` for Lua 5.3. -/
def lMathRandom53 (prng : PRNG) (args : List Argument) : Except Fault Pushed × PRNG :=
  let (next, prng) := prngNext prng
  let r : ℚ := next * (1 / (prngMax + 1))
  let pushed : Except Fault Pushed :=
    match args with
    | [] => .ok (.number r)
    | [a] => do
        let u ← checkinteger 1 a
        pushInteger r 1 u.toInt
    | [a, b] => do
        let l ← checkinteger 1 a
        let u ← checkinteger 2 b
        pushInteger r l.toInt u.toInt
    | _ => .error (.raised (.error (lit "wrong number of arguments")))
  (pushed, prng)

/-- The versions of Lua whose `math.random` computes with C integers. -/
inductive Version where
  | lua51
  | lua53
deriving DecidableEq, Repr

/-- `l_math_random`. -/
def Version.lMathRandom : Version → PRNG → List Argument → Except Fault Pushed × PRNG
  | lua51 => lMathRandom51
  | lua53 => lMathRandom53

/-- `l_math_randomseed`. -/
def lMathRandomseed (prng : PRNG) (seed : Argument) : Except Fault Unit × PRNG :=
  match checkinteger 1 seed with
  | .ok i => (.ok (), prngInit i.toInt32)
  | .error e => (.error e, prng)

/-! ## The calls of a program -/

/-- A call of one of the two functions. -/
inductive Call where
  | random (args : List Argument)
  | randomseed (seed : Argument)

/-- What a call comes to. -/
abbrev Outcome := Except Fault (Option Pushed)

/-- A call. -/
def call (v : Version) (prng : PRNG) : Call → Outcome × PRNG
  | .random args =>
      let (pushed, prng) := v.lMathRandom prng args
      (pushed.map some, prng)
  | .randomseed seed =>
      let (done, prng) := lMathRandomseed prng seed
      (done.map fun _ => none, prng)

/-- The calls of a program one after the other, up to an overflow. -/
def run (v : Version) : PRNG → List Call → List Outcome
  | _, [] => []
  | prng, c :: calls =>
      let (out, prng) := call v prng c
      if out = .error .overflow then [out] else out :: run v prng calls

/-! ## What is asked for -/

/-- What a variable of the type that the version uses holds of an integer. -/
def Version.ofInteger : Version → Int64 → Int
  | lua51 => toCInt
  | lua53 => Int64.toInt

/-- The bounds in the variables `l` and `u`, in a call that sets them. -/
def interval (v : Version) : Call → Option (Int × Int)
  | .random [.ok u] => some (1, v.ofInteger u)
  | .random [.ok l, .ok u] => some (v.ofInteger l, v.ofInteger u)
  | _ => none

/-- The intervals for which there is an answer. -/
def Version.Admits : Version → Int → Int → Prop
  | lua51, l, u => l ≤ u
  | lua53, l, u => l ≤ u ∧ u - l ≤ luaMaxInteger

/-- A call that asks for an interval is answered with an integer in it. -/
def Answers (v : Version) (c : Call) (out : Outcome) : Prop :=
  ∀ l u, interval v c = some (l, u) → v.Admits l u →
    ∃ (p : Pushed) (i : Int), out = .ok (some p) ∧ p.value = i ∧ l ≤ i ∧ i ≤ u

/-- For Lua 5.1, the interval has at most `INT_MAX` integers. -/
def Fits : Version → Call → Prop
  | .lua51, c => ∀ l u, interval .lua51 c = some (l, u) → u - l < intMax
  | .lua53, _ => True

/-- A call that sets the bounds has one or two integers as its arguments. -/
theorem interval_cases {v : Version} {c : Call} {l u : Int} (h : interval v c = some (l, u)) :
    (∃ b, c = .random [.ok b] ∧ l = 1 ∧ u = v.ofInteger b) ∨
      ∃ a b, c = .random [.ok a, .ok b] ∧ l = v.ofInteger a ∧ u = v.ofInteger b := by
  unfold interval at h
  split at h
  · cases h
    exact Or.inl ⟨_, rfl, rfl, rfl⟩
  · cases h
    exact Or.inr ⟨_, _, rfl, rfl, rfl⟩
  · cases h

/-- Without bounds there is nothing to compute. -/
theorem call_ne_overflow {v : Version} {c : Call} (h : interval v c = none) (prng : PRNG) :
    (call v prng c).1 ≠ .error .overflow := by
  cases c with
  | randomseed seed =>
      cases seed with
      | error msg => rintro ⟨⟩
      | ok i => rintro ⟨⟩
  | random args =>
      cases v with
      | lua51 =>
          rcases args with _ | ⟨_ | a, _ | ⟨_ | b, _ | ⟨c, args⟩⟩⟩
          all_goals first | rintro ⟨⟩ | cases h
      | lua53 =>
          rcases args with _ | ⟨_ | a, _ | ⟨_ | b, _ | ⟨c, args⟩⟩⟩
          all_goals first | rintro ⟨⟩ | cases h

/-! ## The product -/

/-- The number that the generator gives, divided by the number of its values. -/
theorem next_div_mem {next : Nat} (h : next ≤ prngMax) :
    (0 : ℚ) ≤ next / (prngMax + 1) ∧ (next : ℚ) / (prngMax + 1) < 1 := by
  have hpos : (0 : ℚ) < prngMax + 1 := by positivity
  constructor
  · positivity
  · rw [div_lt_one hpos]
    exact_mod_cast Nat.lt_succ_of_le h

/-- A number from 0 to 1 takes the first `width` integers from 0 on. -/
theorem floor_mul_mem {r : ℚ} (h : 0 ≤ r ∧ r < 1) {width : Int} (hwidth : 0 < width) :
    0 ≤ ⌊r * width⌋ ∧ ⌊r * width⌋ < width := by
  have hpos : (0 : ℚ) < width := Int.cast_pos.mpr hwidth
  constructor
  · exact Int.floor_nonneg.mpr (mul_nonneg h.1 hpos.le)
  · exact Int.floor_lt.mpr (mul_lt_of_lt_one_left hpos h.2)

/-- The width of the interval may be rounded up, but by less than the generator leaves free. -/
theorem prngMax_mul_width_lt (span : Nat) :
    prngMax * roundNat dblMantDig (roundNat dblMantDig span + 1) <
      (prngMax + 1) * (span + 1) := by
  have hspan := roundNat_le dblMantDig span
  have hwidth := roundNat_le dblMantDig (roundNat dblMantDig span + 1)
  simp only [dblMantDig, prngMax] at hspan hwidth ⊢
  omega

theorem truncate_mem {next : Nat} (h : next ≤ prngMax) (span : Nat) {i : Int}
    (hi : truncate (next * (1 / (prngMax + 1)) *
      roundNat dblMantDig (roundNat dblMantDig span + 1)) = i) : 0 ≤ i ∧ i ≤ span := by
  have hprod := prngMax_mul_width_lt span
  generalize roundNat dblMantDig (roundNat dblMantDig span + 1) = width at hprod hi
  have hpos : (0 : ℚ) < prngMax + 1 := by positivity
  have hnonneg : (0 : ℚ) ≤ next * (1 / (prngMax + 1)) * width := by positivity
  have hlt : next * width < (span + 1) * (prngMax + 1) := by
    calc next * width ≤ prngMax * width := Nat.mul_le_mul_right width h
      _ < (prngMax + 1) * (span + 1) := hprod
      _ = (span + 1) * (prngMax + 1) := Nat.mul_comm _ _
  rw [truncate, if_pos hnonneg] at hi
  subst hi
  constructor
  · exact Int.floor_nonneg.mpr hnonneg
  · rw [← Int.lt_add_one_iff, Int.floor_lt, mul_one_div, div_mul_eq_mul_div, div_lt_iff₀ hpos]
    exact_mod_cast hlt

/-- A call without an overflow, and with an answer if there is one. -/
def Good (v : Version) (c : Call) (out : Outcome) : Prop :=
  out ≠ .error .overflow ∧ Answers v c out

section Good

variable {v : Version} {c : Call} {l u : Int} (h : interval v c = some (l, u))

include h

theorem good_of_value {p : Pushed} {i : Int} (hp : p.value = i) (hl : l ≤ i) (hu : i ≤ u) :
    Good v c (.ok (some p)) := by
  refine ⟨by rintro ⟨⟩, ?_⟩
  intro l' u' h' _
  cases h.symm.trans h'
  exact ⟨p, i, rfl, hp, hl, hu⟩

theorem good_of_raised (hadmits : ¬ v.Admits l u) (e : LuaError) :
    Good v c (.error (.raised e)) := by
  refine ⟨by rintro ⟨⟩, ?_⟩
  intro l' u' h' hadmits'
  cases h.symm.trans h'
  exact absurd hadmits' hadmits

end Good

/-! ## Lua 5.1 -/

section Bind

variable {α β : Type} (f : α → Except Fault β)

theorem ok_bind (x : α) : (Except.ok x >>= f) = f x := rfl

theorem error_bind (e : Fault) : (Except.error e >>= f) = .error e := rfl

end Bind

theorem checked_eq_ok {max : Nat} {n : Int} (h0 : -max - 1 ≤ n) (h1 : n ≤ max) :
    checked max n = .ok n := if_pos ⟨h0, h1⟩

theorem checked_eq_error {max : Nat} {n : Int} (h : n < -max - 1 ∨ max < n) :
    checked max n = .error .overflow := if_neg (by omega)

theorem argcheck_eq_ok {c : Prop} [Decidable c] (h : c) (arg : Nat) (msg : String) :
    argcheck c arg msg = .ok () := if_pos h

theorem argcheck_eq_error {c : Prop} [Decidable c] (h : ¬ c) (arg : Nat) (msg : String) :
    argcheck c arg msg = .error (.raised (.argError arg (lit msg))) := if_neg h

theorem toCInt_mem (i : Int64) : -intMax - 1 ≤ toCInt i ∧ toCInt i ≤ intMax := by
  have h0 := i.toInt32.le_toInt
  have h1 := i.toInt32.toInt_lt
  simp only [toCInt, intMax]
  omega

/-- The number that the generator gives next, from 0 to 1. -/
def nextReal (prng : PRNG) : ℚ := (prngNext prng).1 / (prngMax + 1)

theorem nextReal_mem (prng : PRNG) : 0 ≤ nextReal prng ∧ nextReal prng < 1 :=
  next_div_mem (prngNext_le prng)

section Lua51

variable (prng : PRNG) {a b : Int64}

theorem lMathRandom51_upTo (h : 1 ≤ toCInt b) :
    (lMathRandom51 prng [.ok b]).1 = .ok (.number (⌊nextReal prng * toCInt b⌋ + 1)) := by
  simp only [lMathRandom51, checkinteger, ok_bind, argcheck_eq_ok h]
  rfl

theorem lMathRandom51_upTo_empty (h : toCInt b < 1) :
    (lMathRandom51 prng [.ok b]).1 =
      .error (.raised (.argError 1 (lit "interval is empty"))) := by
  simp only [lMathRandom51, checkinteger, ok_bind, argcheck_eq_error (Int.not_le.mpr h),
    error_bind]

theorem lMathRandom51_between_empty (h : toCInt b < toCInt a) :
    (lMathRandom51 prng [.ok a, .ok b]).1 =
      .error (.raised (.argError 2 (lit "interval is empty"))) := by
  simp only [lMathRandom51, checkinteger, ok_bind, argcheck_eq_error (Int.not_le.mpr h),
    error_bind]

theorem lMathRandom51_between (h : toCInt a ≤ toCInt b) (hfits : toCInt b - toCInt a < intMax) :
    (lMathRandom51 prng [.ok a, .ok b]).1 =
      .ok (.number (⌊nextReal prng * (toCInt b - toCInt a + 1 : Int)⌋ + toCInt a)) := by
  have hspan := @checked_eq_ok intMax (toCInt b - toCInt a) (by omega) (by omega)
  have hwidth := @checked_eq_ok intMax (toCInt b - toCInt a + 1) (by omega) (by omega)
  simp only [lMathRandom51, checkinteger, ok_bind, argcheck_eq_ok h, hspan, hwidth]
  rfl

/-- The number of integers in the interval overflows. -/
theorem lMathRandom51_overflow (h : intMax ≤ toCInt b - toCInt a) :
    (lMathRandom51 prng [.ok a, .ok b]).1 = .error .overflow := by
  have hle : toCInt a ≤ toCInt b := by omega
  simp only [lMathRandom51, checkinteger, ok_bind, argcheck_eq_ok hle]
  rcases Int.lt_or_eq_of_le h with hlt | heq
  · rw [checked_eq_error (Or.inr hlt), error_bind]
  · rw [← heq, checked_eq_ok (by omega) (Int.le_refl _), ok_bind,
      checked_eq_error (Or.inr (Int.lt_succ _)), error_bind]

theorem call51_of_fits {c : Call} {l u : Int} (h : interval .lua51 c = some (l, u))
    (hfits : u - l < intMax) : Good .lua51 c (call .lua51 prng c).1 := by
  rcases interval_cases h with ⟨b, rfl, rfl, rfl⟩ | ⟨a, b, rfl, rfl, rfl⟩
  · simp only [call, Version.lMathRandom, Version.ofInteger] at h hfits ⊢
    rcases lt_or_ge (toCInt b) 1 with hlt | hle
    · rw [lMathRandom51_upTo_empty prng hlt]
      exact good_of_raised h (Int.not_le.mpr hlt) _
    · have hmem := floor_mul_mem (nextReal_mem prng) (by omega : 0 < toCInt b)
      rw [lMathRandom51_upTo prng hle]
      exact good_of_value h (i := ⌊nextReal prng * toCInt b⌋ + 1) (by simp [Pushed.value])
        (by omega) (by omega)
  · simp only [call, Version.lMathRandom, Version.ofInteger] at h hfits ⊢
    rcases lt_or_ge (toCInt b) (toCInt a) with hlt | hle
    · rw [lMathRandom51_between_empty prng hlt]
      exact good_of_raised h (Int.not_le.mpr hlt) _
    · have hmem := floor_mul_mem (nextReal_mem prng)
        (by omega : 0 < toCInt b - toCInt a + 1)
      rw [lMathRandom51_between prng hle hfits]
      exact good_of_value h (i := ⌊nextReal prng * (toCInt b - toCInt a + 1 : Int)⌋ + toCInt a)
        (by simp [Pushed.value]) (by omega) (by omega)

/-- The other way round, an interval that does not fit is not empty. -/
theorem call51_of_not_fits {c : Call} {l u : Int} (h : interval .lua51 c = some (l, u))
    (hfits : ¬ u - l < intMax) : (call .lua51 prng c).1 = .error .overflow := by
  rcases interval_cases h with ⟨b, rfl, rfl, rfl⟩ | ⟨a, b, rfl, rfl, rfl⟩
  · have hb := (toCInt_mem b).2
    simp only [Version.ofInteger] at hfits
    omega
  · simp only [call, Version.lMathRandom, Version.ofInteger] at hfits ⊢
    rw [lMathRandom51_overflow prng (Int.not_lt.mp hfits)]
    rfl

end Lua51

/-! ## Lua 5.3 -/

theorem toInt_mem (i : Int64) : -luaMaxInteger - 1 ≤ i.toInt ∧ i.toInt ≤ luaMaxInteger := by
  have h0 := i.le_toInt
  have h1 := i.toInt_lt
  simp only [luaMaxInteger]
  omega

section Lua53

variable {l u : Int}

theorem pushInteger_of_lt (r : ℚ) (h : u < l) :
    pushInteger r l u = .error (.raised (.argError 1 (lit "interval is empty"))) := by
  rw [pushInteger, argcheck_eq_error (Int.not_le.mpr h), error_bind]

/-- Behind the checks, the width of the interval is a `lua_Integer`. -/
theorem pushInteger_of_admits (r : ℚ) (hl : -luaMaxInteger - 1 ≤ l) (hle : l ≤ u)
    (h : u - l ≤ luaMaxInteger) :
    pushInteger r l u = do
      let i ← checked luaMaxInteger
        (truncate (r * roundNat dblMantDig (roundNat dblMantDig (u - l).toNat + 1)))
      return .integer (← checked luaMaxInteger (i + l)) := by
  rw [pushInteger, argcheck_eq_ok hle, ok_bind]
  rcases lt_or_ge l 0 with hneg | hneg
  · rw [if_pos hneg, checked_eq_ok (by omega) (by omega), ok_bind, argcheck_eq_ok (by omega),
      ok_bind, checked_eq_ok (by omega) h, ok_bind]
  · rw [if_neg (Int.not_lt.mpr hneg), checked_eq_ok (by omega) h]
    rfl

variable (hl : -luaMaxInteger - 1 ≤ l) (hu : u ≤ luaMaxInteger)

include hl hu

theorem pushInteger_of_large (r : ℚ) (h : luaMaxInteger < u - l) :
    pushInteger r l u = .error (.raised (.argError 1 (lit "interval too large"))) := by
  have hle : l ≤ u := by omega
  have hneg : l < 0 := by omega
  have hlarge : ¬ u ≤ luaMaxInteger + l := by omega
  rw [pushInteger, argcheck_eq_ok hle, ok_bind, if_pos hneg,
    checked_eq_ok (by omega) (by omega), ok_bind, argcheck_eq_error hlarge]
  rfl

/-- No operation overflows, and the result is in the interval. -/
theorem pushInteger_eq (prng : PRNG) (hle : l ≤ u) (h : u - l ≤ luaMaxInteger) :
    ∃ i, pushInteger ((prngNext prng).1 * (1 / (prngMax + 1))) l u = .ok (.integer i) ∧
      l ≤ i ∧ i ≤ u := by
  generalize hi : truncate ((prngNext prng).1 * (1 / (prngMax + 1)) *
    roundNat dblMantDig (roundNat dblMantDig (u - l).toNat + 1)) = i
  have hmem := truncate_mem (prngNext_le prng) (u - l).toNat hi
  refine ⟨i + l, ?_, by omega, by omega⟩
  rw [pushInteger_of_admits _ hl hle h, hi, checked_eq_ok (by omega) (by omega), ok_bind,
    checked_eq_ok (by omega) (by omega)]
  rfl

end Lua53

theorem call53_good (prng : PRNG) {c : Call} {l u : Int} (h : interval .lua53 c = some (l, u)) :
    Good .lua53 c (call .lua53 prng c).1 := by
  have hcall : (call .lua53 prng c).1 =
      (pushInteger ((prngNext prng).1 * (1 / (prngMax + 1))) l u).map some := by
    rcases interval_cases h with ⟨b, rfl, rfl, rfl⟩ | ⟨a, b, rfl, rfl, rfl⟩
    · rfl
    · rfl
  have hmem : -luaMaxInteger - 1 ≤ l ∧ u ≤ luaMaxInteger := by
    rcases interval_cases h with ⟨b, -, rfl, rfl⟩ | ⟨a, b, -, rfl, rfl⟩
    · exact ⟨by decide, (toInt_mem b).2⟩
    · exact ⟨(toInt_mem a).1, (toInt_mem b).2⟩
  rw [hcall]
  rcases lt_or_ge u l with hlt | hle
  · rw [pushInteger_of_lt _ hlt]
    exact good_of_raised h (fun hadmits => Int.not_le.mpr hlt hadmits.1) _
  rcases lt_or_ge (luaMaxInteger : Int) (u - l) with hlarge | hspan
  · rw [pushInteger_of_large hmem.1 hmem.2 _ hlarge]
    exact good_of_raised h (fun hadmits => Int.not_le.mpr hlarge hadmits.2) _
  · obtain ⟨i, hi, hli, hiu⟩ := pushInteger_eq hmem.1 hmem.2 prng hle hspan
    rw [hi]
    exact good_of_value h rfl hli hiu

/-! ## All calls -/

theorem call_good_of_fits {v : Version} {c : Call} (h : Fits v c) (prng : PRNG) :
    Good v c (call v prng c).1 := by
  cases hc : interval v c with
  | none =>
      refine ⟨call_ne_overflow hc prng, ?_⟩
      intro l u h'
      cases hc.symm.trans h'
  | some bounds =>
      obtain ⟨l, u⟩ := bounds
      cases v with
      | lua51 => exact call51_of_fits prng hc (h l u hc)
      | lua53 => exact call53_good prng hc

theorem call_of_not_fits {v : Version} {c : Call} (h : ¬ Fits v c) (prng : PRNG) :
    (call v prng c).1 = .error .overflow ∧ ¬ Answers v c (.error .overflow) := by
  cases v with
  | lua53 => exact absurd trivial h
  | lua51 =>
      simp only [Fits, not_forall] at h
      obtain ⟨l, u, hc, hfits⟩ := h
      refine ⟨call51_of_not_fits prng hc hfits, ?_⟩
      intro hanswers
      have hadmits : l ≤ u := by omega
      obtain ⟨p, i, hp, -⟩ := hanswers l u hc hadmits
      cases hp

theorem run_cons (v : Version) (prng : PRNG) (c : Call) (calls : List Call) :
    run v prng (c :: calls) =
      if (call v prng c).1 = .error .overflow then [(call v prng c).1]
      else (call v prng c).1 :: run v (call v prng c).2 calls := rfl

/-- In a run from any state of the generator, each call for an interval is answered with an integer
in it, without an overflow, exactly when the intervals fit. -/
theorem run_answers_iff (v : Version) (prng : PRNG) (calls : List Call) :
    List.Forall₂ (Answers v) calls (run v prng calls) ↔ ∀ c ∈ calls, Fits v c := by
  induction calls generalizing prng with
  | nil => exact iff_of_true .nil (List.forall_mem_nil _)
  | cons c calls ih =>
      by_cases hfits : Fits v c
      · obtain ⟨hrun, hanswers⟩ := call_good_of_fits hfits prng
        rw [run_cons, if_neg hrun, List.forall₂_cons, List.forall_mem_cons, ih]
        exact and_congr (iff_of_true hanswers hfits) Iff.rfl
      · obtain ⟨hcall, hanswers⟩ := call_of_not_fits hfits prng
        rw [run_cons, hcall, if_pos rfl, List.forall₂_cons, List.forall_mem_cons]
        exact iff_of_false (fun h => hanswers h.1) (fun h => hfits h.1)

/-- The widest interval from 0 on, at the start of a program. -/
theorem run_overflow :
    run .lua51 (prngInit 1) [.random [.ok 0, .ok 2147483647]] = [.error .overflow] ∧
      ¬ List.Forall₂ (Answers .lua51) [.random [.ok 0, .ok 2147483647]]
        (run .lua51 (prngInit 1) [.random [.ok 0, .ok 2147483647]]) := by
  have hrun : run .lua51 (prngInit 1) [.random [.ok 0, .ok 2147483647]] = [.error .overflow] := by
    decide
  refine ⟨hrun, ?_⟩
  rw [hrun, List.forall₂_cons]
  intro h
  obtain ⟨p, i, hp, -⟩ := h.1 0 2147483647 rfl (by decide : (0 : Int) ≤ 2147483647)
  cases hp

end Luastatus.Liblrand

import Luastatus.Lib.Decimal
import Luastatus.Lua.Error
import Luastatus.Lua.Value
import Mathlib.Data.Rat.Floor
import Mathlib.Tactic.NormNum

/-!
# Lua numbers in exact arithmetic

A Lua number is an integer or a floating-point number.  Here it is the rational number that exact
arithmetic gives, an infinity or not a number: rounding, the wrapping of integers in arithmetic and
the sign of zero are left out.

So the two agree on conversions, sums, differences, products and comparisons of integers as long as
the operands and the results are at most `2 ^ 53` in absolute value, in whatever representation, and
below `2 ^ 63` if they are all Lua integers.  A quotient of such numbers is what Lua gives up to one
rounding of the result.

Arithmetic takes strings for the numbers they spell.  `tonumber` is the conversion of `lobject.c`:
decimal and hexadecimal numerals, with a fraction and an exponent, between white space.
-/

namespace Lua

open Text (Byte Bytes isSpace baseDigit readDigits readDigits_digits isDigit_of_mem isSpace_digit
  digitValue ofDigitsFrom decimalValue ch lit)

/-- A Lua number. -/
inductive LuaNum where
  | fin (q : ℚ)
  | inf (neg : Bool)
  | nan
deriving DecidableEq, Repr

namespace LuaNum

/-- Unary minus. -/
def neg : LuaNum → LuaNum
  | fin q => fin (-q)
  | inf s => inf !s
  | nan => nan

/-- `+` -/
def add : LuaNum → LuaNum → LuaNum
  | fin a, fin b => fin (a + b)
  | fin _, inf t => inf t
  | inf s, fin _ => inf s
  | inf s, inf t => if s = t then inf s else nan
  | nan, _ => nan
  | _, nan => nan

/-- `-` -/
def sub (x y : LuaNum) : LuaNum := add x (neg y)

/-- `*` -/
def mul : LuaNum → LuaNum → LuaNum
  | fin a, fin b => fin (a * b)
  | fin a, inf t => if a = 0 then nan else inf (xor (a < 0) t)
  | inf s, fin b => if b = 0 then nan else inf (xor s (b < 0))
  | inf s, inf t => inf (xor s t)
  | nan, _ => nan
  | _, nan => nan

/-- `/` -/
def div : LuaNum → LuaNum → LuaNum
  | fin a, fin b => if b = 0 then (if a = 0 then nan else inf (a < 0)) else fin (a / b)
  | fin _, inf _ => fin 0
  | inf s, fin b => inf (xor s (b < 0))
  | inf _, inf _ => nan
  | nan, _ => nan
  | _, nan => nan

instance : Add LuaNum := ⟨add⟩
instance : Sub LuaNum := ⟨sub⟩
instance : Mul LuaNum := ⟨mul⟩
instance : Div LuaNum := ⟨div⟩

/-- `<` -/
def lt : LuaNum → LuaNum → Bool
  | fin a, fin b => a < b
  | fin _, inf t => !t
  | inf s, fin _ => s
  | inf s, inf t => s && !t
  | nan, _ => false
  | _, nan => false

/-- `<=` -/
def le : LuaNum → LuaNum → Bool
  | nan, _ => false
  | _, nan => false
  | x, y => !lt y x

/-- `math.floor` -/
def floor : LuaNum → LuaNum
  | fin q => fin ⌊q⌋
  | x => x

/-- `math.min` of two numbers. -/
def min (x y : LuaNum) : LuaNum := if lt y x then y else x

/-- `math.abs` -/
def abs : LuaNum → LuaNum
  | fin q => fin |q|
  | inf _ => inf false
  | nan => nan

section Finite

variable (a b : ℚ)

@[simp] theorem fin_add : fin a + fin b = fin (a + b) := rfl

@[simp] theorem fin_sub : fin a - fin b = fin (a - b) := by
  rw [sub_eq_add_neg]
  rfl

@[simp] theorem fin_mul : fin a * fin b = fin (a * b) := rfl

theorem fin_div {b : ℚ} (h : b ≠ 0) : fin a / fin b = fin (a / b) := if_neg h

theorem fin_div_zero : fin a / fin 0 = if a = 0 then nan else inf (a < 0) := by
  change div (fin a) (fin 0) = _
  simp only [div, if_true]

@[simp] theorem lt_fin : lt (fin a) (fin b) = decide (a < b) := rfl

@[simp] theorem le_fin : le (fin a) (fin b) = decide (a ≤ b) := by
  simp [le, ← decide_not]

@[simp] theorem floor_fin : floor (fin a) = fin ⌊a⌋ := rfl

theorem min_fin : min (fin a) (fin b) = fin (Min.min a b) := by
  rw [min, lt_fin]
  rcases lt_or_ge b a with h | h
  · rw [if_pos (decide_eq_true h), min_eq_right h.le]
  · rw [if_neg (by simpa using h), min_eq_left h]

@[simp] theorem abs_fin : abs (fin a) = fin |a| := rfl

end Finite

end LuaNum

/-! ## The numerals -/

/-- The digits before and after the point, at least one of them. -/
def readMantissa (base : Nat) (s : Bytes) : Option (ℚ × Bytes) :=
  let (i, t) := readDigits base 0 s
  if t.head? = some (ch '.') then
    let (m, u) := readDigits base i (t.drop 1)
    if s.length = u.length + 1 then none
    else some (m / (base ^ ((t.drop 1).length - u.length) : Nat), u)
  else if t.length = s.length then none
  else some (i, t)

/-- The exponent, if there is one behind the letter. -/
def readExponent (lower upper : Char) (radix : Nat) (s : Bytes) : ℚ × Bytes :=
  if s.head? = some (ch lower) ∨ s.head? = some (ch upper) then
    let t := s.drop 1
    let neg : Bool := t.head? = some (ch '-')
    let t := if neg ∨ t.head? = some (ch '+') then t.drop 1 else t
    if (t.head?.bind (baseDigit 10)).isSome then
      let (e, u) := readDigits 10 0 t
      (if neg then 1 / (radix ^ e : Nat) else (radix ^ e : Nat), u)
    else (1, s)
  else (1, s)

/-- The numeral at the beginning of a string.  A hexadecimal integer wraps around in 64 bits. -/
def readNumeral (s : Bytes) : Option (ℚ × Bytes) :=
  if s.head? = some (ch '0') ∧ (s[1]? = some (ch 'x') ∨ s[1]? = some (ch 'X')) then do
    let (m, t) ← readMantissa 16 (s.drop 2)
    let (e, u) := readExponent 'p' 'P' 2 t
    if ch '.' ∉ (s.drop 2).take ((s.drop 2).length - t.length) ∧ t = u then
      return (((readDigits 16 0 (s.drop 2)).1 : ℤ).bmod (2 ^ 64), u)
    return (m * e, u)
  else do
    let (m, t) ← readMantissa 10 s
    let (e, u) := readExponent 'e' 'E' 10 t
    return (m * e, u)

/-- `tonumber` of a string. -/
def tonumber (s : Bytes) : Option LuaNum := do
  let t := s.dropWhile isSpace
  let neg : Bool := t.head? = some (ch '-')
  let t := if neg ∨ t.head? = some (ch '+') then t.drop 1 else t
  let (q, u) ← readNumeral t
  if u.all isSpace then return .fin (if neg then -q else q)
  none

/-! ## Decimal digits -/

theorem readNumeral_digits {s : Bytes} {ds : List Nat} (hds : s.mapM digitValue = some ds)
    (hne : s ≠ []) : readNumeral s = some (((ofDigitsFrom 0 ds : Nat) : ℚ), []) := by
  have hhex : ¬ (s.head? = some (ch '0') ∧ (s[1]? = some (ch 'x') ∨ s[1]? = some (ch 'X'))) := by
    rintro ⟨-, h | h⟩
    · exact absurd (isDigit_of_mem hds (List.mem_of_getElem? h)).2 (by decide)
    · exact absurd (isDigit_of_mem hds (List.mem_of_getElem? h)).2 (by decide)
  have hlength : ¬ ([] : Bytes).length = s.length := fun h =>
    hne (List.eq_nil_of_length_eq_zero h.symm)
  have hmantissa : readMantissa 10 s = some (((ofDigitsFrom 0 ds : Nat) : ℚ), []) := by
    simp only [readMantissa, readDigits_digits hds 0]
    rw [if_neg (by simp), if_neg hlength]
  simp [readNumeral, hhex, hmantissa, readExponent]

/-- A string of digits is the number it denotes. -/
theorem tonumber_digits {s : Bytes} {n : Nat} (h : decimalValue s = some n) :
    tonumber s = some (.fin n) := by
  rw [decimalValue] at h
  split at h
  · cases h
  · rename_i hne
    obtain ⟨ds, hds, rfl⟩ := Option.map_eq_some_iff.mp h
    have hnumeral := readNumeral_digits hds hne
    obtain ⟨b, s, rfl⟩ := List.exists_cons_of_ne_nil hne
    have hb := isDigit_of_mem hds List.mem_cons_self
    have hspace : (b :: s).dropWhile isSpace = b :: s := by
      rw [List.dropWhile_cons_of_neg (by simp [isSpace_digit hb])]
    have hsign : b ≠ ch '-' ∧ b ≠ ch '+' := by
      constructor
      all_goals
        rintro rfl
        exact absurd hb.1 (by decide)
    simp [tonumber, hspace, hsign, hnumeral]

/-! ## Values -/

/-- `t.name` -/
def field {F : Type} (t : Table F) (name : String) : Val F := t (.str (lit name))

/-- `t.name = v` -/
def setField {F : Type} (t : Table F) (name : String) (v : Val F) : Table F :=
  t.rawset (.str (lit name)) v

theorem field_setField {F : Type} (t : Table F) (name name' : String) (v : Val F) :
    field (setField t name v) name' = if lit name' = lit name then v else field t name' := by
  rw [field, setField, Table.rawset, Function.update_apply]
  simp only [Key.str.injEq]
  rfl

/-- Whether a value counts as true. -/
def Val.truthy {F : Type} : Val F → Bool
  | .nil => false
  | .boolean b => b
  | _ => true

/-- Whether a value is the string. -/
def Val.isString {F : Type} (s : Bytes) : Val F → Bool
  | .string t => t = s
  | _ => false

/-- `luaL_typename` of a value. -/
def Val.typeName {F : Type} : Val F → Bytes
  | .nil => lit "nil"
  | .boolean _ => lit "boolean"
  | .number _ => lit "number"
  | .string _ => lit "string"
  | .nullUserdata => lit "userdata"
  | .table _ _ => lit "table"

/-- The number that an operand stands for.  The error does not name the variable. -/
def toOperand : Val LuaNum → Except LuaError LuaNum
  | .number x => .ok x
  | .string s =>
      match tonumber s with
      | some x => .ok x
      | none => .error (.error (lit "attempt to perform arithmetic on a string value"))
  | v => .error (.error (lit "attempt to perform arithmetic on a " ++ v.typeName ++ lit " value"))

/-- `tonumber` of a value, `none` for `nil`. -/
def tonumberOf : Val LuaNum → Option LuaNum
  | .number x => some x
  | .string s => tonumber s
  | _ => none

/-- A field holds a number, or a numeral for it. -/
def Holds (t : Table LuaNum) (name : String) (q : ℚ) : Prop :=
  tonumberOf (field t name) = some (.fin q)

theorem Holds.setField {t : Table LuaNum} {name' : String} {q : ℚ} (h : Holds t name' q)
    (name : String) (v : Val LuaNum) (hne : lit name' ≠ lit name) :
    Holds (setField t name v) name' q := by
  rw [Holds, field_setField, if_neg hne]
  exact h

/-- A binary operator. -/
def arith (op : LuaNum → LuaNum → LuaNum) (x y : Val LuaNum) : Except LuaError LuaNum := do
  return op (← toOperand x) (← toOperand y)

theorem toOperand_eq_ok {v : Val LuaNum} {x : LuaNum} :
    toOperand v = .ok x ↔ tonumberOf v = some x := by
  cases v with
  | number y => simp [toOperand, tonumberOf]
  | string s =>
      rw [toOperand, tonumberOf]
      cases tonumber s with
      | some y => simp
      | none => simp
  | nil => simp [toOperand, tonumberOf]
  | boolean b => simp [toOperand, tonumberOf]
  | nullUserdata => simp [toOperand, tonumberOf]
  | table mt get => simp [toOperand, tonumberOf]

theorem arith_eq {op : LuaNum → LuaNum → LuaNum} {v w : Val LuaNum} {x y : LuaNum}
    (hv : tonumberOf v = some x) (hw : tonumberOf w = some y) : arith op v w = .ok (op x y) := by
  rw [arith, toOperand_eq_ok.mpr hv, toOperand_eq_ok.mpr hw]
  rfl

end Lua

import Luastatus.Lib.Strtol
import Luastatus.Dbus.Types

/-!
# Values of the dbus plugin

`LuaVal` are the Lua values that the plugin converts.  A table is given by its values from 1 to its
length, which is all that is read of it; it has no metatable.

`IntType` are the six integer types.  GLib makes a value of each with a function of its own, after
C has converted a 64-bit integer to the type (`IntType.wrap`).

`Api` are the functions of Lua and GLib that the plugin calls, and `Api.Lawful` is what they are
documented to do: a value has the type, the class and the contents that it was made with.
-/

namespace Luastatus.Dbus

open Text (Byte Bytes ch lit Spells)
open Lua

/-! ## Lua values -/

/-- `LUA_MAXINTEGER`, which is also `LS_LUA_MAXI`. -/
def luaMaxInteger : Nat := 2 ^ 63 - 1

/-- `lua_Integer`. -/
abbrev LuaInteger := { i : Int // -2 ^ 63 ≤ i ∧ i < 2 ^ 63 }

/-- A Lua number; `D` are the floats. -/
inductive Number (D : Type) where
  | integer (i : LuaInteger)
  | float (x : D)

/-- A Lua value; `V` are the D-Bus values. -/
inductive LuaVal (D V : Type) where
  | nil
  | boolean (b : Bool)
  | number (n : Number D)
  | string (s : Bytes)
  | table (items : List (LuaVal D V))
  /-- A D-Bus value object. -/
  | value (v : V)
  /-- What `push_special_object` pushes: a function that returns the text, or nil and the text. -/
  | special (text : Bytes) (isError : Bool)
  /-- Another value, with the name of its type. -/
  | other (typeName : Bytes)

/-- `luaL_typename`. -/
def LuaVal.typeName {D V : Type} : LuaVal D V → Bytes
  | .nil => lit "nil"
  | .boolean _ => lit "boolean"
  | .number _ => lit "number"
  | .string _ => lit "string"
  | .table _ => lit "table"
  | .value _ => lit "userdata"
  | .special _ _ => lit "function"
  | .other typeName => typeName

/-- Lua's conversions of numbers. -/
structure NumberOps (D : Type) where
  /-- The integer that a float is equal to, if there is one. -/
  toInteger : D → Option Int
  ofInteger : LuaInteger → D
  /-- What `lua_tolstring` makes of a number. -/
  toString : Number D → Bytes
  /-- The number that a string is converted to, if there is one. -/
  ofString : Bytes → Option (Number D)

section Numbers

variable {D : Type} (N : NumberOps D)

/-- The integer that a number is equal to, if there is one. -/
def NumberOps.integerValue : Number D → Option Int
  | .integer i => some i
  | .float x => N.toInteger x

/-- `lua_tointeger` on a number: zero if there is no such `lua_Integer`. -/
def NumberOps.luaTointeger (n : Number D) : Int :=
  match N.integerValue n with
  | some i => if -2 ^ 63 ≤ i ∧ i < 2 ^ 63 then i else 0
  | none => 0

/-- `lua_tonumber` on a number. -/
def NumberOps.luaTonumber : Number D → D
  | .integer i => N.ofInteger i
  | .float x => x

end Numbers

/-! ## Integer types -/

/-- The types of integers. -/
inductive IntType where
  | int16
  | uint16
  | int32
  | uint32
  | int64
  | uint64
deriving DecidableEq, Repr

namespace IntType

/-- The type string. -/
def letter : IntType → Byte
  | int16 => ch 'n'
  | uint16 => ch 'q'
  | int32 => ch 'i'
  | uint32 => ch 'u'
  | int64 => ch 'x'
  | uint64 => ch 't'

def isSigned : IntType → Bool
  | int16 | int32 | int64 => true
  | uint16 | uint32 | uint64 => false

def bits : IntType → Nat
  | int16 | uint16 => 16
  | int32 | uint32 => 32
  | int64 | uint64 => 64

/-- The integers of the type. -/
def InRange (k : IntType) (i : Int) : Prop :=
  if k.isSigned then -2 ^ (k.bits - 1) ≤ i ∧ i < 2 ^ (k.bits - 1) else 0 ≤ i ∧ i < 2 ^ k.bits

instance (k : IntType) (i : Int) : Decidable (k.InRange i) := by
  unfold InRange
  infer_instance

/-- Conversion of an integer to the type, modulo the number of its values. -/
def wrap (k : IntType) (v : Int) : Int :=
  if k.isSigned then v.bmod (2 ^ k.bits) else v % 2 ^ k.bits

/-- The type with a letter. -/
def ofLetter (c : Byte) : Option IntType :=
  [int16, uint16, int32, uint32, int64, uint64].find? (·.letter = c)

theorem letter_mem (k : IntType) : k.letter ∈ basicLetters := by
  cases k <;> decide

@[simp] theorem ofLetter_letter (k : IntType) : ofLetter k.letter = some k := by
  cases k <;> decide

/-- An integer of the type survives `uint64_t`. -/
theorem wrap_of_inRange {k : IntType} {i : Int} (h : k.InRange i) : k.wrap (i % 2 ^ 64) = i := by
  cases k <;> simp only [InRange, wrap, isSigned, bits, Bool.false_eq_true, ↓reduceIte,
    Int.bmod_def] at h ⊢ <;> omega

/-- The range of every type but one is one of `lua_Integer`. -/
theorem lt_of_inRange {k : IntType} {i : Int} (h : k.InRange i) (hk : k ≠ uint64) :
    -2 ^ 63 ≤ i ∧ i < 2 ^ 63 := by
  cases k with
  | uint64 => exact absurd rfl hk
  | int16 | uint16 | int32 | uint32 | int64 =>
      simp only [InRange, isSigned, bits, Bool.false_eq_true, ↓reduceIte] at h
      omega

end IntType

/-! ## GLib's values -/

/-- More functions on `GVariantType` that the plugin calls. -/
structure TypeQueries (T : Type) extends TypeOps T where
  /-- `g_variant_type_is_variant`. -/
  isVariant : T → Bool
  /-- `g_variant_type_is_array`. -/
  isArray : T → Bool
  /-- `g_variant_type_is_tuple`. -/
  isTuple : T → Bool
  /-- `g_variant_type_is_dict_entry`. -/
  isDictEntry : T → Bool
  /-- `g_variant_type_element`. -/
  element : T → T
  /-- `g_variant_type_first` and `g_variant_type_next`. -/
  items : T → List T
  /-- `g_variant_type_key`. -/
  key : T → T
  /-- `g_variant_type_value`. -/
  value : T → T
  /-- `g_variant_type_equal`. -/
  equal : T → T → Bool

/-- `GVariantClass`. -/
inductive Class where
  | boolean
  | byte
  | int (k : IntType)
  | double
  | string
  | objectPath
  | signature
  | variant
  | array
  | tuple
  | dictEntry
  | handle
deriving DecidableEq, Repr

/-- The functions on `GVariant` that the plugin calls. -/
structure ValueOps (D T V : Type) where
  newBoolean : Bool → V
  newByte : Byte → V
  /-- `g_variant_new_int16` and its siblings. -/
  newInt : IntType → Int → V
  newDouble : D → V
  newString : Bytes → V
  newObjectPath : Bytes → V
  newSignature : Bytes → V
  newVariant : V → V
  newArray : T → List V → V
  newTuple : List V → V
  newDictEntry : V → V → V
  getType : V → T
  classify : V → Class
  getBoolean : V → Bool
  getByte : V → Byte
  /-- `g_variant_get_int16` and its siblings. -/
  getInt : IntType → V → Int
  getDouble : V → D
  getString : V → Bytes
  getVariant : V → V
  /-- What an iterator visits. -/
  children : V → List V
  /-- `g_utf8_validate_len`. -/
  utf8Validate : Bytes → Bool
  /-- `g_variant_is_object_path`. -/
  isObjectPath : Bytes → Bool
  /-- `g_variant_is_signature`. -/
  isSignature : Bytes → Bool

/-- The functions of Lua and GLib. -/
structure Api (D T V : Type) where
  num : NumberOps D
  types : TypeQueries T
  values : ValueOps D T V

/-- A basic type by its letter. -/
def BasicLetter.boolean : BasicLetter := ⟨ch 'b', by decide⟩

def BasicLetter.byte : BasicLetter := ⟨ch 'y', by decide⟩

def BasicLetter.int (k : IntType) : BasicLetter := ⟨k.letter, k.letter_mem⟩

def BasicLetter.double : BasicLetter := ⟨ch 'd', by decide⟩

def BasicLetter.string : BasicLetter := ⟨ch 's', by decide⟩

def BasicLetter.objectPath : BasicLetter := ⟨ch 'o', by decide⟩

def BasicLetter.signature : BasicLetter := ⟨ch 'g', by decide⟩

section Laws

variable {D T V : Type}

/-- The first letter of its type string tells what a type is, and a type has the parts that it was
made of. -/
structure TypeQueries.Lawful (Q : TypeQueries T) : Prop extends Q.toTypeOps.Lawful where
  isVariant : ∀ t, Q.isVariant t = true ↔ (Q.peekString t).head? = some (ch 'v')
  isArray : ∀ t, Q.isArray t = true ↔ (Q.peekString t).head? = some (ch 'a')
  isTuple : ∀ t, Q.isTuple t = true ↔ (Q.peekString t).head? = some (ch '(')
  isDictEntry : ∀ t, Q.isDictEntry t = true ↔ (Q.peekString t).head? = some (ch '{')
  element : ∀ t, Q.element (Q.newArray t) = t
  items : ∀ ts, Q.items (Q.newTuple ts) = ts
  key : ∀ k v, Q.key (Q.newDictEntry k v) = k
  value : ∀ k v, Q.value (Q.newDictEntry k v) = v
  equal_refl : ∀ t, Q.equal t t = true

/-- A value has a type, a class and contents. -/
def ValueOps.Has {α : Type} (G : ValueOps D T V) (v : V) (t : T) (c : Class) (get : V → α)
    (a : α) : Prop :=
  G.getType v = t ∧ G.classify v = c ∧ get v = a

/-- What GLib documents of values. -/
structure ValueOps.Lawful (G : ValueOps D T V) (Q : TypeQueries T) : Prop where
  boolean : ∀ b, G.Has (G.newBoolean b) (Q.new [ch 'b']) .boolean G.getBoolean b
  byte : ∀ b, G.Has (G.newByte b) (Q.new [ch 'y']) .byte G.getByte b
  int : ∀ k i, k.InRange i → G.Has (G.newInt k i) (Q.new [k.letter]) (.int k) (G.getInt k) i
  double : ∀ x, G.Has (G.newDouble x) (Q.new [ch 'd']) .double G.getDouble x
  string : ∀ s, G.utf8Validate s = true → 0 ∉ s →
    G.Has (G.newString s) (Q.new [ch 's']) .string G.getString s
  objectPath : ∀ s, G.isObjectPath s = true → 0 ∉ s →
    G.Has (G.newObjectPath s) (Q.new [ch 'o']) .objectPath G.getString s
  signature : ∀ s, G.isSignature s = true → 0 ∉ s →
    G.Has (G.newSignature s) (Q.new [ch 'g']) .signature G.getString s
  array : ∀ t vs, (∀ v ∈ vs, G.getType v = t) →
    G.Has (G.newArray t vs) (Q.newArray t) .array G.children vs
  tuple : ∀ vs, G.Has (G.newTuple vs) (Q.newTuple (vs.map G.getType)) .tuple G.children vs
  dictEntry : ∀ k v, Q.isBasic (G.getType k) = true →
    G.Has (G.newDictEntry k v) (Q.newDictEntry (G.getType k) (G.getType v)) .dictEntry
      G.children [k, v]

structure Api.Lawful (A : Api D T V) : Prop where
  types : A.types.Lawful
  values : A.values.Lawful A.types

end Laws

end Luastatus.Dbus

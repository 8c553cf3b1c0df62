import Luastatus.Lua.Error

/-!
# Type objects of the dbus plugin

Lua code holds D-Bus types as userdata with a `GVariantType`.  GLib makes and inspects those, so it
is a parameter: `TypeOps` are the functions that the plugin calls, and `TypeOps.Lawful` is what
they are documented to do.  A `GVariantType` is a type string in GLib, and `stringTypes` is that
representation.

`Dtype` are the types, with the grammar as its constructors, so that a dict entry has a basic key
and nothing else is a type.  `Dtype.spelling` is the type string of a type, and `Dtype.build` makes
its type object.
-/

namespace Luastatus.Dbus

open Text (Byte Bytes ch lit)
open Lua

/-! ## GLib's types -/

/-- The functions on `GVariantType` that the plugin calls. -/
structure TypeOps (T : Type) where
  /-- `g_variant_type_new`. -/
  new : Bytes → T
  /-- `g_variant_type_new_array`. -/
  newArray : T → T
  /-- `g_variant_type_new_tuple`. -/
  newTuple : List T → T
  /-- `g_variant_type_new_dict_entry`. -/
  newDictEntry : T → T → T
  /-- `g_variant_type_peek_string`, as long as `g_variant_type_get_string_length` says. -/
  peekString : T → Bytes
  /-- `g_variant_type_is_basic`. -/
  isBasic : T → Bool

/-- The letters of the basic types. -/
def basicLetters : Bytes := lit "bynqiuxthdsog"

/-- What GLib documents: the type string of a type is the concatenation of its parts, and tells
whether the type is basic. -/
structure TypeOps.Lawful {T : Type} (G : TypeOps T) : Prop where
  new : ∀ c, c ∈ basicLetters ∨ c = ch 'v' → G.peekString (G.new [c]) = [c]
  newArray : ∀ t, G.peekString (G.newArray t) = ch 'a' :: G.peekString t
  newTuple : ∀ ts, G.peekString (G.newTuple ts) =
    ch '(' :: ts.flatMap G.peekString ++ [ch ')']
  newDictEntry : ∀ k v, G.peekString (G.newDictEntry k v) =
    ch '{' :: G.peekString k ++ G.peekString v ++ [ch '}']
  isBasic : ∀ t, G.isBasic t = true ↔ ∃ c ∈ basicLetters, (G.peekString t).head? = some c

/-- Types as type strings. -/
def stringTypes : TypeOps Bytes where
  new s := s
  newArray t := ch 'a' :: t
  newTuple ts := ch '(' :: ts.flatMap id ++ [ch ')']
  newDictEntry k v := ch '{' :: k ++ v ++ [ch '}']
  peekString t := t
  isBasic t := t.head?.any (basicLetters.contains ·)

theorem stringTypes_lawful : stringTypes.Lawful where
  new _ _ := rfl
  newArray _ := rfl
  newTuple _ := rfl
  newDictEntry _ _ := rfl
  isBasic t := by simp [stringTypes, Option.any_eq_true, and_comm]

/-! ## The grammar -/

/-- The letter of a basic type. -/
abbrev BasicLetter := { c : Byte // c ∈ basicLetters }

/-- A D-Bus type. -/
inductive Dtype where
  | basic (c : BasicLetter)
  | variant
  | array (elem : Dtype)
  | tuple (items : List Dtype)
  | dictEntry (key : BasicLetter) (value : Dtype)

mutual

/-- The type string of a type. -/
def Dtype.spelling : Dtype → Bytes
  | .basic c => [c]
  | .variant => [ch 'v']
  | .array elem => ch 'a' :: elem.spelling
  | .tuple items => ch '(' :: spellings items ++ [ch ')']
  | .dictEntry key value => ch '{' :: key :: value.spelling ++ [ch '}']

/-- The type strings of some types, one after the other. -/
def spellings : List Dtype → Bytes
  | [] => []
  | t :: ts => t.spelling ++ spellings ts

end

section Build

variable {T : Type} (G : TypeOps T)

mutual

/-- The type object of a type. -/
def Dtype.build : Dtype → T
  | .basic c => G.new [c]
  | .variant => G.new [ch 'v']
  | .array elem => G.newArray elem.build
  | .tuple items => G.newTuple (buildAll items)
  | .dictEntry key value => G.newDictEntry (G.new [key]) value.build

/-- The type objects of some types. -/
def buildAll : List Dtype → List T
  | [] => []
  | t :: ts => t.build :: buildAll ts

end

theorem buildAll_eq_map (ts : List Dtype) : buildAll G ts = ts.map (·.build G) := by
  induction ts with
  | nil => rfl
  | cons t ts ih => rw [buildAll, ih, List.map_cons]

variable {G}

mutual

/-- GLib reports the type string of the type that was built. -/
theorem TypeOps.Lawful.peekString_build (hG : G.Lawful) :
    ∀ t : Dtype, G.peekString (t.build G) = t.spelling
  | .basic c => hG.new c (.inl c.2)
  | .variant => hG.new (ch 'v') (.inr rfl)
  | .array elem => by
      rw [Dtype.build, hG.newArray, hG.peekString_build elem, Dtype.spelling]
  | .tuple items => by
      rw [Dtype.build, hG.newTuple, hG.flatMap_buildAll items, Dtype.spelling]
  | .dictEntry key value => by
      rw [Dtype.build, hG.newDictEntry, hG.new key (.inl key.2), hG.peekString_build value,
        Dtype.spelling]
      rfl

theorem TypeOps.Lawful.flatMap_buildAll (hG : G.Lawful) :
    ∀ ts : List Dtype, (buildAll G ts).flatMap G.peekString = spellings ts
  | [] => rfl
  | t :: ts => by
      rw [buildAll, List.flatMap_cons, hG.peekString_build t, hG.flatMap_buildAll ts, spellings]

end

/-- The first letter of a type tells whether it is basic. -/
theorem TypeOps.Lawful.isBasic_build (hG : G.Lawful) (t : Dtype) :
    G.isBasic (t.build G) = true ↔ ∃ c, t = .basic c := by
  rw [hG.isBasic, hG.peekString_build]
  cases t with
  | basic c => exact iff_of_true ⟨c, c.2, rfl⟩ ⟨c, rfl⟩
  | variant => simp [Dtype.spelling]; decide
  | array elem => simp [Dtype.spelling]; decide
  | tuple items => simp [Dtype.spelling]; decide
  | dictEntry key value => simp [Dtype.spelling]; decide

end Build

end Luastatus.Dbus

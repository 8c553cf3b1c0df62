import Luastatus.Lib.Bytes
import Mathlib.Logic.Function.Basic

/-!
# Lua values that C code builds

C code builds tables with `lua_rawseti`, `lua_setfield` and `lua_settable` on tables without
metamethods.  Such a table is a function from keys to values, `nil` where the key is absent, and
setting a key is a point update.  Two tables are equal if and only if they agree on every key.

A table may have a metatable.  The only ones built have a single field, set to `true`, so its name
is all there is to remember.

`Table.setItems` and `Table.setFields` are the loops that fill a table.  `Table.ofItems` and
`Table.ofFields` say what the filled table is: an array from index 1 on, and a dictionary in which
the last of several members with one key wins.
-/

namespace Lua

open Text (Bytes)

/-- A key of a table. -/
inductive Key where
  | idx (n : Nat)
  | str (s : Bytes)
deriving DecidableEq, Repr

/-- A Lua value; `F` are the numbers. -/
inductive Val (F : Type) where
  | nil
  | boolean (b : Bool)
  | number (x : F)
  | string (s : Bytes)
  /-- The light userdata with the null pointer. -/
  | nullUserdata
  /-- `mt` is the name of the field that the metatable sets to `true`. -/
  | table (mt : Option Bytes) (get : Key → Val F)

/-- The contents of a table. -/
abbrev Table (F : Type) := Key → Val F

namespace Table

variable {F : Type}

/-- `lua_newtable`. -/
def empty : Table F := fun _ => .nil

/-- Set a key, without metamethods. -/
def rawset (t : Table F) (k : Key) (v : Val F) : Table F := Function.update t k v

/-! ## Arrays -/

/-- Set the indices from `i` on, one after the other. -/
def setItems (i : Nat) (t : Table F) : List (Val F) → Table F
  | [] => t
  | v :: vs => setItems (i + 1) (t.rawset (.idx i) v) vs

/-- The array with the given items, from index 1 on. -/
def ofItems (vs : List (Val F)) : Table F
  | .idx 0 => .nil
  | .idx (n + 1) => vs.getD n .nil
  | .str _ => .nil

theorem setItems_idx_of_lt {t : Table F} {i n : Nat} (vs : List (Val F)) (h : n < i) :
    setItems i t vs (.idx n) = t (.idx n) := by
  induction vs generalizing i t with
  | nil => rfl
  | cons v vs ih =>
      rw [setItems, ih (by omega), rawset, Function.update_of_ne]
      rintro he
      cases he
      omega

theorem setItems_idx {t : Table F} {i n : Nat} (vs : List (Val F)) :
    setItems i t vs (.idx (i + n)) =
      if n < vs.length then vs.getD n .nil else t (.idx (i + n)) := by
  induction vs generalizing i n t with
  | nil => simp [setItems]
  | cons v vs ih =>
      cases n with
      | zero =>
          rw [setItems, setItems_idx_of_lt vs (by omega), rawset]
          simp
      | succ n =>
          rw [setItems, show i + (n + 1) = i + 1 + n by omega, ih, rawset,
            Function.update_of_ne (fun he => by injection he; omega)]
          simp

theorem setItems_str {t : Table F} {i : Nat} {s : Bytes} (vs : List (Val F)) :
    setItems i t vs (.str s) = t (.str s) := by
  induction vs generalizing i t with
  | nil => rfl
  | cons v vs ih => rw [setItems, ih, rawset, Function.update_of_ne (by simp)]

/-- Filling a new table from index 1 on. -/
theorem setItems_empty (vs : List (Val F)) : setItems 1 empty vs = ofItems vs := by
  funext k
  cases k with
  | str s => exact setItems_str vs
  | idx n =>
      cases n with
      | zero => exact setItems_idx_of_lt vs (by omega)
      | succ n =>
          rw [Nat.add_comm n 1, setItems_idx, Nat.add_comm 1 n, ofItems, empty]
          split
          · rfl
          · rename_i h
            rw [List.getD_eq_getElem?_getD, List.getElem?_eq_none (by omega), Option.getD_none]

/-! ## Dictionaries -/

/-- Set the fields one after the other. -/
def setFields (t : Table F) : List (Bytes × Val F) → Table F
  | [] => t
  | (k, v) :: ms => setFields (t.rawset (.str k) v) ms

/-- The dictionary with the given members, the last one with a key winning. -/
def ofFields (ms : List (Bytes × Val F)) : Table F
  | .str s => (ms.reverse.lookup s).getD .nil
  | .idx _ => .nil

theorem setFields_idx {t : Table F} {n : Nat} (ms : List (Bytes × Val F)) :
    setFields t ms (.idx n) = t (.idx n) := by
  induction ms generalizing t with
  | nil => rfl
  | cons m ms ih =>
      obtain ⟨k, v⟩ := m
      rw [setFields, ih, rawset, Function.update_of_ne (by simp)]

theorem setFields_str {t : Table F} {s : Bytes} (ms : List (Bytes × Val F)) :
    setFields t ms (.str s) = (ms.reverse.lookup s).getD (t (.str s)) := by
  induction ms generalizing t with
  | nil => rfl
  | cons m ms ih =>
      obtain ⟨k, v⟩ := m
      rw [setFields, ih, List.reverse_cons, List.lookup_append]
      cases ms.reverse.lookup s with
      | some w => rfl
      | none =>
          by_cases hk : s = k
          · subst hk
            simp [rawset]
          · have hb : (s == k) = false := by simpa using hk
            rw [List.lookup_cons, hb]
            simp [rawset, hk]

/-- Filling a new table with fields. -/
theorem setFields_empty (ms : List (Bytes × Val F)) : setFields empty ms = ofFields ms := by
  funext k
  cases k with
  | idx n => exact setFields_idx ms
  | str s => exact setFields_str ms

end Table

end Lua

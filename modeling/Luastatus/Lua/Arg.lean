import Luastatus.Lib.Bytes
import Mathlib.Data.List.Nodup
import Mathlib.Data.List.TakeWhile

/-!
# Lua values that C code reads

The result of a widget's callback is read with `lua_type`, `lua_rawlen`, `lua_rawgeti` and
`lua_next`.  A table is the list of its entries in the order in which `lua_next` visits them, with
the length that `lua_rawlen` reports.  For a table with holes that length is any border, so it is
kept as a number of its own.
-/

namespace Lua

open Text (Bytes)

/-- A key of a table. -/
inductive ArgKey where
  | str (s : Bytes)
  /-- An integer from 1 on. -/
  | index (n : Nat)
  /-- Another number. -/
  | number
  /-- A value that is neither a string nor a number. -/
  | other
deriving DecidableEq, Repr

/-- A Lua value that is read; `F` are the numbers. -/
inductive Arg (F : Type) where
  | nil
  | boolean (b : Bool)
  | number (x : F)
  | string (s : Bytes)
  | table (len : Nat) (entries : List (ArgKey × Arg F))
  /-- A function, a userdata or a thread. -/
  | other

/-- The entries of a table. -/
abbrev Entries (F : Type) := List (ArgKey × Arg F)

/-- `lua_rawgeti`. -/
def rawgeti {F : Type} (entries : Entries F) (i : Nat) : Arg F :=
  (entries.lookup (.index i)).getD .nil

/-- What a loop over `lua_rawgeti` visits, from 1 to the length that `lua_rawlen` reports. -/
def arrayValues {F : Type} (len : Nat) (entries : Entries F) : List (Arg F) :=
  (List.range' 1 len).map (rawgeti entries)

/-- The table has the values at the integers from 1 on, and nothing else. -/
def IsArray {F : Type} (len : Nat) (entries : Entries F) (values : List (Arg F)) : Prop :=
  len = values.length ∧ entries.Perm ((values.zipIdx 1).map fun (v, i) => (.index i, v))

theorem lookup_eq_some_of_mem {F : Type} {entries : Entries F}
    (hnodup : (entries.map Prod.fst).Nodup) {key : ArgKey} {v : Arg F} (h : (key, v) ∈ entries) :
    entries.lookup key = some v := by
  induction entries with
  | nil => cases h
  | cons e entries ih =>
      rw [List.map_cons, List.nodup_cons] at hnodup
      rcases List.mem_cons.mp h with rfl | h
      · exact List.lookup_cons_self
      · have hne : key ≠ e.1 := by
          rintro rfl
          exact hnodup.1 (List.mem_map.mpr ⟨_, h, rfl⟩)
        rw [List.lookup_cons, beq_false_of_ne hne]
        exact ih hnodup.2 h

/-- The values of an array are what is visited. -/
theorem arrayValues_of_isArray {F : Type} {len : Nat} {entries : Entries F}
    {values : List (Arg F)} (h : IsArray len entries values) :
    arrayValues len entries = values := by
  obtain ⟨rfl, hperm⟩ := h
  have hkeys : ((values.zipIdx 1).map fun (v, i) => (ArgKey.index i, v)).map Prod.fst =
      (List.range' 1 values.length).map .index := by
    rw [List.map_map, ← List.zipIdx_map_snd 1 values, List.map_map]
    rfl
  have hnodup : (entries.map Prod.fst).Nodup := by
    rw [(hperm.map Prod.fst).nodup_iff, hkeys]
    exact (List.nodup_range' (s := 1)).map fun _ _ => ArgKey.index.inj
  refine List.ext_getElem (by simp [arrayValues]) fun i hi hi' => ?_
  simp only [arrayValues, List.getElem_map, List.getElem_range', rawgeti]
  have hmem : (ArgKey.index (1 + 1 * i), values[i]) ∈ entries := by
    refine hperm.mem_iff.mpr (List.mem_map.mpr ⟨(values[i], 1 + 1 * i), ?_, rfl⟩)
    rw [List.mk_mem_zipIdx_iff_le_and_getElem?_sub, Nat.one_mul, Nat.add_sub_cancel_left]
    exact ⟨Nat.le_add_right 1 i, List.getElem?_eq_getElem hi'⟩
  rw [lookup_eq_some_of_mem hnodup hmem]
  rfl

/-- `const char *` of a Lua string: the bytes before the first NUL. -/
def cstr (s : Bytes) : Bytes := s.takeWhile (· ≠ 0)

theorem cstr_eq {s : Bytes} (h : 0 ∉ s) : cstr s = s := by
  refine List.takeWhile_eq_self_iff.mpr fun b hb => ?_
  exact decide_eq_true fun he => h (he ▸ hb)

theorem cstr_eq_iff {s : Bytes} : cstr s = s ↔ 0 ∉ s := by
  refine ⟨fun h hmem => ?_, cstr_eq⟩
  have hne := List.takeWhile_eq_self_iff.mp h 0 hmem
  exact of_decide_eq_true hne rfl

theorem not_mem_cstr (s : Bytes) : 0 ∉ cstr s := by
  intro hmem
  rw [cstr] at hmem
  have hne := List.mem_takeWhile_imp hmem
  exact of_decide_eq_true hne rfl

/-- How `printf` writes numbers, and which are finite. -/
structure NumFormat (F : Type) where
  /-- `isfinite`. -/
  isFinite : F → Bool
  /-- `%.20g`. -/
  g20 : F → Bytes

end Lua

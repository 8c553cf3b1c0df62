import Luastatus.Lib.CString
import Luastatus.Lib.Fallible
import Luastatus.Lua.Arg
import Mathlib.Data.List.Nodup
import Mathlib.Data.List.OfFn

/-!
# The data sources of the multiplex plugin

The option `data_sources` is a table from names to Lua programs.  A name is a C string, so what is
behind a NUL byte of a key is cut off, and two keys may become one name.  `check_wspecs` rejects
duplicates, an empty list, and a list that is longer than a `CONQ_MASK` has bits.

`Sources` are the data sources that were accepted (`Sources.read`).  Their names are distinct, which
is what `wspec_list_find` and the table of updates depend on.
-/

namespace Luastatus.Multiplex

open Text (Bytes CString strcmp strcmp_eq_zero_iff lit)
open Fallible (bind_eq_ok)
open Lua (cstr not_mem_cstr)

/-- `Wspec`; `code` is `NULL` when the widget has been made. -/
structure Wspec where
  name : CString
  code : Option CString
deriving DecidableEq

/-- `WspecList`. -/
abbrev WspecList := List Wspec

/-- The C string that `lua_tostring` leads to. -/
def toCString (s : Bytes) : CString := ⟨cstr s, not_mem_cstr s⟩

/-- `wspec_list_add`. -/
def wspecListAdd (x : WspecList) (name code : CString) : WspecList := x ++ [⟨name, some code⟩]

/-- `wspec_list_find_duplicates`. -/
def wspecListFindDuplicates (x : WspecList) : Option CString :=
  (List.finRange x.length).findSome? fun i =>
    (List.finRange x.length).findSome? fun j =>
      if j < i ∧ strcmp x[i].name x[j].name = 0 then some x[i].name else none

/-- `wspec_list_find`; `none` stands for -1. -/
def wspecListFind (x : WspecList) (name : CString) : Option (Fin x.length) :=
  (List.finRange x.length).find? fun i => strcmp x[i].name name = 0

/-- What is wrong with the data sources. -/
inductive WspecsError where
  | keyType
  | valueType
  | keyTooLong
  | empty
  | tooMany (n : Nat)
  | duplicate (name : CString)
deriving DecidableEq

/-- The longest name. -/
def maxNameLength : Nat := 1024 * 1024

/-- `visit_wspec`. -/
def visitWspec {F : Type} (x : WspecList) (key : Lua.ArgKey) (value : Lua.Arg F) :
    Except WspecsError WspecList :=
  match key with
  | .str name =>
      match value with
      | .string code =>
          if (cstr name).length > maxNameLength then .error .keyTooLong
          else .ok (wspecListAdd x (toCString name) (toCString code))
      | _ => .error .valueType
  | _ => .error .keyType

/-- `check_wspecs`. -/
def checkWspecs (x : WspecList) : Except WspecsError Unit :=
  if x.length = 0 then .error .empty
  else if x.length > 64 then .error (.tooMany x.length)
  else
    match wspecListFindDuplicates x with
    | some dup => .error (.duplicate dup)
    | none => .ok ()

/-- The part of `init` that reads `data_sources`, given the entries of the table in the order in
which they are visited. -/
def readDataSources {F : Type} (entries : Lua.Entries F) : Except WspecsError WspecList := do
  let x ← entries.foldlM (fun x e => visitWspec x e.1 e.2) []
  checkWspecs x
  return x

/-! ## Names -/

theorem wspecListFindDuplicates_eq_none {x : WspecList} :
    wspecListFindDuplicates x = none ↔ (x.map Wspec.name).Nodup := by
  rw [List.Nodup, List.pairwise_map, List.pairwise_iff_getElem]
  simp only [wspecListFindDuplicates, List.findSome?_eq_none_iff, List.mem_finRange,
    forall_const, ite_eq_right_iff, reduceCtorEq, imp_false, not_and, strcmp_eq_zero_iff]
  constructor
  · intro h j i hj hi hlt heq
    exact h ⟨i, hi⟩ ⟨j, hj⟩ hlt heq.symm
  · intro h i j hlt heq
    exact h j i j.isLt i.isLt hlt heq.symm

/-- What `check_wspecs` accepts. -/
theorem checkWspecs_eq_ok {x : WspecList} :
    checkWspecs x = .ok () ↔ 0 < x.length ∧ x.length ≤ 64 ∧ (x.map Wspec.name).Nodup := by
  rw [← wspecListFindDuplicates_eq_none, checkWspecs]
  split
  · rename_i hz
    simp [hz]
  · rename_i hz
    split
    · rename_i hlt
      exact iff_of_false (fun h => by cases h) fun h => by omega
    · rename_i hle
      cases wspecListFindDuplicates x with
      | none => exact iff_of_true rfl ⟨Nat.pos_of_ne_zero hz, Nat.not_lt.mp hle, rfl⟩
      | some dup => exact iff_of_false (fun h => by cases h) fun h => by cases h.2.2

/-- `wspec_list_find` gives the index of a name, if there is one. -/
theorem wspecListFind_eq_some {x : WspecList} (hnodup : (x.map Wspec.name).Nodup)
    {name : CString} {i : Fin x.length} :
    wspecListFind x name = some i ↔ x[i].name = name := by
  have hinj {j : Fin x.length} (h : x[j].name = x[i].name) : j = i := by
    have hget := List.nodup_iff_injective_get.mp hnodup
    have hlen : x.length = (x.map Wspec.name).length := (List.length_map _).symm
    have := @hget (Fin.cast hlen j) (Fin.cast hlen i) (by simpa using h)
    exact Fin.cast_injective hlen this
  constructor
  · intro h
    have hi := List.find?_some h
    rwa [decide_eq_true_iff, strcmp_eq_zero_iff] at hi
  · rintro rfl
    cases hfind : wspecListFind x x[i].name with
    | none =>
        have hnot := List.find?_eq_none.mp hfind i (List.mem_finRange i)
        rw [decide_eq_true_iff, strcmp_eq_zero_iff] at hnot
        exact absurd rfl hnot
    | some j =>
        have hj := List.find?_some hfind
        rw [decide_eq_true_iff, strcmp_eq_zero_iff] at hj
        rw [hinj hj]

/-! ## Reading -/

section Read

variable {F : Type} {x x' : WspecList} {entries : Lua.Entries F}

/-- The entry of the table becomes the data source. -/
structure Reads (e : Lua.ArgKey × Lua.Arg F) (w : Wspec) : Prop where
  name : ∃ name, e.1 = .str name ∧ (cstr name).length ≤ maxNameLength ∧ w.name = toCString name
  code : ∃ code, e.2 = .string code ∧ w.code = some (toCString code)

theorem visitWspec_eq_ok {e : Lua.ArgKey × Lua.Arg F} :
    visitWspec x e.1 e.2 = .ok x' ↔ ∃ w, Reads e w ∧ x' = x ++ [w] := by
  obtain ⟨key, value⟩ := e
  constructor
  · intro h
    cases key with
    | str name =>
        cases value with
        | string code =>
            simp only [visitWspec] at h
            split at h
            · cases h
            · rename_i hlen
              cases h
              exact ⟨_, ⟨⟨name, rfl, Nat.not_lt.mp hlen, rfl⟩, code, rfl, rfl⟩, rfl⟩
        | _ => cases h
    | _ => cases h
  · rintro ⟨⟨n, c⟩, ⟨⟨name, rfl, hlen, rfl⟩, code, rfl, rfl⟩, rfl⟩
    exact if_neg (Nat.not_lt.mpr hlen)

theorem foldlM_visitWspec_eq_ok :
    entries.foldlM (fun x e => visitWspec x e.1 e.2) x = .ok x' ↔
      ∃ ws, List.Forall₂ Reads entries ws ∧ x' = x ++ ws := by
  induction entries generalizing x with
  | nil =>
      constructor
      · rintro ⟨⟩
        exact ⟨[], .nil, (List.append_nil _).symm⟩
      · rintro ⟨_, ⟨⟩, rfl⟩
        exact congrArg Except.ok (List.append_nil x).symm
  | cons e es ih =>
      rw [List.foldlM_cons, bind_eq_ok]
      constructor
      · rintro ⟨y, hy, h⟩
        obtain ⟨w, hw, rfl⟩ := visitWspec_eq_ok.mp hy
        obtain ⟨ws, hws, rfl⟩ := ih.mp h
        exact ⟨w :: ws, .cons hw hws, by simp⟩
      · rintro ⟨_, ⟨⟩, rfl⟩
        rename_i w ws hw hws
        exact ⟨_, visitWspec_eq_ok.mpr ⟨w, hw, rfl⟩, ih.mpr ⟨ws, hws, by simp⟩⟩

/-- What `init` accepts: every entry is a data source, in the order of the table, and the list
passes the check. -/
theorem readDataSources_eq_ok :
    readDataSources entries = .ok x ↔ List.Forall₂ Reads entries x ∧ checkWspecs x = .ok () := by
  simp only [readDataSources, bind_eq_ok, foldlM_visitWspec_eq_ok, List.nil_append]
  constructor
  · rintro ⟨y, ⟨_, hreads, rfl⟩, ⟨⟩, hcheck, hx⟩
    cases hx
    exact ⟨hreads, hcheck⟩
  · rintro ⟨hreads, hcheck⟩
    exact ⟨x, ⟨x, hreads, rfl⟩, (), hcheck, rfl⟩

end Read

/-! ## Accepted data sources -/

/-- The data sources after `init`. -/
structure Sources where
  wspecs : WspecList
  checked : checkWspecs wspecs = .ok ()

/-- What `init` accepts is a `Sources`. -/
def Sources.read {F : Type} {entries : Lua.Entries F} {x : WspecList}
    (h : readDataSources entries = .ok x) : Sources where
  wspecs := x
  checked := (readDataSources_eq_ok.mp h).2

namespace Sources

variable (src : Sources)

/-- The number of nested widgets. -/
abbrev count : Nat := src.wspecs.length

/-- `wspec_list_get_name`. -/
def name (i : Fin src.count) : CString := src.wspecs[i].name

theorem count_le : src.count ≤ 64 := (checkWspecs_eq_ok.mp src.checked).2.1

theorem nodup : (src.wspecs.map Wspec.name).Nodup := (checkWspecs_eq_ok.mp src.checked).2.2

theorem find_eq_some {name : CString} {i : Fin src.count} :
    wspecListFind src.wspecs name = some i ↔ src.name i = name :=
  wspecListFind_eq_some src.nodup

theorem name_injective : Function.Injective src.name := by
  intro i j h
  have hi : wspecListFind src.wspecs (src.name j) = some i := src.find_eq_some.mpr h
  have hj : wspecListFind src.wspecs (src.name j) = some j := src.find_eq_some.mpr rfl
  exact Option.some.inj (hi.symm.trans hj)

end Sources

end Luastatus.Multiplex

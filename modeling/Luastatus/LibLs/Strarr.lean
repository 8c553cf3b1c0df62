import Luastatus.Lib.Bytes
import Luastatus.LibLs.Panic

/-!
# Arrays of constant strings

An `LS_StringArray` keeps its strings one after the other in a single buffer, and for each string
the offset at which it begins.

`StringArray.ofList` is the array that holds the given strings.  Every operation takes an array of
this form to one of this form, so each has one equation.
-/

namespace Luastatus.LibLs

open Text (Bytes)

/-- `LS_StringArray`. -/
structure StringArray where
  buf : Bytes
  offsets : List Nat
deriving DecidableEq, Repr

/-- `ls_strarr_new`. -/
def lsStrarrNew : StringArray := ⟨[], []⟩

/-- `ls_strarr_append`. -/
def lsStrarrAppend (sa : StringArray) (buf : Bytes) : StringArray where
  buf := sa.buf ++ buf
  offsets := sa.offsets ++ [sa.buf.length]

/-- `ls_strarr_size`. -/
def lsStrarrSize (sa : StringArray) : Nat := sa.offsets.length

/-- `ls_strarr_at`. -/
def lsStrarrAt (sa : StringArray) (i : Nat) : Except AssertFailure Bytes := do
  lsAssert (i < sa.offsets.length) "i < o.size"
  let begin_ := sa.offsets.getD i 0
  let end_ := if i + 1 = sa.offsets.length then sa.buf.length else sa.offsets.getD (i + 1) 0
  return (sa.buf.drop begin_).take (end_ - begin_)

/-- `ls_strarr_clear`. -/
def lsStrarrClear (_ : StringArray) : StringArray := ⟨[], []⟩

/-! ## The strings of an array -/

/-- Where the strings begin if the first one begins at the given offset. -/
def offsetsFrom (start : Nat) : List Bytes → List Nat
  | [] => []
  | s :: ss => start :: offsetsFrom (start + s.length) ss

/-- The array that holds the given strings. -/
def StringArray.ofList (ss : List Bytes) : StringArray := ⟨ss.flatten, offsetsFrom 0 ss⟩

@[simp] theorem length_offsetsFrom (start : Nat) (ss : List Bytes) :
    (offsetsFrom start ss).length = ss.length := by
  induction ss generalizing start with
  | nil => rfl
  | cons s ss ih => simp [offsetsFrom, ih]

theorem offsetsFrom_concat (start : Nat) (ss : List Bytes) (s : Bytes) :
    offsetsFrom start (ss ++ [s]) = offsetsFrom start ss ++ [start + ss.flatten.length] := by
  induction ss generalizing start with
  | nil => rfl
  | cons r ss ih =>
      rw [List.cons_append, offsetsFrom, ih, offsetsFrom, List.cons_append, List.flatten_cons,
        List.length_append, Nat.add_assoc]

theorem getD_offsetsFrom {start i : Nat} {ss : List Bytes} (h : i < ss.length) :
    (offsetsFrom start ss).getD i 0 = start + (ss.take i).flatten.length := by
  induction ss generalizing start i with
  | nil => cases h
  | cons s ss ih =>
      cases i with
      | zero => rfl
      | succ i =>
          rw [offsetsFrom, List.getD_cons_succ, ih (Nat.lt_of_succ_lt_succ h), List.take_succ_cons,
            List.flatten_cons, List.length_append, Nat.add_assoc]

theorem lsStrarrAppend_ofList (ss : List Bytes) (s : Bytes) :
    lsStrarrAppend (.ofList ss) s = .ofList (ss ++ [s]) := by
  simp [lsStrarrAppend, StringArray.ofList, offsetsFrom_concat]

theorem lsStrarrSize_ofList (ss : List Bytes) : lsStrarrSize (.ofList ss) = ss.length :=
  length_offsetsFrom 0 ss

/-- A string ends where the next one begins, the last one at the end of the buffer. -/
theorem end_offset {i : Nat} {ss : List Bytes} (h : i < ss.length) :
    (if i + 1 = ss.length then ss.flatten.length else (offsetsFrom 0 ss).getD (i + 1) 0) =
      (ss.take (i + 1)).flatten.length := by
  split
  · rename_i he
    rw [he, List.take_length]
  · rw [getD_offsetsFrom (by omega), Nat.zero_add]

/-- In the buffer, a string stands behind those before it. -/
theorem flatten_slice {i : Nat} {ss : List Bytes} {s : Bytes} (h : ss[i]? = some s) :
    (ss.take (i + 1)).flatten.length = (ss.take i).flatten.length + s.length ∧
      (ss.flatten.drop (ss.take i).flatten.length).take s.length = s := by
  obtain ⟨hi, rfl⟩ := List.getElem?_eq_some_iff.mp h
  have hsplit : ss.flatten =
      (ss.take i).flatten ++ (ss[i] ++ (ss.drop (i + 1)).flatten) := by
    rw [← List.flatten_cons, ← List.drop_eq_getElem_cons hi, ← List.flatten_append,
      List.take_append_drop]
  refine ⟨?_, ?_⟩
  · rw [List.take_add_one, h, List.flatten_append, List.length_append]
    simp
  · rw [hsplit, List.drop_left, List.take_left]

theorem lsStrarrAt_ofList {i : Nat} {ss : List Bytes} {s : Bytes} (h : ss[i]? = some s) :
    lsStrarrAt (.ofList ss) i = .ok s := by
  obtain ⟨hi, -⟩ := List.getElem?_eq_some_iff.mp h
  obtain ⟨hend, hslice⟩ := flatten_slice h
  have hsize : (StringArray.ofList ss).offsets.length = ss.length := length_offsetsFrom 0 ss
  rw [lsStrarrAt, lsAssert_bind_of_pos (by rw [hsize]; exact hi), hsize]
  simp only [StringArray.ofList]
  rw [end_offset hi, getD_offsetsFrom hi, hend, Nat.zero_add, Nat.add_sub_cancel_left, hslice]
  rfl

end Luastatus.LibLs

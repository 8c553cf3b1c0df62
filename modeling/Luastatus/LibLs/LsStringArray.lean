import Luastatus.LibLs.LsString
import Luastatus.LibLs.Strarr

/-!
# Arrays of constant strings in memory

An `LS_StringArray` is a growing string and a growing array of offsets into it.  Appending may move
both blocks, so a string is found by its offset and not by a pointer, and its end is the offset of
the next one or the end of the buffer.

The operations on blocks refine those on lists: `HoldsStrings sa ss` says that the two blocks hold
the buffer and the offsets of `StringArray.ofList ss`.  After any operations every string that was
appended since the last clear is found at its index (`stringArray_refine`).
-/

namespace Luastatus.LibLs

open Fallible Memory
open Text (Bytes CString)

/-- `LS_StringArray_Offsets`. -/
structure Offsets where
  data : Block Nat
  size : Nat
  capacity : Nat
deriving DecidableEq, Repr

/-- `LS_StringArray`. -/
structure LsStringArray where
  buf : LsString
  offsets : Offsets
deriving DecidableEq, Repr

namespace LsStringArray

/-- The size of a `size_t`. -/
def offsetSize : Nat := 8

/-- `ls_strarr_new`. -/
def new : LsStringArray := ⟨lsStringNew, ⟨[], 0, 0⟩⟩

/-- What the system answers to the requests for the offsets and to those for the buffer. -/
structure Mem where
  offsets : Nat → Bool
  buf : Nat → Bool

/-- `ls_strarr_new_reserve`. -/
def newReserve (mem : Mem) (totlen nelems : Nat) : Except Stop LsStringArray := do
  let offsetsBuf ← lsXmalloc mem.offsets nelems offsetSize
  let buf ← lsStringNewReserve mem.buf totlen
  return ⟨buf, ⟨offsetsBuf, 0, nelems⟩⟩

/-- The offsets in `ls_strarr_append`, with room for one more. -/
def growOffsets (mem : Nat → Bool) (o : Offsets) : Except Stop Offsets :=
  if o.size = o.capacity then do
    let (data, capacity) ← lsX2realloc mem o.data o.capacity offsetSize
    return { o with data := data, capacity := capacity }
  else .ok o

/-- `ls_strarr_append`. -/
def append (mem : Mem) (sa : LsStringArray) (buf : Bytes) : Except Stop LsStringArray := do
  let o ← growOffsets mem.offsets sa.offsets
  let data ← access (o.data.write o.size [sa.buf.size])
  let buf ← lsStringAppendB mem.buf sa.buf buf
  return ⟨buf, { o with data := data, size := addZu o.size 1 }⟩

/-- `ls_strarr_append_s`; the pointer is not null.  The NUL byte is appended, too. -/
def appendS (mem : Mem) (sa : LsStringArray) (s : CString) : Except Stop LsStringArray :=
  append mem sa (s.bytes ++ [0])

/-- `ls_strarr_size`. -/
def size (sa : LsStringArray) : Nat := sa.offsets.size

/-- `ls_strarr_at`: the bytes between the pointer and the end that it gives. -/
def at_ (sa : LsStringArray) (i : Nat) : Except Stop Bytes := do
  let o := sa.offsets
  assertThat (i < o.size) "i < o.size"
  let begin_ ← access (o.data.get i)
  let end_ ← (
    if addZu i 1 = o.size then .ok sa.buf.size
    else access (o.data.get (addZu i 1)))
  access (sa.buf.data.read begin_ (subZu end_ begin_))

/-- `ls_strarr_clear`. -/
def clear (mem : Mem) (sa : LsStringArray) : Except Stop LsStringArray := do
  let buf ← lsStringClear mem.buf sa.buf
  let (data, capacity) ← lsFreemem mem.offsets sa.offsets.data sa.offsets.capacity offsetSize
  return ⟨buf, ⟨data, 0, capacity⟩⟩

end LsStringArray

/-! ## The representation -/

/-- The offsets are those of the strings. -/
structure HoldsOffsets (o : Offsets) (ss : List Bytes) : Prop where
  begins : Begins o.data (StringArray.ofList ss).offsets
  size : o.size = ss.length
  capacity : o.data.length = o.capacity
  bound : o.capacity ≤ sizeMax

/-- The array holds the strings. -/
structure HoldsStrings (sa : LsStringArray) (ss : List Bytes) : Prop where
  buf : Holds sa.buf (StringArray.ofList ss).buf
  offsets : HoldsOffsets sa.offsets ss

theorem HoldsOffsets.size_le {o : Offsets} {ss : List Bytes} (h : HoldsOffsets o ss) :
    o.size ≤ o.capacity := by
  have hle := h.begins.length_le
  rw [h.capacity, StringArray.ofList, length_offsetsFrom] at hle
  rw [h.size]
  exact hle

/-- The next offset is written behind the others. -/
theorem HoldsOffsets.write_offset {o : Offsets} {ss : List Bytes} (h : HoldsOffsets o ss)
    (hroom : ss.length + 1 ≤ o.capacity) (offset : Nat) :
    ∃ q, o.data.write o.size [offset] = some q ∧ q.length = o.data.length ∧
      Begins q ((StringArray.ofList ss).offsets ++ [offset]) := by
  have hlen : (StringArray.ofList ss).offsets.length = o.size :=
    (length_offsetsFrom 0 ss).trans h.size.symm
  have hwrite := h.begins.write (Nat.le_refl _) [offset] (by
    rw [hlen, h.size, h.capacity]
    exact hroom)
  rwa [List.take_length, hlen] at hwrite

theorem holdsStrings_new : HoldsStrings LsStringArray.new [] :=
  ⟨holds_new, begins_nil _, rfl, rfl, Nat.zero_le _⟩

namespace LsStringArray

variable {mem : Mem} {sa : LsStringArray} {o : Offsets} {ss : List Bytes}

theorem newReserve_spec {totlen nelems : Nat} :
    OrOutOfMemory (newReserve mem totlen nelems) fun sa => HoldsStrings sa [] := by
  refine lsXmalloc_spec.bind fun q hq => ?_
  refine lsStringNewReserve_spec.bind fun buf hbuf => .pure ⟨hbuf, begins_nil _, rfl, ?_, ?_⟩
  · rw [hq.1, Block.length_new]
  · exact le_sizeMax_of_mul_le (by decide) hq.2

theorem growOffsets_spec (h : HoldsOffsets o ss) :
    OrOutOfMemory (growOffsets mem.offsets o) fun o' =>
      HoldsOffsets o' ss ∧ ss.length + 1 ≤ o'.capacity := by
  have hsize := h.size
  have hle := h.size_le
  unfold growOffsets
  split
  · rename_i hfull
    refine (lsX2realloc_spec (by decide)).bind ?_
    rintro _ ⟨rfl, hbound⟩
    have hlt := lt_doubled o.capacity
    have hbegins : Begins (o.data.resize (doubled o.capacity)) (StringArray.ofList ss).offsets := by
      refine h.begins.resize_of_le (Nat.le_trans h.begins.length_le ?_)
      rw [h.capacity]
      exact Nat.le_of_lt hlt
    refine .pure ⟨⟨hbegins, hsize, Block.length_resize .., ?_⟩, ?_⟩
    · exact le_sizeMax_of_mul_le (by decide) hbound
    · show ss.length + 1 ≤ doubled o.capacity
      omega
  · rename_i hroom
    exact .pure ⟨h, by omega⟩

theorem append_spec (h : HoldsStrings sa ss) (buf : Bytes) :
    OrOutOfMemory (append mem sa buf) fun sa' => HoldsStrings sa' (ss ++ [buf]) := by
  refine (growOffsets_spec h.offsets).bind fun o ⟨ho, hroom⟩ => ?_
  obtain ⟨q, hq, hqlen, hbegins⟩ := ho.write_offset hroom sa.buf.size
  refine .bind_ok (congrArg access hq) ?_
  refine (lsStringAppendB_spec h.buf).bind fun x hx => .pure ?_
  have hcell : StringArray.ofList (ss ++ [buf]) =
      ⟨(StringArray.ofList ss).buf ++ buf, (StringArray.ofList ss).offsets ++ [sa.buf.size]⟩ := by
    rw [← lsStrarrAppend_ofList, lsStrarrAppend, h.buf.size]
  refine ⟨?_, ?_, ?_, hqlen.trans ho.capacity, ho.bound⟩
  · rw [hcell]
    exact hx
  · rw [hcell]
    exact hbegins
  · show addZu o.size 1 = (ss ++ [buf]).length
    rw [ho.size, List.length_append, List.length_singleton]
    exact addZu_of_le (Nat.le_trans hroom ho.bound)

theorem clear_spec (h : HoldsStrings sa ss) :
    OrOutOfMemory (clear mem sa) fun sa' => HoldsStrings sa' [] := by
  refine (lsStringClear_spec h.buf).bind fun buf hbuf => ?_
  refine (lsFreemem_spec (by decide) h.offsets.capacity).bind fun r hr => .pure ?_
  refine ⟨hbuf.1, begins_nil _, rfl, hr.1, ?_⟩
  show r.2 ≤ sizeMax
  rw [hr.2]
  exact Nat.le_trans (Nat.min_le_left _ _) h.offsets.bound

/-! ## When memory is short -/

theorem newReserve_eq_error {totlen nelems : Nat} {e : Stop} :
    newReserve mem totlen nelems = .error e ↔
      e = .outOfMemory ∧ (nelems * offsetSize ≠ 0 ∧ Refused mem.offsets (nelems * offsetSize) ∨
        totlen ≠ 0 ∧ Refused mem.buf totlen) :=
  bind_eq_error_or (fun _ => lsXmalloc_eq_error) fun _ _ _ =>
    (bind_eq_error_of_left fun _ _ => ⟨_, rfl⟩).trans lsStringNewReserve_eq_error

/-- There is no memory for the next offset. -/
def OffsetsRefused (mem : Nat → Bool) (o : Offsets) : Prop :=
  o.size = o.capacity ∧ Refused mem (doubled o.capacity * offsetSize)

theorem growOffsets_eq_error {mem : Nat → Bool} {e : Stop} :
    growOffsets mem o = .error e ↔ e = .outOfMemory ∧ OffsetsRefused mem o := by
  unfold growOffsets OffsetsRefused
  split
  · rename_i hfull
    refine (bind_eq_error_of_left fun r _ => ⟨_, rfl⟩).trans
      ((lsX2realloc_eq_error (by decide)).trans ?_)
    rw [and_iff_right hfull]
  · rename_i hroom
    exact iff_of_false nofun fun h => hroom h.2.1

theorem append_eq_error {buf : Bytes} {e : Stop} (h : HoldsStrings sa ss) :
    append mem sa buf = .error e ↔
      e = .outOfMemory ∧ (OffsetsRefused mem.offsets sa.offsets ∨
        Short mem.buf sa.buf.size sa.buf.capacity buf.length) := by
  refine bind_eq_error_or (fun _ => growOffsets_eq_error) fun o ho e => ?_
  obtain ⟨hheld, hroom⟩ := (growOffsets_spec h.offsets).of_ok ho
  obtain ⟨q, hq, -⟩ := hheld.write_offset hroom sa.buf.size
  rw [bind_eq_error_of_ok (congrArg access hq)]
  exact (bind_eq_error_of_left fun _ _ => ⟨_, rfl⟩).trans (lsStringAppendB_eq_error h.buf)

theorem clear_eq_error {e : Stop} :
    clear mem sa = .error e ↔
      e = .outOfMemory ∧ (ClearRefused mem.buf sa.buf.capacity ∨
        128 < sa.offsets.capacity ∧ Refused mem.offsets 1024) :=
  bind_eq_error_or (fun _ => lsStringClear_eq_error) fun _ _ _ =>
    (bind_eq_error_of_left fun _ _ => ⟨_, rfl⟩).trans
      ((lsFreemem_eq_error (by decide)).trans (by simp [offsetSize]))

/-! ## Finding a string -/

/-- The offset at an index is in memory. -/
theorem get_offset (h : HoldsOffsets o ss) {i : Nat} (hi : i < ss.length) :
    o.data.get i = some (ss.take i).flatten.length := by
  refine h.begins.get ?_
  have hlt : i < (offsetsFrom 0 ss).length := by rwa [length_offsetsFrom]
  have hget : (offsetsFrom 0 ss).getD i 0 = 0 + (ss.take i).flatten.length := getD_offsetsFrom hi
  rw [List.getD_eq_getElem?_getD, List.getElem?_eq_getElem hlt, Nat.zero_add] at hget
  show (offsetsFrom 0 ss)[i]? = _
  rw [List.getElem?_eq_getElem hlt]
  exact congrArg some hget

/-- Whatever has become of the blocks, the string at an index is found. -/
theorem at_spec (h : HoldsStrings sa ss) {i : Nat} {s : Bytes} (hs : ss[i]? = some s) :
    at_ sa i = .ok s := by
  obtain ⟨hi, -⟩ := List.getElem?_eq_some_iff.mp hs
  obtain ⟨hend, hslice⟩ := flatten_slice hs
  have hsize := h.offsets.size
  have hbuf : sa.buf.size = ss.flatten.length := h.buf.size
  have hbound : ss.flatten.length ≤ sizeMax := by
    rw [← hbuf]
    exact Nat.le_trans h.buf.size_le h.buf.bound
  have hnext : addZu i 1 = i + 1 := by
    refine addZu_of_le (Nat.le_trans ?_ (Nat.le_trans h.offsets.size_le h.offsets.bound))
    omega
  -- the last string ends with the buffer
  have hendOffset : (if i + 1 = sa.offsets.size then .ok sa.buf.size
      else access (sa.offsets.data.get (i + 1))) =
        Except.ok (ss.take (i + 1)).flatten.length := by
    rw [hsize]
    split
    · rename_i hlast
      rw [hbuf, hlast, List.take_length]
    · rw [get_offset h.offsets (by omega), access_some]
  have htake : (ss.take (i + 1)).flatten.length ≤ ss.flatten.length := by
    conv => rhs; rw [← List.take_append_drop (i + 1) ss, List.flatten_append, List.length_append]
    exact Nat.le_add_right _ _
  rw [at_, assertThat_of_pos (by rw [hsize]; exact hi), stop_bind, get_offset h.offsets hi,
    access_some, stop_bind, hnext, hendOffset, stop_bind, subZu_of_le (by omega) (by omega), hend,
    Nat.add_sub_cancel_left, h.buf.begins.read (by rw [← hend]; exact htake)]
  show Except.ok ((ss.flatten.drop (ss.take i).flatten.length).take s.length) = _
  rw [hslice]

end LsStringArray

/-! ## Any operations -/

/-- An operation on an array. -/
inductive StrarrOp where
  | new
  | newReserve (totlen nelems : Nat)
  | append (buf : Bytes)
  | appendS (s : CString)
  | clear
deriving DecidableEq

def StrarrOp.run (mem : LsStringArray.Mem) (sa : LsStringArray) :
    StrarrOp → Except Stop LsStringArray
  | .new => .ok LsStringArray.new
  | .newReserve totlen nelems => LsStringArray.newReserve mem totlen nelems
  | .append buf => sa.append mem buf
  | .appendS s => sa.appendS mem s
  | .clear => sa.clear mem

/-- The operation asks for memory that is refused. -/
def StrarrOp.Stops (mem : LsStringArray.Mem) (sa : LsStringArray) : StrarrOp → Prop
  | .new => False
  | .newReserve totlen nelems =>
      nelems * LsStringArray.offsetSize ≠ 0 ∧
          Refused mem.offsets (nelems * LsStringArray.offsetSize) ∨
        totlen ≠ 0 ∧ Refused mem.buf totlen
  | .append buf =>
      LsStringArray.OffsetsRefused mem.offsets sa.offsets ∨
        Short mem.buf sa.buf.size sa.buf.capacity buf.length
  | .appendS s =>
      LsStringArray.OffsetsRefused mem.offsets sa.offsets ∨
        Short mem.buf sa.buf.size sa.buf.capacity (s.bytes.length + 1)
  | .clear =>
      ClearRefused mem.buf sa.buf.capacity ∨
        128 < sa.offsets.capacity ∧ Refused mem.offsets 1024

/-- Operations one after the other, each with the answers that the system has for it. -/
def runStrarr (sa : LsStringArray) :
    List (LsStringArray.Mem × StrarrOp) → Except Stop LsStringArray
  | [] => .ok sa
  | (mem, op) :: ops => do
      let sa ← op.run mem sa
      runStrarr sa ops

/-- One of the operations asks for memory that is refused in the state that those before it lead
to. -/
def StrarrStopsIn (sa : LsStringArray) (ops : List (LsStringArray.Mem × StrarrOp)) : Prop :=
  ∃ before mem op after sa', ops = before ++ (mem, op) :: after ∧
    runStrarr sa before = .ok sa' ∧ op.Stops mem sa'

/-- There are no strings after the operation. -/
def StrarrOp.clears : StrarrOp → Bool
  | .new | .newReserve _ _ | .clear => true
  | .append _ | .appendS _ => false

/-- The string that the operation appends. -/
def StrarrOp.appended : StrarrOp → Option Bytes
  | .append buf => some buf
  | .appendS s => some (s.bytes ++ [0])
  | .new | .newReserve _ _ | .clear => none

/-- The strings that were appended since the last operation that clears. -/
def appendedSinceClear (ops : List StrarrOp) : List Bytes :=
  (ops.reverse.takeWhile fun op => !op.clears).reverse.filterMap StrarrOp.appended

/-- The strings after one more operation. -/
theorem appendedSinceClear_concat (ops : List StrarrOp) (op : StrarrOp) :
    appendedSinceClear (ops ++ [op]) =
      if op.clears then [] else appendedSinceClear ops ++ op.appended.toList := by
  rw [appendedSinceClear, List.reverse_append, List.reverse_singleton, List.singleton_append,
    List.takeWhile_cons]
  cases hc : op.clears with
  | true => rfl
  | false =>
      show List.filterMap _ (List.reverse (op :: _)) = appendedSinceClear ops ++ _
      rw [List.reverse_cons, List.filterMap_append]
      cases op <;> rfl

theorem StrarrOp.run_spec {mem : LsStringArray.Mem} {sa : LsStringArray} {ops : List StrarrOp}
    (h : HoldsStrings sa (appendedSinceClear ops)) (op : StrarrOp) :
    OrOutOfMemory (op.run mem sa) fun sa' =>
      HoldsStrings sa' (appendedSinceClear (ops ++ [op])) := by
  rw [appendedSinceClear_concat]
  cases op with
  | new => exact .pure holdsStrings_new
  | newReserve totlen nelems => exact LsStringArray.newReserve_spec
  | append buf => exact LsStringArray.append_spec h buf
  | appendS s => exact LsStringArray.append_spec h (s.bytes ++ [0])
  | clear => exact LsStringArray.clear_spec h

theorem runStrarr_spec {sa : LsStringArray} {before : List StrarrOp}
    (h : HoldsStrings sa (appendedSinceClear before))
    (ops : List (LsStringArray.Mem × StrarrOp)) :
    OrOutOfMemory (runStrarr sa ops) fun sa' =>
      HoldsStrings sa' (appendedSinceClear (before ++ ops.map Prod.snd)) := by
  induction ops generalizing sa before with
  | nil =>
      rw [List.map_nil, List.append_nil]
      exact .pure h
  | cons op ops ih =>
      refine (StrarrOp.run_spec h op.2).bind fun sa' hsa' => ?_
      rw [List.map_cons, List.append_cons]
      exact ih hsa'

/-- A run of operations is one of steps that may fail. -/
theorem runStrarr_eq (sa : LsStringArray) (ops : List (LsStringArray.Mem × StrarrOp)) :
    runStrarr sa ops = ops.foldlM (fun sa op => op.2.run op.1 sa) sa := by
  induction ops generalizing sa with
  | nil => rfl
  | cons op ops ih =>
      rw [List.foldlM_cons]
      exact congrArg (op.2.run op.1 sa >>= ·) (funext fun sa' => ih sa')

theorem StrarrOp.run_eq_error {mem : LsStringArray.Mem} {sa : LsStringArray} {ss : List Bytes}
    {e : Stop} (h : HoldsStrings sa ss) (op : StrarrOp) :
    op.run mem sa = .error e ↔ e = .outOfMemory ∧ op.Stops mem sa := by
  cases op with
  | new => exact iff_of_false nofun And.right
  | newReserve totlen nelems => exact LsStringArray.newReserve_eq_error
  | append buf => exact LsStringArray.append_eq_error h
  | appendS s =>
      refine (LsStringArray.append_eq_error h).trans ?_
      rw [List.length_append, List.length_singleton]
      exact Iff.rfl
  | clear => exact LsStringArray.clear_eq_error

/-- A run ends the program exactly as one of its operations does. -/
theorem runStrarr_eq_error {ops : List (LsStringArray.Mem × StrarrOp)} {e : Stop} :
    runStrarr .new ops = .error e ↔ e = .outOfMemory ∧ StrarrStopsIn .new ops := by
  have hheld {before : List (LsStringArray.Mem × StrarrOp)} {sa : LsStringArray}
      (hrun : runStrarr .new before = .ok sa) : HoldsStrings sa _ :=
    (@runStrarr_spec _ [] holdsStrings_new before).of_ok hrun
  rw [runStrarr_eq, foldlM_eq_error]
  constructor
  · rintro ⟨sa', ⟨mem, op⟩, ⟨before, after, hops, hbefore⟩, he⟩
    rw [← runStrarr_eq] at hbefore
    obtain ⟨rfl, hstops⟩ := (StrarrOp.run_eq_error (hheld hbefore) op).mp he
    exact ⟨rfl, before, mem, op, after, sa', hops, hbefore, hstops⟩
  · rintro ⟨rfl, before, mem, op, after, sa', hops, hbefore, hstops⟩
    have he := (StrarrOp.run_eq_error (hheld hbefore) op).mpr ⟨rfl, hstops⟩
    rw [runStrarr_eq] at hbefore
    exact ⟨sa', (mem, op), ⟨before, after, hops, hbefore⟩, he⟩

/-- After any operations, unless memory was short in one of them: the size is the number of strings
appended since the last clear, and each of them is found at its index.

The run ends the program exactly if an operation asks, in the state that it is reached in, for a
size that does not fit into a `size_t` or is refused. -/
theorem stringArray_refine (ops : List (LsStringArray.Mem × StrarrOp)) :
    (OrOutOfMemory (runStrarr .new ops) fun sa =>
      sa.size = (appendedSinceClear (ops.map Prod.snd)).length ∧
        ∀ i s, (appendedSinceClear (ops.map Prod.snd))[i]? = some s → sa.at_ i = .ok s) ∧
      ∀ e, runStrarr .new ops = .error e ↔ e = .outOfMemory ∧ StrarrStopsIn .new ops := by
  refine ⟨(@runStrarr_spec _ [] holdsStrings_new ops).mono fun sa h => ?_,
    fun e => runStrarr_eq_error⟩
  rw [List.nil_append] at h
  exact ⟨h.offsets.size, fun i s hs => LsStringArray.at_spec h hs⟩

/-- Two strings, and the first of them in a cleared array. -/
def words : List (LsStringArray.Mem × StrarrOp) :=
  [(⟨(· ≤ 16), (· ≤ 4)⟩, .append [104, 105]), (⟨(· ≤ 16), (· ≤ 4)⟩, .clear),
    (⟨(· ≤ 16), (· ≤ 4)⟩, .append [104, 111]), (⟨(· ≤ 16), (· ≤ 4)⟩, .append [33])]

theorem stringArray_refine_words :
    (∃ sa, runStrarr .new words = .ok sa ∧ sa.size = 2 ∧ sa.at_ 1 = .ok [33]) ∧
    StrarrStopsIn .new [(⟨fun _ => true, fun _ => false⟩, StrarrOp.append [104])] := by
  refine ⟨?_, (((stringArray_refine _).2 .outOfMemory).mp (by decide +kernel)).2⟩
  have hok : (runStrarr .new words).isOk = true := by decide +kernel
  have h := (stringArray_refine words).1
  cases hrun : runStrarr .new words with
  | error e =>
      rw [hrun] at hok
      cases hok
  | ok sa =>
      rw [hrun] at h
      exact ⟨sa, rfl, h.1, h.2 1 _ rfl⟩

end Luastatus.LibLs

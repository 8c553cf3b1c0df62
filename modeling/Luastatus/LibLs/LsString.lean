import Luastatus.Lib.CString
import Luastatus.LibLs.AllocUtils
import Luastatus.LibLs.ParseInt
import Mathlib.Logic.Equiv.Basic

/-!
# Growing strings

An `LS_String` is a block of memory, the number of its bytes that are in use, and its capacity.
The capacity is doubled until there is room for what is appended.

`Holds x bs` is the representation: the block has as many bytes as the capacity says, and begins
with the bytes `bs`, which are those in use.  Every operation leads from it to itself, or ends the
program because memory is short or `vsnprintf` fails.  A write outside of the block would be a
third way to end, and does not happen (`strings_refine`).
-/

namespace Luastatus.LibLs

open Fallible Memory
open Text (Byte Bytes CString)

/-- `LS_String`. -/
structure LsString where
  data : Block Byte
  size : Nat
  capacity : Nat
deriving DecidableEq, Repr

/-! ## Capacity -/

/-- `ls_string_new`. -/
def lsStringNew : LsString := ⟨[], 0, 0⟩

/-- `ls_string_new_reserve`. -/
def lsStringNewReserve (mem : Nat → Bool) (n : Nat) : Except Stop LsString := do
  let buf ← lsXmalloc mem n 1
  return ⟨buf, 0, n⟩

/-- `ls_string_reserve`. -/
def lsStringReserve (mem : Nat → Bool) (x : LsString) (n : Nat) : Except Stop LsString :=
  if x.capacity < n then do
    let data ← lsXrealloc mem x.data n 1
    return { x with data := data, capacity := n }
  else .ok x

/-- A doubled capacity is larger and fits into a `size_t`. -/
theorem lsX2realloc_ok {mem : Nat → Bool} {p q : Block Byte} {n m : Nat}
    (h : lsX2realloc mem p n 1 = .ok (q, m)) : q = p.resize m ∧ m = doubled n ∧ m ≤ sizeMax := by
  obtain ⟨heq, hle⟩ := (lsX2realloc_spec Nat.one_ne_zero).of_ok h
  cases heq
  rw [Nat.mul_one] at hle
  exact ⟨rfl, rfl, hle⟩

theorem lt_doubled (n : Nat) : n < doubled n := by
  unfold doubled
  omega

/-- `ls_string_ensure_avail`: the capacity cannot be doubled for ever. -/
def lsStringEnsureAvail (mem : Nat → Bool) (x : LsString) (n : Nat) : Except Stop LsString :=
  if subZu x.capacity x.size < n then
    match _h : lsX2realloc mem x.data x.capacity 1 with
    | .ok (data, capacity) =>
        lsStringEnsureAvail mem { x with data := data, capacity := capacity } n
    | .error e => .error e
  else .ok x
termination_by sizeMax - x.capacity
decreasing_by
  obtain ⟨-, rfl, hle⟩ := lsX2realloc_ok _h
  have hlt := lt_doubled x.capacity
  show sizeMax - doubled x.capacity < sizeMax - x.capacity
  omega

/-- `ls_string_clear`. -/
def lsStringClear (mem : Nat → Bool) (x : LsString) : Except Stop LsString := do
  let (data, capacity) ← lsFreemem mem x.data x.capacity 1
  return ⟨data, 0, capacity⟩

/-! ## Contents -/

/-- `memcpy` to an index, which is not called for no bytes. -/
def memcpy (p : Block Byte) (i : Nat) (buf : Bytes) : Except Stop (Block Byte) :=
  if buf.length ≠ 0 then access (p.write i buf) else .ok p

/-- `ls_string_assign_b`. -/
def lsStringAssignB (mem : Nat → Bool) (x : LsString) (buf : Bytes) : Except Stop LsString := do
  let x ← lsStringReserve mem x buf.length
  let data ← memcpy x.data 0 buf
  return { x with data := data, size := buf.length }

/-- `ls_string_assign_s`; the pointer is not null. -/
def lsStringAssignS (mem : Nat → Bool) (x : LsString) (s : CString) : Except Stop LsString :=
  lsStringAssignB mem x s.bytes

/-- `ls_string_append_b`. -/
def lsStringAppendB (mem : Nat → Bool) (x : LsString) (buf : Bytes) : Except Stop LsString := do
  let x ← lsStringEnsureAvail mem x buf.length
  let data ← memcpy x.data x.size buf
  return { x with data := data, size := addZu x.size buf.length }

/-- `ls_string_append_s`; the pointer is not null. -/
def lsStringAppendS (mem : Nat → Bool) (x : LsString) (s : CString) : Except Stop LsString :=
  lsStringAppendB mem x s.bytes

/-- `ls_string_append_c`. -/
def lsStringAppendC (mem : Nat → Bool) (x : LsString) (c : Byte) : Except Stop LsString := do
  let x ← (
    if x.size = x.capacity then do
      let (data, capacity) ← lsX2realloc mem x.data x.capacity 1
      return { x with data := data, capacity := capacity }
    else .ok x)
  let data ← access (x.data.write x.size [c])
  return { x with data := data, size := addZu x.size 1 }

/-! ## Formatted text -/

/-- A format with its arguments: the text, and whether the two calls of `vsnprintf` fail. -/
structure Format where
  text : Bytes
  fails : Bool
  failsAgain : Bool
deriving DecidableEq, Repr

/-- `vsnprintf` at an index of a block: as much of the text as there is room for and a NUL byte, and
the length of the text.  It fails as well if that is not an `int`. -/
def vsnprintf (p : Block Byte) (i n : Nat) (text : Bytes) (fails : Bool) :
    Except Stop (Block Byte × Int) :=
  if fails = true ∨ intMax < text.length then .ok (p, -1)
  else if n = 0 then .ok (p, text.length)
  else do
    let p ← access (p.write i (text.take (n - 1) ++ [0]))
    return (p, text.length)

/-- The panic of `ls_string_append_vf`. -/
def vsnprintfFailed : Stop := .panic "ls_string_append_vf: vsnprintf() failed"

/-- `ls_string_append_vf`. -/
def lsStringAppendVf (mem : Nat → Bool) (x : LsString) (fmt : Format) : Except Stop LsString := do
  let navail := subZu x.capacity x.size
  let (data, r) ← vsnprintf x.data x.size navail fmt.text fmt.fails
  let x := { x with data := data }
  if r < 0 then .error vsnprintfFailed
  else do
    let x ← (
      if r.toNat ≥ navail then do
        let x ← lsStringEnsureAvail mem x (addZu r.toNat 1)
        let (data, r') ← vsnprintf x.data x.size (addZu r.toNat 1) fmt.text fmt.failsAgain
        if r' < 0 then .error vsnprintfFailed else return { x with data := data }
      else .ok x)
    return { x with size := addZu x.size r.toNat }

/-- `ls_string_assign_vf`. -/
def lsStringAssignVf (mem : Nat → Bool) (x : LsString) (fmt : Format) : Except Stop LsString := do
  let x ← lsStringClear mem x
  lsStringAppendVf mem x fmt

/-! ## The representation -/

/-- The string holds the bytes. -/
structure Holds (x : LsString) (bs : Bytes) : Prop where
  begins : Begins x.data bs
  size : x.size = bs.length
  capacity : x.data.length = x.capacity
  bound : x.capacity ≤ sizeMax

section Capacity

variable {mem : Nat → Bool} {x : LsString} {bs : Bytes} {n : Nat}

theorem Holds.size_le (h : Holds x bs) : x.size ≤ x.capacity := by
  rw [h.size, ← h.capacity]
  exact h.begins.length_le

theorem holds_new : Holds lsStringNew [] := ⟨begins_nil _, rfl, rfl, Nat.zero_le _⟩

theorem lsStringNewReserve_spec :
    OrOutOfMemory (lsStringNewReserve mem n) fun y => Holds y [] := by
  refine lsXmalloc_spec.bind fun q hq => .pure ⟨begins_nil _, rfl, ?_, ?_⟩
  · rw [hq.1, Block.length_new]
  · exact le_sizeMax_of_mul_le Nat.one_ne_zero hq.2

/-- A string in a larger block. -/
theorem Holds.grow (h : Holds x bs) (hn : x.capacity ≤ n) (hbound : n ≤ sizeMax) :
    Holds { x with data := x.data.resize n, capacity := n } bs where
  begins := h.begins.resize_of_le (by rw [← h.size]; exact Nat.le_trans h.size_le hn)
  size := h.size
  capacity := Block.length_resize ..
  bound := hbound

theorem lsStringReserve_spec (h : Holds x bs) :
    OrOutOfMemory (lsStringReserve mem x n) fun y => Holds y bs ∧ n ≤ y.capacity := by
  unfold lsStringReserve
  split
  · rename_i hlt
    refine (lsXrealloc_spec Nat.one_ne_zero).bind fun q hq => ?_
    rw [hq.1]
    have hbound : n ≤ sizeMax := le_sizeMax_of_mul_le Nat.one_ne_zero hq.2
    exact .pure ⟨h.grow (Nat.le_of_lt hlt) hbound, Nat.le_refl _⟩
  · exact .pure ⟨h, by omega⟩

/-- The loop ends with room for `n` bytes, or for lack of memory. -/
theorem lsStringEnsureAvail_spec {x : LsString} (h : Holds x bs) :
    OrOutOfMemory (lsStringEnsureAvail mem x n) fun y =>
      Holds y bs ∧ bs.length + n ≤ y.capacity := by
  have hsub : subZu x.capacity x.size = x.capacity - x.size := subZu_of_le h.size_le h.bound
  rw [lsStringEnsureAvail, hsub]
  split
  · split
    · rename_i data capacity heq
      obtain ⟨rfl, rfl, hle⟩ := lsX2realloc_ok heq
      exact lsStringEnsureAvail_spec (h.grow (Nat.le_of_lt (lt_doubled _)) hle)
    · rename_i e heq
      have hstop : OrOutOfMemory (lsX2realloc mem x.data x.capacity 1) _ :=
        lsX2realloc_spec Nat.one_ne_zero
      rw [heq] at hstop
      exact hstop
  · have hsize := h.size
    have hle := h.size_le
    exact .pure ⟨h, by omega⟩
termination_by sizeMax - x.capacity
decreasing_by
  have hlt := lt_doubled x.capacity
  show sizeMax - doubled x.capacity < sizeMax - x.capacity
  omega

theorem lsStringClear_spec (h : Holds x bs) :
    OrOutOfMemory (lsStringClear mem x) fun y =>
      Holds y [] ∧ y.capacity = min x.capacity 1024 := by
  refine (lsFreemem_spec Nat.one_ne_zero h.capacity).bind fun r hr => .pure ⟨?_, hr.2⟩
  refine ⟨begins_nil _, rfl, hr.1, ?_⟩
  show r.2 ≤ sizeMax
  rw [hr.2]
  exact Nat.le_trans (Nat.min_le_left _ _) h.bound

/-! ## When memory is short -/

/-- `ls_string_ensure_avail` asks for `n` bytes more: the capacity is doubled as long as they do not
fit, and one of the sizes is refused. -/
def Short (mem : Nat → Bool) (size capacity n : Nat) : Prop :=
  ∃ k, doubled^[k] capacity < size + n ∧ Refused mem (doubled^[k + 1] capacity)

theorem le_iterate_doubled (k n : Nat) : n ≤ doubled^[k] n := by
  induction k generalizing n with
  | zero => exact Nat.le_refl n
  | succ k ih =>
      rw [Function.iterate_succ_apply]
      exact Nat.le_trans (Nat.le_of_lt (lt_doubled n)) (ih (doubled n))

/-- Nothing is asked for if there is room. -/
theorem not_short {size capacity : Nat} (h : size + n ≤ capacity) :
    ¬ Short mem size capacity n := by
  rintro ⟨k, hk, -⟩
  have hle := le_iterate_doubled k capacity
  omega

/-- One round of the loop. -/
theorem short_iff {size capacity : Nat} (h : capacity < size + n) :
    Short mem size capacity n ↔
      Refused mem (doubled capacity) ∨ Short mem size (doubled capacity) n := by
  constructor
  · rintro ⟨k, hk, hrefused⟩
    cases k with
    | zero => exact .inl hrefused
    | succ k => exact .inr ⟨k, hk, hrefused⟩
  · rintro (hrefused | ⟨k, hk, hrefused⟩)
    · exact ⟨0, h, hrefused⟩
    · exact ⟨k + 1, hk, hrefused⟩

/-- If there is memory, it is not short for sizes up to `2 ^ 63`. -/
theorem not_short_of_mem {size capacity : Nat} (hmem : ∀ total, mem total = true)
    (hn : size + n ≤ 2 ^ 63) : ¬ Short mem size capacity n := by
  rintro ⟨k, hk, hlt | hrefused⟩
  · rw [Function.iterate_succ_apply'] at hlt
    unfold doubled sizeMax at hlt
    unfold doubled at hk
    omega
  · rw [hmem] at hrefused
    cases hrefused

theorem lsStringNewReserve_eq_error {e : Stop} :
    lsStringNewReserve mem n = .error e ↔ e = .outOfMemory ∧ n ≠ 0 ∧ Refused mem n := by
  refine (bind_eq_error_of_left fun q _ => ⟨_, rfl⟩).trans (lsXmalloc_eq_error.trans ?_)
  rw [Nat.mul_one]

theorem lsStringReserve_eq_error {e : Stop} :
    lsStringReserve mem x n = .error e ↔ e = .outOfMemory ∧ x.capacity < n ∧ Refused mem n := by
  unfold lsStringReserve
  split
  · rename_i hlt
    refine (bind_eq_error_of_left fun q _ => ⟨_, rfl⟩).trans (lsXrealloc_eq_error.trans ?_)
    rw [Nat.mul_one, and_iff_right hlt, and_iff_right (Nat.ne_zero_of_lt hlt)]
  · rename_i hle
    exact iff_of_false nofun fun h => hle h.2.1

theorem lsStringEnsureAvail_eq_error {x : LsString} {e : Stop} (h : Holds x bs) :
    lsStringEnsureAvail mem x n = .error e ↔
      e = .outOfMemory ∧ Short mem x.size x.capacity n := by
  have hsub : subZu x.capacity x.size = x.capacity - x.size := subZu_of_le h.size_le h.bound
  have hsize := h.size_le
  rw [lsStringEnsureAvail, hsub]
  split
  · rename_i hlt
    rw [short_iff (by omega)]
    split
    · rename_i data capacity heq
      obtain ⟨rfl, rfl, hle⟩ := lsX2realloc_ok heq
      have hgranted : ¬ Refused mem (doubled x.capacity) := by
        intro hrefused
        rw [← Nat.mul_one (doubled x.capacity)] at hrefused
        cases heq.symm.trans ((lsX2realloc_eq_error Nat.one_ne_zero).mpr ⟨rfl, hrefused⟩)
      rw [or_iff_right hgranted]
      exact lsStringEnsureAvail_eq_error (h.grow (Nat.le_of_lt (lt_doubled _)) hle)
    · rename_i e' heq
      obtain ⟨rfl, hrefused⟩ := (lsX2realloc_eq_error Nat.one_ne_zero).mp heq
      rw [Nat.mul_one] at hrefused
      rw [or_iff_left_of_imp fun _ => hrefused, and_iff_left hrefused, Except.error.injEq, eq_comm]
  · exact iff_of_false nofun fun hs => not_short (by omega) hs.2
termination_by sizeMax - x.capacity
decreasing_by
  have hlt := lt_doubled x.capacity
  show sizeMax - doubled x.capacity < sizeMax - x.capacity
  omega

/-- `ls_string_clear` asks for a kilobyte if the string has more. -/
def ClearRefused (mem : Nat → Bool) (capacity : Nat) : Prop := 1024 < capacity ∧ Refused mem 1024

theorem lsStringClear_eq_error {e : Stop} :
    lsStringClear mem x = .error e ↔ e = .outOfMemory ∧ ClearRefused mem x.capacity := by
  refine (bind_eq_error_of_left fun q _ => ⟨_, rfl⟩).trans
    ((lsFreemem_eq_error Nat.one_ne_zero).trans ?_)
  simp [ClearRefused]

end Capacity

section Contents

variable {mem : Nat → Bool} {x : LsString} {bs buf : Bytes}

/-- A write behind the bytes in use. -/
theorem Holds.write (h : Holds x bs) (buf : Bytes) (hroom : bs.length + buf.length ≤ x.capacity) :
    ∃ q, x.data.write x.size buf = some q ∧ q.length = x.data.length ∧ Begins q (bs ++ buf) := by
  have hwrite := h.begins.write (Nat.le_refl _) buf (by rw [h.capacity]; exact hroom)
  rwa [List.take_length, ← h.size] at hwrite

/-- More bytes are in use, and they were written behind the others. -/
theorem Holds.extend (h : Holds x bs) {q : Block Byte} (hlen : q.length = x.data.length)
    (hq : Begins q (bs ++ buf)) :
    Holds { x with data := q, size := addZu x.size buf.length } (bs ++ buf) := by
  have hle : bs.length + buf.length ≤ x.capacity := by
    rw [← h.capacity, ← hlen, ← List.length_append]
    exact hq.length_le
  refine ⟨hq, ?_, hlen.trans h.capacity, h.bound⟩
  rw [List.length_append, h.size]
  exact addZu_of_le (Nat.le_trans hle h.bound)

/-- A copy to an index inside of the beginning of a block or at its end. -/
theorem memcpy_spec {p : Block Byte} (h : Begins p bs) {i : Nat} (hi : i ≤ bs.length)
    (buf : Bytes) (hroom : i + buf.length ≤ p.length) :
    ∃ q, memcpy p i buf = .ok q ∧ q.length = p.length ∧ Begins q (bs.take i ++ buf) := by
  unfold memcpy
  split
  · obtain ⟨q, hq, hlen, hbegins⟩ := h.write hi buf hroom
    exact ⟨q, congrArg access hq, hlen, hbegins⟩
  · rename_i hzero
    obtain rfl : buf = [] := List.length_eq_zero_iff.mp (Decidable.not_not.mp hzero)
    refine ⟨p, rfl, rfl, ?_⟩
    rw [List.append_nil]
    exact h.take i

/-- A copy over the whole string. -/
theorem Holds.memcpy_start (h : Holds x bs) (hroom : buf.length ≤ x.capacity) :
    ∃ q, memcpy x.data 0 buf = .ok q ∧
      Holds { x with data := q, size := buf.length } buf := by
  have hfits : 0 + buf.length ≤ x.data.length := by
    rw [Nat.zero_add, h.capacity]
    exact hroom
  obtain ⟨q, hq, hlen, hbegins⟩ := memcpy_spec h.begins (Nat.zero_le _) buf hfits
  exact ⟨q, hq, hbegins, rfl, hlen.trans h.capacity, h.bound⟩

/-- A copy behind the string. -/
theorem Holds.memcpy_end (h : Holds x bs) (hroom : bs.length + buf.length ≤ x.capacity) :
    ∃ q, memcpy x.data x.size buf = .ok q ∧
      Holds { x with data := q, size := addZu x.size buf.length } (bs ++ buf) := by
  have hfits : bs.length + buf.length ≤ x.data.length := by
    rw [h.capacity]
    exact hroom
  obtain ⟨q, hq, hlen, hbegins⟩ := memcpy_spec h.begins (Nat.le_refl _) buf hfits
  rw [← h.size] at hq
  rw [List.take_length] at hbegins
  exact ⟨q, hq, h.extend hlen hbegins⟩

theorem lsStringAssignB_spec (h : Holds x bs) :
    OrOutOfMemory (lsStringAssignB mem x buf) fun y => Holds y buf := by
  refine (lsStringReserve_spec h).bind fun y ⟨hy, hroom⟩ => ?_
  obtain ⟨q, hq, hheld⟩ := hy.memcpy_start hroom
  exact .bind_ok hq (.pure hheld)

theorem lsStringAssignB_eq_error {e : Stop} (h : Holds x bs) :
    lsStringAssignB mem x buf = .error e ↔
      e = .outOfMemory ∧ x.capacity < buf.length ∧ Refused mem buf.length := by
  refine (bind_eq_error_of_left fun y hy => ?_).trans lsStringReserve_eq_error
  obtain ⟨hheld, hroom⟩ := (lsStringReserve_spec h).of_ok hy
  obtain ⟨q, hq, -⟩ := hheld.memcpy_start hroom
  exact ⟨_, by rw [hq]; rfl⟩

theorem lsStringAppendB_spec (h : Holds x bs) :
    OrOutOfMemory (lsStringAppendB mem x buf) fun y => Holds y (bs ++ buf) := by
  refine (lsStringEnsureAvail_spec h).bind fun y ⟨hy, hroom⟩ => ?_
  obtain ⟨q, hq, hheld⟩ := hy.memcpy_end hroom
  exact .bind_ok hq (.pure hheld)

theorem lsStringAppendB_eq_error {e : Stop} (h : Holds x bs) :
    lsStringAppendB mem x buf = .error e ↔
      e = .outOfMemory ∧ Short mem x.size x.capacity buf.length := by
  refine (bind_eq_error_of_left fun y hy => ?_).trans (lsStringEnsureAvail_eq_error h)
  obtain ⟨hheld, hroom⟩ := (lsStringEnsureAvail_spec h).of_ok hy
  obtain ⟨q, hq, -⟩ := hheld.memcpy_end hroom
  exact ⟨_, by rw [hq]; rfl⟩

/-- `ls_string_append_c` makes room first. -/
def growForChar (mem : Nat → Bool) (x : LsString) : Except Stop LsString :=
  if x.size = x.capacity then do
    let (data, capacity) ← lsX2realloc mem x.data x.capacity 1
    return { x with data := data, capacity := capacity }
  else .ok x

theorem lsStringAppendC_eq (mem : Nat → Bool) (x : LsString) (c : Byte) :
    lsStringAppendC mem x c = growForChar mem x >>= fun x =>
      access (x.data.write x.size [c]) >>= fun data =>
        .ok { x with data := data, size := addZu x.size 1 } := rfl

theorem growForChar_spec (h : Holds x bs) :
    OrOutOfMemory (growForChar mem x) fun y => Holds y bs ∧ bs.length + 1 ≤ y.capacity := by
  unfold growForChar
  split
  · rename_i hfull
    refine (lsX2realloc_spec Nat.one_ne_zero).bind ?_
    rintro _ ⟨rfl, hle⟩
    have hlt := lt_doubled x.capacity
    rw [Nat.mul_one] at hle
    refine .pure ⟨h.grow (Nat.le_of_lt hlt) hle, ?_⟩
    rw [← h.size, hfull]
    exact hlt
  · rename_i hroom
    have hle := h.size_le
    rw [h.size] at hroom hle
    exact .pure ⟨h, by omega⟩

/-- A single doubling makes room for a byte. -/
theorem growForChar_eq_error {e : Stop} (h : Holds x bs) :
    growForChar mem x = .error e ↔ e = .outOfMemory ∧ Short mem x.size x.capacity 1 := by
  have hle := h.size_le
  have hlt := lt_doubled x.capacity
  unfold growForChar
  split
  · rename_i hfull
    refine (bind_eq_error_of_left fun r _ => ⟨_, rfl⟩).trans
      ((lsX2realloc_eq_error Nat.one_ne_zero).trans (and_congr_right fun _ => ?_))
    rw [Nat.mul_one, short_iff (by omega), or_iff_left (not_short (by omega))]
  · exact iff_of_false nofun fun hs => not_short (by omega) hs.2

theorem lsStringAppendC_spec (h : Holds x bs) (c : Byte) :
    OrOutOfMemory (lsStringAppendC mem x c) fun y => Holds y (bs ++ [c]) := by
  rw [lsStringAppendC_eq]
  refine (growForChar_spec h).bind fun y ⟨hy, hroom⟩ => ?_
  obtain ⟨q, hq, hlen, hbegins⟩ := hy.write [c] hroom
  exact .bind_ok (congrArg access hq) (.pure (hy.extend hlen hbegins))

theorem lsStringAppendC_eq_error {e : Stop} {c : Byte} (h : Holds x bs) :
    lsStringAppendC mem x c = .error e ↔
      e = .outOfMemory ∧ Short mem x.size x.capacity 1 := by
  rw [lsStringAppendC_eq]
  refine (bind_eq_error_of_left fun y hy => ?_).trans (growForChar_eq_error h)
  obtain ⟨hheld, hroom⟩ := (growForChar_spec h).of_ok hy
  obtain ⟨q, hq, -⟩ := hheld.write [c] hroom
  exact ⟨_, by rw [hq]; rfl⟩

/-! ## Formatted text -/

/-- What a call of `vsnprintf` behind the bytes in use does, if it has `n` bytes there. -/
theorem vsnprintf_spec (h : Holds x bs) {n : Nat} (hroom : bs.length + n ≤ x.capacity)
    (text : Bytes) (fails : Bool) :
    ∃ q r, vsnprintf x.data x.size n text fails = .ok (q, r) ∧ Holds { x with data := q } bs ∧
      (r < 0 ∧ (fails = true ∨ intMax < text.length) ∨
        r = text.length ∧ ¬ (fails = true ∨ intMax < text.length) ∧
          (text.length < n → Begins q (bs ++ text))) := by
  unfold vsnprintf
  split
  · rename_i hfails
    exact ⟨x.data, -1, rfl, h, .inl ⟨by decide, hfails⟩⟩
  · rename_i hfails
    split
    · rename_i hzero
      exact ⟨x.data, _, rfl, h, .inr ⟨rfl, hfails, fun hlt => by omega⟩⟩
    · rename_i hpos
      have hwritten : (text.take (n - 1) ++ [0]).length ≤ n := by
        rw [List.length_append, List.length_take, List.length_singleton]
        omega
      obtain ⟨q, hq, hlen, hbegins⟩ := h.write (text.take (n - 1) ++ [0])
        (Nat.le_trans (Nat.add_le_add_left hwritten _) hroom)
      rw [hq, access_some]
      have hholds : Holds { x with data := q } bs :=
        ⟨hbegins.of_append, h.size, hlen.trans h.capacity, h.bound⟩
      refine ⟨q, _, rfl, hholds, .inr ⟨rfl, hfails, fun hlt => ?_⟩⟩
      rw [List.take_of_length_le (by omega), ← List.append_assoc] at hbegins
      exact hbegins.of_append

/-- How an operation on strings may end without a result. -/
def Expected (e : Stop) : Prop := e = .outOfMemory ∨ e = vsnprintfFailed

theorem OrStops.expected {α : Type} {y : Except Stop α} {P : α → Prop} (hy : OrOutOfMemory y P) :
    OrStops Expected y P :=
  hy.weaken fun _ => .inl

/-- `ls_string_append_vf` calls `vsnprintf` again if there was no room for the text. -/
def formatAgain (mem : Nat → Bool) (x : LsString) (fmt : Format) : Except Stop LsString := do
  let x ← lsStringEnsureAvail mem x (fmt.text.length + 1)
  let (data, r') ← vsnprintf x.data x.size (fmt.text.length + 1) fmt.text fmt.failsAgain
  if r' < 0 then .error vsnprintfFailed else return { x with data := data }

/-- The calls of `vsnprintf` do not fail, or the first of them does. -/
theorem lsStringAppendVf_eq (h : Holds x bs) (fmt : Format) :
    (fmt.fails = true ∨ intMax < fmt.text.length) ∧
        lsStringAppendVf mem x fmt = .error vsnprintfFailed ∨
      ¬ (fmt.fails = true ∨ intMax < fmt.text.length) ∧
        ∃ y, Holds y bs ∧ y.capacity = x.capacity ∧
          (bs.length + fmt.text.length < x.capacity → Begins y.data (bs ++ fmt.text)) ∧
          lsStringAppendVf mem x fmt =
            (if bs.length + fmt.text.length < x.capacity then .ok y else formatAgain mem y fmt) >>=
              fun y => .ok { y with size := addZu y.size fmt.text.length } := by
  have hnavail : subZu x.capacity x.size = x.capacity - x.size := subZu_of_le h.size_le h.bound
  have hle := h.size_le
  have hsize := h.size
  obtain ⟨q, r, hcall, hq, hr⟩ := vsnprintf_spec h (n := x.capacity - x.size) (by omega)
    fmt.text fmt.fails
  unfold lsStringAppendVf
  rw [hnavail]
  dsimp only
  rw [hcall, stop_bind]
  dsimp only
  rcases hr with ⟨hneg, hfails⟩ | ⟨rfl, hint, hfits⟩
  · exact .inl ⟨hfails, if_pos hneg⟩
  · rw [if_neg (by omega), Int.toNat_natCast]
    have hmore : addZu fmt.text.length 1 = fmt.text.length + 1 := by
      refine addZu_of_le (Nat.le_trans (Nat.succ_le_succ (Nat.not_lt.mp (not_or.mp hint).2)) ?_)
      decide
    rw [hmore]
    refine .inr ⟨hint, _, hq, rfl, fun hroom => hfits (by omega), ?_⟩
    by_cases hroom : bs.length + fmt.text.length < x.capacity
    · rw [if_pos hroom, if_neg (by omega)]
      rfl
    · rw [if_neg hroom, if_pos (by omega)]
      rfl

/-- The second call has room for the text and its NUL byte. -/
theorem formatAgain_spec (h : Holds x bs) (fmt : Format) :
    OrStops Expected (formatAgain mem x fmt) fun y =>
      Holds y bs ∧ Begins y.data (bs ++ fmt.text) := by
  refine (lsStringEnsureAvail_spec h).expected.bind fun y ⟨hy, hroom⟩ => ?_
  obtain ⟨q, r, hcall, hq, hr⟩ := vsnprintf_spec hy hroom fmt.text fmt.failsAgain
  refine .bind_ok hcall ?_
  dsimp only
  split
  · exact .inr rfl
  · rename_i hneg
    obtain ⟨-, -, hfits⟩ := hr.resolve_left fun hf => hneg hf.1
    exact .pure ⟨hq, hfits (Nat.lt_succ_self _)⟩

theorem formatAgain_eq_error {fmt : Format} {e : Stop} (h : Holds x bs)
    (hint : ¬ intMax < fmt.text.length) :
    formatAgain mem x fmt = .error e ↔
      e = .outOfMemory ∧ Short mem x.size x.capacity (fmt.text.length + 1) ∨
      e = vsnprintfFailed ∧ ¬ Short mem x.size x.capacity (fmt.text.length + 1) ∧
        fmt.failsAgain = true := by
  have havail {e : Stop} : lsStringEnsureAvail mem x (fmt.text.length + 1) = .error e ↔
      e = .outOfMemory ∧ Short mem x.size x.capacity (fmt.text.length + 1) :=
    lsStringEnsureAvail_eq_error h
  unfold formatAgain
  cases hy : lsStringEnsureAvail mem x (fmt.text.length + 1) with
  | error e' =>
      obtain ⟨rfl, hshort⟩ := havail.mp hy
      refine Iff.trans ?_ (or_iff_left fun hs => hs.2.1 hshort).symm
      rw [and_iff_left hshort]
      show Except.error Stop.outOfMemory = Except.error e ↔ _
      rw [Except.error.injEq, eq_comm]
  | ok y =>
      have hgranted : ¬ Short mem x.size x.capacity (fmt.text.length + 1) := fun hshort => by
        cases hy.symm.trans (havail.mpr ⟨rfl, hshort⟩)
      obtain ⟨hheld, hroom⟩ := (lsStringEnsureAvail_spec h).of_ok hy
      obtain ⟨q, r, hcall, -, hr⟩ := vsnprintf_spec hheld hroom fmt.text fmt.failsAgain
      rw [stop_bind, hcall, stop_bind, or_iff_right fun hs => hgranted hs.2,
        and_iff_right hgranted]
      dsimp only
      rcases hr with ⟨hneg, hfails⟩ | ⟨rfl, hok, -⟩
      · rw [if_pos hneg, and_iff_left (hfails.resolve_right hint), Except.error.injEq, eq_comm]
      · rw [if_neg (by omega)]
        exact iff_of_false nofun fun hs => hok (.inl hs.2)

/-- The text is appended without its NUL byte. -/
theorem lsStringAppendVf_spec (h : Holds x bs) (fmt : Format) :
    OrStops Expected (lsStringAppendVf mem x fmt) fun y => Holds y (bs ++ fmt.text) := by
  rcases lsStringAppendVf_eq h fmt with ⟨-, heq⟩ | ⟨-, y, hy, -, hfits, heq⟩
  · rw [heq]
    exact .inr rfl
  · rw [heq]
    -- there was room for the text, or the second call writes it
    refine OrStops.bind (P := fun y => Holds y bs ∧ Begins y.data (bs ++ fmt.text)) ?_
      fun y ⟨hy, hbegins⟩ => .pure (hy.extend rfl hbegins)
    split
    · rename_i hroom
      exact .pure ⟨hy, hfits hroom⟩
    · exact formatAgain_spec hy fmt

/-- How formatted text that is appended to a string ends the program: the first call of `vsnprintf`
fails, memory is short, or the second call fails. -/
inductive FormatStops (mem : Nat → Bool) (size capacity : Nat) (fmt : Format) : Stop → Prop
  | first (hfails : fmt.fails = true ∨ intMax < fmt.text.length) :
      FormatStops mem size capacity fmt vsnprintfFailed
  | short (hok : ¬ (fmt.fails = true ∨ intMax < fmt.text.length))
      (hshort : Short mem size capacity (fmt.text.length + 1)) :
      FormatStops mem size capacity fmt .outOfMemory
  | second (hok : ¬ (fmt.fails = true ∨ intMax < fmt.text.length))
      (hfull : capacity ≤ size + fmt.text.length)
      (hroom : ¬ Short mem size capacity (fmt.text.length + 1)) (hfails : fmt.failsAgain = true) :
      FormatStops mem size capacity fmt vsnprintfFailed

theorem lsStringAppendVf_eq_error {fmt : Format} {e : Stop} (h : Holds x bs) :
    lsStringAppendVf mem x fmt = .error e ↔ FormatStops mem x.size x.capacity fmt e := by
  rcases lsStringAppendVf_eq h fmt with ⟨hfails, heq⟩ | ⟨hok, y, hy, hcap, -, heq⟩
  · rw [heq, Except.error.injEq]
    constructor
    · rintro rfl
      exact .first hfails
    · intro hs
      cases hs with
      | first => rfl
      | short hok => exact absurd hfails hok
      | second hok => exact absurd hfails hok
  · rw [heq]
    refine (bind_eq_error_of_left fun y _ => ⟨_, rfl⟩).trans ?_
    have hsize : y.size = x.size := hy.size.trans h.size.symm
    split
    · rename_i hroom
      rw [← h.size] at hroom
      refine iff_of_false nofun fun hs => ?_
      cases hs with
      | first hfails => exact hok hfails
      | short _ hshort => exact not_short (by omega) hshort
      | second _ hfull => omega
    · rename_i hfull
      rw [← h.size] at hfull
      rw [formatAgain_eq_error hy (not_or.mp hok).2, hsize, hcap]
      constructor
      · rintro (⟨rfl, hshort⟩ | ⟨rfl, hroom, hfails⟩)
        · exact .short hok hshort
        · exact .second hok (Nat.not_lt.mp hfull) hroom hfails
      · intro hs
        cases hs with
        | first hfails => exact absurd hfails hok
        | short _ hshort => exact .inl ⟨rfl, hshort⟩
        | second _ _ hroom hfails => exact .inr ⟨rfl, hroom, hfails⟩

theorem lsStringAssignVf_spec (h : Holds x bs) (fmt : Format) :
    OrStops Expected (lsStringAssignVf mem x fmt) fun y => Holds y fmt.text :=
  (lsStringClear_spec h).expected.bind fun _ hy => lsStringAppendVf_spec hy.1 fmt

/-- The string is cleared, and has at most a kilobyte then. -/
theorem lsStringAssignVf_eq_error {fmt : Format} {e : Stop} (h : Holds x bs) :
    lsStringAssignVf mem x fmt = .error e ↔
      e = .outOfMemory ∧ ClearRefused mem x.capacity ∨
      ¬ ClearRefused mem x.capacity ∧ FormatStops mem 0 (min x.capacity 1024) fmt e := by
  unfold lsStringAssignVf
  rw [bind_eq_error, lsStringClear_eq_error]
  refine or_congr_right ?_
  constructor
  · rintro ⟨y, hy, he⟩
    obtain ⟨hheld, hcap⟩ := (lsStringClear_spec h).of_ok hy
    rw [lsStringAppendVf_eq_error hheld, hheld.size, hcap] at he
    refine ⟨fun hrefused => ?_, he⟩
    cases hy.symm.trans (lsStringClear_eq_error.mpr ⟨rfl, hrefused⟩)
  · rintro ⟨hgranted, he⟩
    cases hy : lsStringClear mem x with
    | error e' => exact absurd (lsStringClear_eq_error.mp hy).2 hgranted
    | ok y =>
        obtain ⟨hheld, hcap⟩ := (lsStringClear_spec h).of_ok hy
        refine ⟨y, rfl, ?_⟩
        rw [lsStringAppendVf_eq_error hheld, hheld.size, hcap]
        exact he

end Contents

/-! ## Any number of strings -/

/-- An operation on one string. -/
inductive StringOp where
  | new
  | newReserve (n : Nat)
  | reserve (n : Nat)
  | ensureAvail (n : Nat)
  | clear
  | assignB (buf : Bytes)
  | assignS (s : CString)
  | assignF (fmt : Format)
  | appendB (buf : Bytes)
  | appendS (s : CString)
  | appendC (c : Byte)
  | appendF (fmt : Format)
deriving DecidableEq

def StringOp.run (mem : Nat → Bool) (x : LsString) : StringOp → Except Stop LsString
  | .new => .ok lsStringNew
  | .newReserve n => lsStringNewReserve mem n
  | .reserve n => lsStringReserve mem x n
  | .ensureAvail n => lsStringEnsureAvail mem x n
  | .clear => lsStringClear mem x
  | .assignB buf => lsStringAssignB mem x buf
  | .assignS s => lsStringAssignS mem x s
  | .assignF fmt => lsStringAssignVf mem x fmt
  | .appendB buf => lsStringAppendB mem x buf
  | .appendS s => lsStringAppendS mem x s
  | .appendC c => lsStringAppendC mem x c
  | .appendF fmt => lsStringAppendVf mem x fmt

/-- The operation ends the program: it asks for memory that is refused, or `vsnprintf` fails. -/
def StringOp.Stops (mem : Nat → Bool) (x : LsString) : StringOp → Stop → Prop
  | .new, _ => False
  | .newReserve n, e => e = .outOfMemory ∧ n ≠ 0 ∧ Refused mem n
  | .reserve n, e => e = .outOfMemory ∧ x.capacity < n ∧ Refused mem n
  | .ensureAvail n, e => e = .outOfMemory ∧ Short mem x.size x.capacity n
  | .clear, e => e = .outOfMemory ∧ ClearRefused mem x.capacity
  | .assignB buf, e => e = .outOfMemory ∧ x.capacity < buf.length ∧ Refused mem buf.length
  | .assignS s, e => e = .outOfMemory ∧ x.capacity < s.bytes.length ∧ Refused mem s.bytes.length
  | .assignF fmt, e =>
      e = .outOfMemory ∧ ClearRefused mem x.capacity ∨
        ¬ ClearRefused mem x.capacity ∧ FormatStops mem 0 (min x.capacity 1024) fmt e
  | .appendB buf, e => e = .outOfMemory ∧ Short mem x.size x.capacity buf.length
  | .appendS s, e => e = .outOfMemory ∧ Short mem x.size x.capacity s.bytes.length
  | .appendC _, e => e = .outOfMemory ∧ Short mem x.size x.capacity 1
  | .appendF fmt, e => FormatStops mem x.size x.capacity fmt e

/-- What the operation does to a list of bytes. -/
def StringOp.onBytes (bs : Bytes) : StringOp → Bytes
  | .new | .newReserve _ | .clear => []
  | .reserve _ | .ensureAvail _ => bs
  | .assignB buf => buf
  | .assignS s => s.bytes
  | .assignF fmt => fmt.text
  | .appendB buf => bs ++ buf
  | .appendS s => bs ++ s.bytes
  | .appendC c => bs ++ [c]
  | .appendF fmt => bs ++ fmt.text

/-- An operation on a family of strings. -/
inductive StringsOp (ι : Type) where
  | on (i : ι) (op : StringOp)
  /-- `ls_string_swap`. -/
  | swap (i j : ι)

section Strings

variable {ι : Type} [DecidableEq ι]

/-- `LS_SWAP` of two elements of a family. -/
def lsSwap {α : Type} (s : ι → α) (i j : ι) : ι → α :=
  let tmp := s i
  Function.update (Function.update s i (s j)) j tmp

def StringsOp.run (mem : Nat → Bool) (s : ι → LsString) :
    StringsOp ι → Except Stop (ι → LsString)
  | .on i op => do
      let x ← op.run mem (s i)
      return Function.update s i x
  | .swap i j => .ok (lsSwap s i j)

def StringsOp.Stops (mem : Nat → Bool) (s : ι → LsString) : StringsOp ι → Stop → Prop
  | .on i op, e => op.Stops mem (s i) e
  | .swap _ _, _ => False

/-- What the operation does to a family of lists of bytes. -/
def StringsOp.onBytes (b : ι → Bytes) : StringsOp ι → ι → Bytes
  | .on i op => Function.update b i (op.onBytes (b i))
  | .swap i j => b ∘ Equiv.swap i j

/-- Operations one after the other, each with the answers that the system has for it. -/
def runStrings (s : ι → LsString) :
    List ((Nat → Bool) × StringsOp ι) → Except Stop (ι → LsString)
  | [] => .ok s
  | (mem, op) :: ops => do
      let s ← op.run mem s
      runStrings s ops

/-- One of the operations ends the program in the state that those before it lead to. -/
def StopsIn (s : ι → LsString) (ops : List ((Nat → Bool) × StringsOp ι)) (e : Stop) : Prop :=
  ∃ before mem op after s', ops = before ++ (mem, op) :: after ∧
    runStrings s before = .ok s' ∧ op.Stops mem s' e

/-- The lists of bytes after some operations. -/
def bytesAfter (b : ι → Bytes) (ops : List (StringsOp ι)) : ι → Bytes :=
  ops.foldl StringsOp.onBytes b

theorem lsSwap_eq {α : Type} (s : ι → α) (i j : ι) : lsSwap s i j = s ∘ Equiv.swap i j := by
  funext k
  rw [Function.comp_apply, lsSwap]
  by_cases hj : k = j
  · subst hj
    rw [Function.update_self, Equiv.swap_apply_right]
  · rw [Function.update_of_ne hj]
    by_cases hi : k = i
    · subst hi
      rw [Function.update_self, Equiv.swap_apply_left]
    · rw [Function.update_of_ne hi, Equiv.swap_apply_of_ne_of_ne hi hj]

variable {mem : Nat → Bool} {s : ι → LsString} {b : ι → Bytes}

theorem StringOp.run_spec {x : LsString} {bs : Bytes} (h : Holds x bs) (op : StringOp) :
    OrStops Expected (op.run mem x) fun y => Holds y (op.onBytes bs) := by
  cases op with
  | new => exact .pure holds_new
  | newReserve n => exact lsStringNewReserve_spec.expected
  | reserve n => exact ((lsStringReserve_spec h).mono fun _ hy => hy.1).expected
  | ensureAvail n => exact ((lsStringEnsureAvail_spec h).mono fun _ hy => hy.1).expected
  | clear => exact ((lsStringClear_spec h).mono fun _ hy => hy.1).expected
  | assignB buf => exact (lsStringAssignB_spec h).expected
  | assignS s => exact (lsStringAssignB_spec h).expected
  | assignF fmt => exact lsStringAssignVf_spec h fmt
  | appendB buf => exact (lsStringAppendB_spec h).expected
  | appendS s => exact (lsStringAppendB_spec h).expected
  | appendC c => exact (lsStringAppendC_spec h c).expected
  | appendF fmt => exact lsStringAppendVf_spec h fmt

theorem StringsOp.run_spec (h : ∀ i, Holds (s i) (b i)) (op : StringsOp ι) :
    OrStops Expected (op.run mem s) fun s' => ∀ i, Holds (s' i) (op.onBytes b i) := by
  cases op with
  | on i op =>
      refine (StringOp.run_spec (h i) op).bind fun y hy => .pure fun k => ?_
      show Holds (Function.update s i y k) (Function.update b i (op.onBytes (b i)) k)
      by_cases hk : k = i
      · subst hk
        rw [Function.update_self, Function.update_self]
        exact hy
      · rw [Function.update_of_ne hk, Function.update_of_ne hk]
        exact h k
  | swap i j =>
      refine .pure fun k => ?_
      rw [lsSwap_eq]
      exact h _

theorem runStrings_spec (h : ∀ i, Holds (s i) (b i)) (ops : List ((Nat → Bool) × StringsOp ι)) :
    OrStops Expected (runStrings s ops) fun s' =>
      ∀ i, Holds (s' i) (bytesAfter b (ops.map Prod.snd) i) := by
  induction ops generalizing s b with
  | nil => exact .pure h
  | cons op ops ih => exact (StringsOp.run_spec h op.2).bind fun s' hs' => ih hs'

/-- A run of operations is one of steps that may fail. -/
theorem runStrings_eq (s : ι → LsString) (ops : List ((Nat → Bool) × StringsOp ι)) :
    runStrings s ops = ops.foldlM (fun s op => op.2.run op.1 s) s := by
  induction ops generalizing s with
  | nil => rfl
  | cons op ops ih =>
      rw [List.foldlM_cons]
      exact congrArg (op.2.run op.1 s >>= ·) (funext fun s' => ih s')

theorem StringOp.run_eq_error {x : LsString} {bs : Bytes} {e : Stop} (h : Holds x bs)
    (op : StringOp) : op.run mem x = .error e ↔ op.Stops mem x e := by
  cases op with
  | new => exact iff_of_false nofun id
  | newReserve n => exact lsStringNewReserve_eq_error
  | reserve n => exact lsStringReserve_eq_error
  | ensureAvail n => exact lsStringEnsureAvail_eq_error h
  | clear => exact lsStringClear_eq_error
  | assignB buf => exact lsStringAssignB_eq_error h
  | assignS s => exact lsStringAssignB_eq_error h
  | assignF fmt => exact lsStringAssignVf_eq_error h
  | appendB buf => exact lsStringAppendB_eq_error h
  | appendS s => exact lsStringAppendB_eq_error h
  | appendC c => exact lsStringAppendC_eq_error h
  | appendF fmt => exact lsStringAppendVf_eq_error h

theorem StringsOp.run_eq_error {e : Stop} (h : ∀ i, Holds (s i) (b i)) (op : StringsOp ι) :
    op.run mem s = .error e ↔ op.Stops mem s e := by
  cases op with
  | on i op =>
      exact (bind_eq_error_of_left fun x _ => ⟨_, rfl⟩).trans (StringOp.run_eq_error (h i) op)
  | swap i j => exact iff_of_false nofun id

/-- A run ends the program exactly as one of its operations does. -/
theorem runStrings_eq_error {ops : List ((Nat → Bool) × StringsOp ι)} {e : Stop}
    (h : ∀ i, Holds (s i) (b i)) : runStrings s ops = .error e ↔ StopsIn s ops e := by
  rw [runStrings_eq, foldlM_eq_error]
  constructor
  · rintro ⟨s', ⟨mem, op⟩, ⟨before, after, hops, hbefore⟩, he⟩
    rw [← runStrings_eq] at hbefore
    have hs' := (runStrings_spec h before).of_ok hbefore
    exact ⟨before, mem, op, after, s', hops, hbefore, (StringsOp.run_eq_error hs' op).mp he⟩
  · rintro ⟨before, mem, op, after, s', hops, hbefore, he⟩
    have hs' := (runStrings_spec h before).of_ok hbefore
    rw [runStrings_eq] at hbefore
    exact ⟨s', (mem, op), ⟨before, after, hops, hbefore⟩, (StringsOp.run_eq_error hs' op).mpr he⟩

/-- After any operations on any number of strings, unless one of them has ended the program because
memory was short or `vsnprintf` failed: the allocated block of each string has as many bytes as its
capacity says, its size is not larger, and its contents are the list of bytes that the same
operations give.  The loop of `ls_string_ensure_avail` then ends with room for whatever is asked
for or for lack of memory, and with memory it succeeds unless the size leads to an overflow.

The run ends the program exactly if an operation does in the state that it is reached in: a size
that it asks for does not fit into a `size_t` or is refused, or its `vsnprintf` fails. -/
theorem strings_refine (ops : List ((Nat → Bool) × StringsOp ι)) :
    (OrStops Expected (runStrings (fun _ => lsStringNew) ops) fun s =>
      ∀ i, ((s i).size ≤ (s i).capacity ∧ (s i).data.length = (s i).capacity ∧
          (s i).data.read 0 (s i).size =
            some (bytesAfter (fun _ => []) (ops.map Prod.snd) i)) ∧
        ∀ mem n,
          OrOutOfMemory (lsStringEnsureAvail mem (s i) n)
            (fun y => y.size = (s i).size ∧ n ≤ y.capacity - y.size) ∧
          ((∀ total, mem total = true) → (s i).size + n ≤ 2 ^ 63 →
            ∃ y, lsStringEnsureAvail mem (s i) n = .ok y)) ∧
      ∀ e, runStrings (fun _ => lsStringNew) ops = .error e ↔
        StopsIn (fun _ => lsStringNew) ops e := by
  refine ⟨(runStrings_spec (fun _ => holds_new) ops).mono fun s hs i => ?_,
    fun e => runStrings_eq_error fun _ => holds_new⟩
  have h := hs i
  refine ⟨⟨h.size_le, h.capacity, ?_⟩, fun mem n => ⟨?_, fun hmem hn => ?_⟩⟩
  · rw [h.size, h.begins.read (by omega), List.drop_zero, List.take_length]
  · refine (lsStringEnsureAvail_spec h).mono fun y ⟨hy, hroom⟩ => ?_
    rw [hy.size, h.size]
    exact ⟨rfl, by omega⟩
  · cases hy : lsStringEnsureAvail mem (s i) n with
    | ok y => exact ⟨y, rfl⟩
    | error e =>
        exact absurd ((lsStringEnsureAvail_eq_error h).mp hy).2 (not_short_of_mem hmem hn)

/-- Five bytes in two pieces, with memory for eight: formatted text has to be written again. -/
def greeting : List ((Nat → Bool) × StringsOp Bool) :=
  [(fun total => total ≤ 8, .on false (.appendB [104, 101])),
    (fun total => total ≤ 8, .swap false true),
    (fun total => total ≤ 8, .on true (.appendF ⟨[108, 108, 111], false, false⟩))]

theorem strings_refine_greeting :
    (∃ s, runStrings (fun _ => lsStringNew) greeting = .ok s ∧
      (s true).data.read 0 (s true).size = some [104, 101, 108, 108, 111]) ∧
    StopsIn (fun _ => lsStringNew) [(fun _ => false, StringsOp.on true (.appendC 104))]
      .outOfMemory := by
  refine ⟨?_, ((strings_refine _).2 _).mp rfl⟩
  have hok : (runStrings (fun _ => lsStringNew) greeting).isOk = true := by decide +kernel
  have h := (strings_refine greeting).1
  cases hrun : runStrings (fun _ => lsStringNew) greeting with
  | error e =>
      rw [hrun] at hok
      cases hok
  | ok s =>
      rw [hrun] at h
      exact ⟨s, rfl, (h true).1.2.2⟩

end Strings

end Luastatus.LibLs

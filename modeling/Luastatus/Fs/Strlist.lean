import Luastatus.Lib.CString
import Luastatus.Lib.Heap
import Luastatus.LibLs.AllocUtils
import Luastatus.Lua.Arg
import Mathlib.Data.Finset.Basic
import Mathlib.Data.List.Perm.Basic

/-!
# The dynamic paths of the fs plugin

A `Strlist` is an array of pointers to strings that it owns.  A push looks for the string first; a
removal frees the string and moves the last pointer into its place.  The array has no spare room:
both reallocate it.

`Lists` says what is in memory: the array begins with pointers, distinct ones, which lead to the
strings.  Every call keeps it or ends the program for lack of memory, so nothing is accessed after
it was freed (`call_spec`).  What the calls answer is what the set of the paths would answer
(`calls_refine`).
-/

namespace Luastatus.Fs

open Fallible LibLs Memory
open Text (Bytes CString strcmp strcmp_eq_zero_iff)

variable {A : Type}

/-! ## Lists of strings -/

/-- `Strlist`; `A` are the addresses of strings. -/
structure Strlist (A : Type) where
  data : Block A
  size : Nat

/-- `strlist_new`. -/
def strlistNew : Strlist A := ⟨[], 0⟩

/-- What the system answers during a call. -/
structure Sys (A : Type) where
  /-- Whether the array can be reallocated with that many bytes. -/
  mem : Nat → Bool
  alloc : Allocator A CString

/-- The size of a pointer. -/
def ptrSize : Nat := 8

def resizeTo (mem : Nat → Bool) (x : Strlist A) (newSize : Nat) : Except Stop (Strlist A) := do
  let data ← lsXrealloc mem x.data newSize ptrSize
  return ⟨data, newSize⟩

/-- `BAD_INDEX`. -/
def badIndex : Nat := sizeMax

/-- The loop of `find`, from the index `i` on. -/
def findFrom (h : Heap A CString) (x : Strlist A) (s : CString) (i : Nat) : Except Stop Nat :=
  if i < x.size then do
    let p ← access (x.data.get i)
    let t ← access (h p)
    if strcmp t s = 0 then .ok i else findFrom h x s (i + 1)
  else .ok badIndex
termination_by x.size - i

def find (h : Heap A CString) (x : Strlist A) (s : CString) : Except Stop Nat := findFrom h x s 0

section Functions

variable [DecidableEq A]

/-- `ls_xstrdup`. -/
def lsXstrdup (alloc : Allocator A CString) (h : Heap A CString) (s : CString) :
    Except Stop (A × Heap A CString) :=
  match alloc.malloc h (s.bytes.length + 1) with
  | some p => .ok (p, h.put p s)
  | none => .error .outOfMemory

/-- `strlist_push`. -/
def strlistPush (sys : Sys A) (h : Heap A CString) (x : Strlist A) (s : CString) :
    Except Stop (Heap A CString × Strlist A × Bool) := do
  let i ← find h x s
  if i ≠ badIndex then return (h, x, false)
  else
    -- increase the size
    let x ← resizeTo sys.mem x (addZu x.size 1)
    -- insert the new element
    let (p, h) ← lsXstrdup sys.alloc h s
    let data ← access (x.data.write (subZu x.size 1) [p])
    return (h, { x with data := data }, true)

def removeAt (sys : Sys A) (h : Heap A CString) (x : Strlist A) (i : Nat) :
    Except Stop (Heap A CString × Strlist A) := do
  assertThat (i < x.size) "i < x->size"
  -- free the string at the index
  let p ← access (x.data.get i)
  let _ ← access (h p)
  let h := h.free p
  -- move the last element there
  let iLast := subZu x.size 1
  let q ← access (x.data.get iLast)
  let data ← access (x.data.write i [q])
  -- decrease the size
  let x ← resizeTo sys.mem { x with data := data } (subZu x.size 1)
  return (h, x)

/-- `strlist_remove`. -/
def strlistRemove (sys : Sys A) (h : Heap A CString) (x : Strlist A) (s : CString) :
    Except Stop (Heap A CString × Strlist A × Bool) := do
  let i ← find h x s
  if i = badIndex then return (h, x, false)
  else
    let (h, x) ← removeAt sys h x i
    return (h, x, true)

/-! ## The Lua functions -/

/-- What of the plugin's instance and of memory the functions use. -/
structure State (A : Type) where
  dynPathsEnabled : Bool
  dynPaths : Strlist A
  heap : Heap A CString

/-- The string that C code reads from a Lua string. -/
def toCString (s : Bytes) : CString := ⟨Lua.cstr s, Lua.not_mem_cstr s⟩

/-- A call from Lua, with a string. -/
inductive Call where
  | addDynPath (path : Bytes)
  | removeDynPath (path : Bytes)
deriving DecidableEq, Repr

/-- `lfunc_add_dyn_path`. -/
def lfuncAddDynPath (sys : Sys A) (st : State A) (path : Bytes) :
    Except Stop (State A × Bool) := do
  assertThat (st.dynPathsEnabled = true) "p->dyn_paths_enabled"
  let (heap, dynPaths, rc) ← strlistPush sys st.heap st.dynPaths (toCString path)
  return ({ st with heap := heap, dynPaths := dynPaths }, rc)

/-- `lfunc_remove_dyn_path`. -/
def lfuncRemoveDynPath (sys : Sys A) (st : State A) (path : Bytes) :
    Except Stop (State A × Bool) := do
  assertThat (st.dynPathsEnabled = true) "p->dyn_paths_enabled"
  let (heap, dynPaths, rc) ← strlistRemove sys st.heap st.dynPaths (toCString path)
  return ({ st with heap := heap, dynPaths := dynPaths }, rc)

def call (sys : Sys A) (st : State A) : Call → Except Stop (State A × Bool)
  | .addDynPath path => lfuncAddDynPath sys st path
  | .removeDynPath path => lfuncRemoveDynPath sys st path

/-- Calls one after the other: the state after them and the results, in order. -/
def calls (st : State A) : List (Sys A × Call) → Except Stop (State A × List Bool)
  | [] => .ok (st, [])
  | (sys, c) :: cs => do
      let (st, rc) ← call sys st c
      let (st, rcs) ← calls st cs
      return (st, rc :: rcs)

end Functions

/-- The instance after `init` with the option `enable_dyn_paths`, without which Lua does not get
the functions.  There may be other strings in memory. -/
def initState (heap : Heap A CString) : State A := ⟨true, strlistNew, heap⟩

/-! ## What is in memory -/

/-- The array begins with pointers to the strings, which are distinct. -/
structure Lists (h : Heap A CString) (x : Strlist A) (ps : List A) (ss : List CString) : Prop where
  begins : Begins x.data ps
  size : x.size = ps.length
  bound : x.size * ptrSize ≤ sizeMax
  stores : Stores h ps ss
  ptrsNodup : ps.Nodup
  nodup : ss.Nodup

variable {h : Heap A CString} {x : Strlist A} {ps : List A} {ss : List CString} {s : CString}

theorem Lists.size_lt (hl : Lists h x ps ss) : x.size < sizeMax := by
  have hb := hl.bound
  unfold ptrSize sizeMax at *
  omega

theorem Lists.size_eq (hl : Lists h x ps ss) : x.size = ss.length :=
  hl.size.trans hl.stores.length_eq

/-- The element at an index: the pointer in the array, and the string behind it. -/
theorem Lists.elem (hl : Lists h x ps ss) {i : Nat} (hi : i < x.size) :
    ∃ p s, ps[i]? = some p ∧ ss[i]? = some s ∧ x.data.get i = some p ∧ h p = some s := by
  have hlt : i < ps.length := hl.size ▸ hi
  have hp : ps[i]? = some ps[i] := List.getElem?_eq_getElem hlt
  obtain ⟨s, hs, hps⟩ := hl.stores.getElem hp
  exact ⟨_, s, hp, hs, hl.begins.get hp, hps⟩

/-- What `find` gives: the index of the string, or `BAD_INDEX` if it is not in the list. -/
def Found (ss : List CString) (s : CString) (i : Nat) : Prop :=
  ss[i]? = some s ∨ i = badIndex ∧ s ∉ ss

theorem findFrom_spec (hl : Lists h x ps ss) (s : CString) (i : Nat)
    (hbefore : s ∉ ss.take i) : ∃ j, findFrom h x s i = .ok j ∧ Found ss s j := by
  rw [findFrom]
  split
  · rename_i hi
    obtain ⟨p, t, -, ht, hget, hheap⟩ := hl.elem hi
    rw [hget, access_some, stop_bind, hheap, access_some, stop_bind]
    split
    · rename_i hcmp
      rw [strcmp_eq_zero_iff.mp hcmp] at ht
      exact ⟨i, rfl, .inl ht⟩
    · rename_i hcmp
      have hne : s ≠ t := fun he => hcmp (strcmp_eq_zero_iff.mpr he.symm)
      refine findFrom_spec hl s (i + 1) ?_
      rw [List.take_add_one, ht, List.mem_append]
      rintro (hmem | hmem)
      · exact hbefore hmem
      · exact hne (List.mem_singleton.mp hmem)
  · rename_i hi
    refine ⟨badIndex, rfl, .inr ⟨rfl, ?_⟩⟩
    rwa [List.take_of_length_le (by rw [← hl.size_eq]; omega)] at hbefore
termination_by x.size - i

theorem find_spec (hl : Lists h x ps ss) (s : CString) :
    ∃ i, find h x s = .ok i ∧ Found ss s i :=
  findFrom_spec hl s 0 (by rw [List.take_zero]; exact List.not_mem_nil)

/-- What `find` gives is `BAD_INDEX` if and only if the string is not in the list. -/
theorem Found.eq_badIndex_iff (hl : Lists h x ps ss) {i : Nat} (hf : Found ss s i) :
    i = badIndex ↔ s ∉ ss := by
  rcases hf with hs | ⟨hi, hs⟩
  · obtain ⟨hlt, -⟩ := List.getElem?_eq_some_iff.mp hs
    have hsize := hl.size_lt
    rw [hl.size_eq] at hsize
    exact iff_of_false (fun he => by unfold badIndex at he; omega)
      (fun hn => hn (List.mem_of_getElem? hs))
  · exact iff_of_true hi hs

/-! ## Moving the last element -/

/-- What is left of a list when an element is overwritten with the last one, which is removed. -/
theorem set_last_perm {α : Type} {xs : List α} {i : Nat} {x z : α} (hx : xs[i]? = some x)
    (hz : xs[xs.length - 1]? = some z) :
    (x :: (xs.set i z).take (xs.length - 1)).Perm xs := by
  rcases List.eq_nil_or_concat xs with rfl | ⟨ys, y, rfl⟩
  · cases hx
  · rw [List.concat_eq_append] at hx hz ⊢
    obtain ⟨hi, -⟩ := List.getElem?_eq_some_iff.mp hx
    have hlen : (ys ++ [y]).length - 1 = ys.length := by simp
    rw [hlen, List.getElem?_concat_length] at hz
    obtain rfl := Option.some.inj hz
    rw [hlen]
    rcases Nat.lt_or_ge i ys.length with hlt | hge
    · rw [List.getElem?_append_left hlt] at hx
      obtain ⟨-, rfl⟩ := List.getElem?_eq_some_iff.mp hx
      have hys : ys = ys.take i ++ ys[i] :: ys.drop (i + 1) := by
        rw [← List.drop_eq_getElem_cons hlt, List.take_append_drop]
      rw [List.set_append_left _ _ hlt, List.take_left' (List.length_set ..),
        List.set_eq_take_append_cons_drop, if_pos hlt]
      have hmiddle : List.Perm (ys.take i ++ ys[i] :: ys.drop (i + 1))
          (ys[i] :: (ys.take i ++ ys.drop (i + 1))) := List.perm_middle
      rw [← hys] at hmiddle
      calc List.Perm (ys[i] :: (ys.take i ++ y :: ys.drop (i + 1)))
            (ys[i] :: y :: (ys.take i ++ ys.drop (i + 1))) := List.perm_middle.cons _
        List.Perm _ (y :: ys[i] :: (ys.take i ++ ys.drop (i + 1))) := .swap ..
        List.Perm _ (y :: ys) := hmiddle.symm.cons y
        List.Perm _ (ys ++ [y]) := (List.perm_append_singleton y ys).symm
    · have he : i = ys.length := by
        rw [List.length_append, List.length_singleton] at hi
        omega
      subst he
      rw [List.getElem?_concat_length] at hx
      obtain rfl := Option.some.inj hx
      rw [List.set_append_right _ _ (Nat.le_refl _), List.take_left' rfl]
      exact (List.perm_append_singleton _ ys).symm

/-! ## The operations -/

theorem resizeTo_spec {mem : Nat → Bool} {n : Nat} :
    OrOutOfMemory (resizeTo mem x n) fun y =>
      y = ⟨x.data.resize n, n⟩ ∧ n * ptrSize ≤ sizeMax :=
  (lsXrealloc_spec (by decide)).bind fun _ hq => .pure ⟨by rw [hq.1], hq.2⟩

theorem resizeTo_eq_error {mem : Nat → Bool} {n : Nat} {e : Stop} :
    resizeTo mem x n = .error e ↔
      e = .outOfMemory ∧ n * ptrSize ≠ 0 ∧ Refused mem (n * ptrSize) :=
  (bind_eq_error_of_left fun _ _ => ⟨_, rfl⟩).trans lsXrealloc_eq_error

theorem nodup_concat {α : Type} {xs : List α} {x : α} (hxs : xs.Nodup) (hx : x ∉ xs) :
    (xs ++ [x]).Nodup := by
  rw [(List.perm_append_singleton x xs).nodup_iff, List.nodup_cons]
  exact ⟨hx, hxs⟩

/-- The array with one more pointer. -/
theorem Lists.write_last (hl : Lists h x ps ss) (p : A) :
    ∃ q, (x.data.resize (ps.length + 1)).write ps.length [p] = some q ∧ Begins q (ps ++ [p]) := by
  have hbegins : Begins (x.data.resize (ps.length + 1)) ps :=
    hl.begins.resize_of_le (Nat.le_succ _)
  obtain ⟨q, hq, -, hbegins'⟩ := hbegins.write (Nat.le_refl _) [p]
    (by rw [Block.length_resize]; rfl)
  rw [List.take_length] at hbegins'
  exact ⟨q, hq, hbegins'⟩

section Operations

variable [DecidableEq A] {sys : Sys A}

theorem lsXstrdup_spec {alloc : Allocator A CString} :
    OrOutOfMemory (lsXstrdup alloc h s) fun r => ∃ p, h p = none ∧ r = (p, h.put p s) := by
  unfold lsXstrdup
  cases hm : alloc.malloc h (s.bytes.length + 1) with
  | none => exact rfl
  | some p => exact .pure ⟨p, alloc.fresh hm, rfl⟩

theorem lsXstrdup_eq_error {alloc : Allocator A CString} {e : Stop} :
    lsXstrdup alloc h s = .error e ↔
      e = .outOfMemory ∧ alloc.malloc h (s.bytes.length + 1) = none := by
  unfold lsXstrdup
  cases hm : alloc.malloc h (s.bytes.length + 1) with
  | none => simp [eq_comm]
  | some p => simp

/-- What an operation leaves: the strings in memory are those of a set, and the operation has done
nothing if it answers `false`. -/
structure Outcome (h : Heap A CString) (x : Strlist A) (S : Finset CString) (rc : Bool)
    (r : Heap A CString × Strlist A × Bool) : Prop where
  lists : ∃ ps ss, Lists r.1 r.2.1 ps ss ∧ ss.toFinset = S
  rc : r.2.2 = rc
  same : r.2.2 = false → r.1 = h ∧ r.2.1 = x

/-- A new string behind the others. -/
theorem Lists.concat (hl : Lists h x ps ss) {p : A} (hfresh : h p = none) (hs : s ∉ ss)
    {q : Block A} (hq : Begins q (ps ++ [p])) (hbound : (ps.length + 1) * ptrSize ≤ sizeMax) :
    Lists (h.put p s) ⟨q, ps.length + 1⟩ (ps ++ [p]) (ss ++ [s]) where
  begins := hq
  size := by rw [List.length_append, List.length_singleton]
  bound := hbound
  stores := hl.stores.concat hfresh
  ptrsNodup := nodup_concat hl.ptrsNodup (hl.stores.notMem hfresh)
  nodup := nodup_concat hl.nodup hs

theorem strlistPush_spec (hl : Lists h x ps ss) (s : CString) :
    OrOutOfMemory (strlistPush sys h x s)
      (Outcome h x (insert s ss.toFinset) (decide (s ∉ ss))) := by
  obtain ⟨i, hi, hf⟩ := find_spec hl s
  refine .bind_ok hi ?_
  split
  · rename_i hbad
    have hs : s ∈ ss := by
      refine Decidable.not_not.mp fun hs => hbad ?_
      exact (hf.eq_badIndex_iff hl).mpr hs
    refine .pure ⟨⟨ps, ss, hl, ?_⟩, ?_, fun _ => ⟨rfl, rfl⟩⟩
    · rw [Finset.insert_eq_of_mem (List.mem_toFinset.mpr hs)]
    · exact (decide_eq_false fun hn => hn hs).symm
  · rename_i hbad
    have hs : s ∉ ss := (hf.eq_badIndex_iff hl).mp (Decidable.not_not.mp hbad)
    have hsize : addZu x.size 1 = ps.length + 1 := by
      rw [addZu_of_le (Nat.succ_le_of_lt hl.size_lt), hl.size]
    rw [hsize]
    refine resizeTo_spec.bind ?_
    rintro _ ⟨rfl, hbound⟩
    refine lsXstrdup_spec.bind ?_
    rintro _ ⟨p, hfresh, rfl⟩
    have hlast : subZu (ps.length + 1) 1 = ps.length :=
      subZu_of_le (Nat.le_add_left _ _) (le_sizeMax_of_mul_le (by decide) hbound)
    obtain ⟨q, hq, hbegins'⟩ := hl.write_last p
    dsimp only
    rw [hlast]
    refine .bind_ok (congrArg access hq) ?_
    have hlists := hl.concat hfresh hs hbegins' hbound
    refine .pure ⟨⟨_, _, hlists, ?_⟩, (decide_eq_true hs).symm, fun hrc => by cases hrc⟩
    rw [List.toFinset_append, Finset.union_comm]
    rfl

/-- A string that is not in the list needs room for a pointer and for itself. -/
theorem strlistPush_eq_error {e : Stop} (hl : Lists h x ps ss) (s : CString) :
    strlistPush sys h x s = .error e ↔
      e = .outOfMemory ∧ s ∉ ss ∧ (Refused sys.mem ((ss.length + 1) * ptrSize) ∨
        sys.alloc.malloc h (s.bytes.length + 1) = none) := by
  obtain ⟨i, hi, hf⟩ := find_spec hl s
  have hlen : ps.length = ss.length := hl.stores.length_eq
  refine (bind_eq_error_of_ok hi).trans ?_
  split
  · rename_i hbad
    exact iff_of_false nofun fun hs => hbad ((hf.eq_badIndex_iff hl).mpr hs.2.1)
  · rename_i hbad
    have hsize : addZu x.size 1 = ss.length + 1 := by
      rw [addZu_of_le (Nat.succ_le_of_lt hl.size_lt), hl.size_eq]
    rw [and_iff_right ((hf.eq_badIndex_iff hl).mp (Decidable.not_not.mp hbad)), hsize]
    refine bind_eq_error_or (fun e => ?_) fun y hy e => ?_
    · rw [resizeTo_eq_error, and_iff_right (Nat.mul_ne_zero (Nat.succ_ne_zero _) (by decide))]
    · obtain ⟨rfl, hbound⟩ := resizeTo_spec.of_ok hy
      refine (bind_eq_error_of_left fun r hr => ?_).trans lsXstrdup_eq_error
      obtain ⟨p, -, rfl⟩ := lsXstrdup_spec.of_ok hr
      have hlast : subZu (ss.length + 1) 1 = ps.length := by
        rw [hlen]
        exact subZu_of_le (Nat.le_add_left _ _) (le_sizeMax_of_mul_le (by decide) hbound)
      obtain ⟨q, hq, -⟩ := hl.write_last p
      rw [hlen] at hq
      dsimp only
      rw [hlast, hlen, hq]
      exact ⟨_, rfl⟩

/-- The pointer to the string is overwritten with the last one, and the array resized. -/
theorem removeAt_eq (sys : Sys A) (hl : Lists h x ps ss) {i : Nat} (hs : ss[i]? = some s) :
    ∃ p z q, ps[i]? = some p ∧ ps[ps.length - 1]? = some z ∧ h p = some s ∧
      Begins q (ps.set i z) ∧
      removeAt sys h x i =
        resizeTo sys.mem ⟨q, x.size⟩ (ps.length - 1) >>= fun x => .ok (h.free p, x) := by
  obtain ⟨hi, -⟩ := List.getElem?_eq_some_iff.mp hs
  have hi : i < x.size := by rwa [hl.size_eq]
  obtain ⟨p, t, hp, ht, hget, hheap⟩ := hl.elem hi
  obtain rfl : t = s := Option.some.inj (ht.symm.trans hs)
  have hlast : subZu x.size 1 = ps.length - 1 := by
    rw [subZu_of_le (by omega) (Nat.le_of_lt hl.size_lt), hl.size]
  obtain ⟨z, -, hz, -, hgetz, -⟩ := hl.elem (i := ps.length - 1) (by rw [← hl.size]; omega)
  obtain ⟨q, hq, -, hbegins⟩ := hl.begins.set (by rw [← hl.size]; exact hi) z
  refine ⟨p, z, q, hp, hz, hheap, hbegins, ?_⟩
  rw [removeAt, assertThat_of_pos hi, stop_bind, hget, access_some, stop_bind, hheap, access_some,
    stop_bind, hlast]
  dsimp only
  rw [hgetz, access_some, stop_bind, hq, access_some, stop_bind]
  rfl

/-- What the removal of the string at an index leaves: the others, in another order. -/
theorem removeAt_spec (hl : Lists h x ps ss) {i : Nat} (hs : ss[i]? = some s) :
    OrOutOfMemory (removeAt sys h x i) fun r =>
      ∃ ps' ss', (s :: ss').Perm ss ∧ Lists r.1 r.2 ps' ss' := by
  obtain ⟨p, z, q, hp, hz, hheap, hbegins, heq⟩ := removeAt_eq sys hl hs
  rw [heq]
  refine resizeTo_spec.bind ?_
  rintro _ ⟨rfl, hbound⟩
  have hperm : (p :: (ps.set i z).take (ps.length - 1)).Perm ps := set_last_perm hp hz
  obtain ⟨hfree, hnodup⟩ := List.nodup_cons.mp (hperm.nodup_iff.mpr hl.ptrsNodup)
  obtain ⟨ss', hss', hstores⟩ := hl.stores.of_cons_perm hperm hheap
  have hsize : ps.length - 1 = ((ps.set i z).take (ps.length - 1)).length := by
    rw [List.length_take, List.length_set]
    omega
  have hlists : Lists (h.free p) ⟨q.resize (ps.length - 1), ps.length - 1⟩ _ ss' := {
    begins := hbegins.resize _
    size := hsize
    bound := hbound
    stores := hstores.free hfree
    ptrsNodup := hnodup
    nodup := (List.nodup_cons.mp (hss'.nodup_iff.mpr hl.nodup)).2 }
  exact .pure ⟨_, ss', hss', hlists⟩

theorem strlistRemove_spec (hl : Lists h x ps ss) (s : CString) :
    OrOutOfMemory (strlistRemove sys h x s)
      (Outcome h x (ss.toFinset.erase s) (decide (s ∈ ss))) := by
  obtain ⟨i, hi, hf⟩ := find_spec hl s
  refine .bind_ok hi ?_
  split
  · rename_i hbad
    have hs : s ∉ ss := (hf.eq_badIndex_iff hl).mp hbad
    refine .pure ⟨⟨ps, ss, hl, ?_⟩, (decide_eq_false hs).symm, fun _ => ⟨rfl, rfl⟩⟩
    rw [Finset.erase_eq_of_notMem fun hmem => hs (List.mem_toFinset.mp hmem)]
  · rename_i hbad
    have hs : ss[i]? = some s := hf.resolve_right fun h => hbad h.1
    have hmem : s ∈ ss := List.mem_of_getElem? hs
    refine (removeAt_spec hl hs).bind ?_
    rintro r ⟨ps', ss', hperm, hl'⟩
    refine .pure ⟨⟨ps', ss', hl', ?_⟩, (decide_eq_true hmem).symm, fun hrc => by cases hrc⟩
    have hnotin : s ∉ ss' := (List.nodup_cons.mp (hperm.nodup_iff.mpr hl.nodup)).1
    rw [← List.toFinset_eq_of_perm _ _ hperm, List.toFinset_cons,
      Finset.erase_insert fun hmem' => hnotin (List.mem_toFinset.mp hmem')]

/-- The smaller array is asked for, unless it is empty. -/
theorem strlistRemove_eq_error {e : Stop} (hl : Lists h x ps ss) (s : CString) :
    strlistRemove sys h x s = .error e ↔
      e = .outOfMemory ∧ s ∈ ss ∧ ss.length ≠ 1 ∧
        Refused sys.mem ((ss.length - 1) * ptrSize) := by
  obtain ⟨i, hi, hf⟩ := find_spec hl s
  refine (bind_eq_error_of_ok hi).trans ?_
  split
  · rename_i hbad
    exact iff_of_false nofun fun hs => (hf.eq_badIndex_iff hl).mp hbad hs.2.1
  · rename_i hbad
    have hs : ss[i]? = some s := hf.resolve_right fun h => hbad h.1
    have hmem : s ∈ ss := List.mem_of_getElem? hs
    have hlen : ps.length = ss.length := hl.stores.length_eq
    have hne : (ss.length - 1) * ptrSize ≠ 0 ↔ ss.length ≠ 1 := by
      have hpos : 0 < ss.length := List.length_pos_of_mem hmem
      unfold ptrSize
      omega
    obtain ⟨p, z, q, -, -, -, -, heq⟩ := removeAt_eq sys hl hs
    refine (bind_eq_error_of_left fun _ _ => ⟨_, rfl⟩).trans ?_
    rw [heq, bind_eq_error_of_left fun _ _ => ⟨_, rfl⟩, resizeTo_eq_error, hlen, hne,
      and_iff_right hmem]

end Operations

/-! ## The set of the paths -/

/-- What a call does to the set of the paths, and what it answers. -/
def Call.onSet (S : Finset CString) : Call → Finset CString × Bool
  | .addDynPath path => (insert (toCString path) S, decide (toCString path ∉ S))
  | .removeDynPath path => (S.erase (toCString path), decide (toCString path ∈ S))

/-- The set after some calls, and the answers. -/
def setCalls (S : Finset CString) : List Call → Finset CString × List Bool
  | [] => (S, [])
  | c :: cs =>
      let r := setCalls (c.onSet S).1 cs
      (r.1, (c.onSet S).2 :: r.2)

/-- The call asks for memory that is refused: for the string and the larger array if the path is
new, for the smaller array if it is removed. -/
def Call.Stops (sys : Sys A) (h : Heap A CString) (S : Finset CString) : Call → Prop
  | .addDynPath path =>
      toCString path ∉ S ∧ (Refused sys.mem ((S.card + 1) * ptrSize) ∨
        sys.alloc.malloc h ((toCString path).bytes.length + 1) = none)
  | .removeDynPath path =>
      toCString path ∈ S ∧ S.card ≠ 1 ∧ Refused sys.mem ((S.card - 1) * ptrSize)

/-- The path is not removed in these calls. -/
def NotRemoved (cs : List Call) (s : CString) : Prop :=
  ∀ path, .removeDynPath path ∈ cs → toCString path ≠ s

/-- The path is added in some call and not removed after it. -/
def AddedSince (cs : List Call) (s : CString) : Prop :=
  ∃ before path after, cs = before ++ .addDynPath path :: after ∧ toCString path = s ∧
    NotRemoved after s

section Set

variable {cs : List Call} {c : Call}

theorem notRemoved_cons :
    NotRemoved (c :: cs) s ↔
      (∀ path, c = .removeDynPath path → toCString path ≠ s) ∧ NotRemoved cs s := by
  refine ⟨fun hn => ⟨?_, fun path hmem => hn path (List.mem_cons_of_mem _ hmem)⟩, ?_⟩
  · rintro path rfl
    exact hn path List.mem_cons_self
  · rintro ⟨hc, hcs⟩ path hmem
    rcases List.mem_cons.mp hmem with he | hmem
    · exact hc path he.symm
    · exact hcs path hmem

theorem addedSince_cons :
    AddedSince (c :: cs) s ↔
      (∃ path, c = .addDynPath path ∧ toCString path = s ∧ NotRemoved cs s) ∨
        AddedSince cs s := by
  refine ⟨?_, ?_⟩
  · rintro ⟨before, path, after, heq, hs, hn⟩
    cases before with
    | nil =>
        obtain ⟨rfl, rfl⟩ := List.cons.inj heq
        exact .inl ⟨path, rfl, hs, hn⟩
    | cons b before =>
        obtain ⟨rfl, rfl⟩ := List.cons.inj heq
        exact .inr ⟨before, path, after, rfl, hs, hn⟩
  · rintro (⟨path, rfl, hs, hn⟩ | ⟨before, path, after, rfl, hs, hn⟩)
    · exact ⟨[], path, cs, rfl, hs, hn⟩
    · exact ⟨c :: before, path, after, rfl, hs, hn⟩

/-- The members of the set: what was added and not removed since. -/
theorem mem_setCalls {S : Finset CString} :
    s ∈ (setCalls S cs).1 ↔ AddedSince cs s ∨ s ∈ S ∧ NotRemoved cs s := by
  induction cs generalizing S with
  | nil =>
      have hno : ¬ AddedSince [] s := by
        rintro ⟨before, path, after, heq, -⟩
        cases before <;> cases heq
      have hkept : NotRemoved [] s := fun path hmem => absurd hmem List.not_mem_nil
      simp [setCalls, hno, hkept]
  | cons c cs ih =>
      rw [setCalls, ih, addedSince_cons, notRemoved_cons]
      cases c with
      | addDynPath path =>
          simp only [Call.onSet, Finset.mem_insert]
          grind
      | removeDynPath path =>
          simp only [Call.onSet, Finset.mem_erase]
          grind

end Set

/-! ## Runs -/

/-- The functions are enabled, and the strings are in memory. -/
def InMemory (st : State A) (ss : List CString) : Prop :=
  st.dynPathsEnabled = true ∧ ∃ ps, Lists st.heap st.dynPaths ps ss

theorem InMemory.nodup {st : State A} (hi : InMemory st ss) : ss.Nodup := by
  obtain ⟨-, ps, hl⟩ := hi
  exact hl.nodup

theorem initState_inMemory (heap : Heap A CString) : InMemory (initState heap) [] :=
  ⟨rfl, [], begins_nil _, rfl, Nat.zero_le _, .nil, List.nodup_nil, List.nodup_nil⟩

variable {st : State A}

/-- What a call leaves. -/
structure Called (st : State A) (S : Finset CString × Bool) (r : State A × Bool) : Prop where
  lists : ∃ ss, InMemory r.1 ss ∧ ss.toFinset = S.1
  rc : r.2 = S.2
  same : r.2 = false → r.1 = st

theorem Outcome.called {S : Finset CString} {rc : Bool} {r : Heap A CString × Strlist A × Bool}
    (ho : Outcome st.heap st.dynPaths S rc r) (hen : st.dynPathsEnabled = true) :
    Called st (S, rc) ({ st with heap := r.1, dynPaths := r.2.1 }, r.2.2) where
  lists := by
    obtain ⟨ps, ss, hl, hS⟩ := ho.lists
    exact ⟨ss, ⟨hen, ps, hl⟩, hS⟩
  rc := ho.rc
  same := by
    intro hrc
    obtain ⟨hheap, hlist⟩ := ho.same hrc
    show State.mk st.dynPathsEnabled r.2.1 r.1 = st
    rw [hheap, hlist]

variable [DecidableEq A] {sys : Sys A}

theorem call_spec (hi : InMemory st ss) (c : Call) :
    OrOutOfMemory (call sys st c) (Called st (c.onSet ss.toFinset)) := by
  obtain ⟨hen, ps, hl⟩ := hi
  cases c with
  | addDynPath path =>
      show OrOutOfMemory (lfuncAddDynPath sys st path) _
      rw [lfuncAddDynPath, assertThat_of_pos hen, stop_bind, Call.onSet]
      simp only [List.mem_toFinset]
      exact (strlistPush_spec hl (toCString path)).bind fun r hr => .pure (hr.called hen)
  | removeDynPath path =>
      show OrOutOfMemory (lfuncRemoveDynPath sys st path) _
      rw [lfuncRemoveDynPath, assertThat_of_pos hen, stop_bind, Call.onSet]
      simp only [List.mem_toFinset]
      exact (strlistRemove_spec hl (toCString path)).bind fun r hr => .pure (hr.called hen)

theorem calls_spec (hi : InMemory st ss) (cs : List (Sys A × Call)) :
    OrOutOfMemory (calls st cs) fun r =>
      ∃ ss', InMemory r.1 ss' ∧
        (ss'.toFinset, r.2) = setCalls ss.toFinset (cs.map Prod.snd) := by
  induction cs generalizing st ss with
  | nil => exact .pure ⟨ss, hi, rfl⟩
  | cons c cs ih =>
      refine (call_spec hi c.2).bind fun r hr => ?_
      obtain ⟨ss', hi', hS⟩ := hr.lists
      refine (ih hi').bind fun r' ⟨ss'', hi'', hS'⟩ => .pure ⟨ss'', hi'', ?_⟩
      rw [hS] at hS'
      rw [List.map_cons, setCalls, ← hS', ← hr.rc]

theorem call_eq_error {e : Stop} (hi : InMemory st ss) (c : Call) :
    call sys st c = .error e ↔ e = .outOfMemory ∧ c.Stops sys st.heap ss.toFinset := by
  have hcard : ss.toFinset.card = ss.length := List.toFinset_card_of_nodup hi.nodup
  obtain ⟨hen, ps, hl⟩ := hi
  cases c with
  | addDynPath path =>
      show lfuncAddDynPath sys st path = _ ↔ _
      rw [lfuncAddDynPath, assertThat_of_pos hen, stop_bind, Call.Stops, hcard, List.mem_toFinset]
      exact (bind_eq_error_of_left fun _ _ => ⟨_, rfl⟩).trans (strlistPush_eq_error hl _)
  | removeDynPath path =>
      show lfuncRemoveDynPath sys st path = _ ↔ _
      rw [lfuncRemoveDynPath, assertThat_of_pos hen, stop_bind, Call.Stops, hcard,
        List.mem_toFinset]
      exact (bind_eq_error_of_left fun _ _ => ⟨_, rfl⟩).trans (strlistRemove_eq_error hl _)

/-- One of the calls asks for memory that is refused in the state that those before it lead to. -/
def StopsIn (st : State A) (cs : List (Sys A × Call)) : Prop :=
  ∃ before sys c after st' rcs, cs = before ++ (sys, c) :: after ∧
    calls st before = .ok (st', rcs) ∧
    c.Stops sys st'.heap (setCalls ∅ (before.map Prod.snd)).1

/-- The states of a run of calls are those of steps that may fail. -/
theorem calls_map_fst (st : State A) (cs : List (Sys A × Call)) :
    (calls st cs).map Prod.fst =
      cs.foldlM (fun st c => (call c.1 st c.2).map Prod.fst) st := by
  induction cs generalizing st with
  | nil => rfl
  | cons c cs ih =>
      rw [List.foldlM_cons, calls]
      cases call c.1 st c.2 with
      | error e => rfl
      | ok r =>
          refine Eq.trans ?_ (ih r.1)
          show Except.map _ (calls r.1 cs >>= _) = _
          cases calls r.1 cs with
          | error e => rfl
          | ok r' => rfl

/-- A run ends the program exactly as one of its calls does. -/
theorem calls_eq_error {heap : Heap A CString} {cs : List (Sys A × Call)} {e : Stop} :
    calls (initState heap) cs = .error e ↔ e = .outOfMemory ∧ StopsIn (initState heap) cs := by
  have hcalled {before : List (Sys A × Call)} {r : State A × List Bool}
      (hrun : calls (initState heap) before = .ok r) :
      ∃ ss, InMemory r.1 ss ∧ ss.toFinset = (setCalls ∅ (before.map Prod.snd)).1 := by
    obtain ⟨ss, hi, hset⟩ := (calls_spec (initState_inMemory heap) before).of_ok hrun
    exact ⟨ss, hi, congrArg Prod.fst hset⟩
  rw [← map_eq_error (g := Prod.fst), calls_map_fst, foldlM_eq_error]
  constructor
  · rintro ⟨st, ⟨sys, c⟩, ⟨before, after, hcs, hbefore⟩, he⟩
    rw [← calls_map_fst] at hbefore
    obtain ⟨⟨_, rcs⟩, hrun, rfl⟩ := map_eq_ok.mp hbefore
    obtain ⟨ss, hi, hS⟩ := hcalled hrun
    obtain ⟨rfl, hstops⟩ := (call_eq_error hi c).mp (map_eq_error.mp he)
    rw [hS] at hstops
    exact ⟨rfl, before, sys, c, after, _, rcs, hcs, hrun, hstops⟩
  · rintro ⟨rfl, before, sys, c, after, st, rcs, hcs, hrun, hstops⟩
    obtain ⟨ss, hi, hS⟩ := hcalled hrun
    rw [← hS] at hstops
    refine ⟨st, (sys, c), ⟨before, after, hcs, ?_⟩, ?_⟩
    · rw [← calls_map_fst, hrun]
      rfl
    · exact map_eq_error.mpr ((call_eq_error hi c).mpr ⟨rfl, hstops⟩)

/-- After any calls, unless memory was short in one of them: the strings in memory are distinct,
they are the paths that were added and not removed since, the calls have answered what the set
answers, and a further call that answers `false` changes nothing.

The calls end the program exactly if one of them adds a path that is not in the set, or removes one
that is, and what it asks for is refused. -/
theorem calls_refine (heap : Heap A CString) (cs : List (Sys A × Call)) :
    (OrOutOfMemory (calls (initState heap) cs) fun r =>
      ∃ ss, InMemory r.1 ss ∧ ss.Nodup ∧
        (∀ s, s ∈ ss ↔ AddedSince (cs.map Prod.snd) s) ∧
        (ss.toFinset, r.2) = setCalls ∅ (cs.map Prod.snd) ∧
        ∀ sys c st, call sys r.1 c = .ok (st, false) → st = r.1) ∧
      ∀ e, calls (initState heap) cs = .error e ↔
        e = .outOfMemory ∧ StopsIn (initState heap) cs := by
  refine ⟨(calls_spec (initState_inMemory heap) cs).mono ?_, fun e => calls_eq_error⟩
  rintro r ⟨ss, hi, hset⟩
  refine ⟨ss, hi, hi.nodup, fun s => ?_, hset, fun sys c st hcall => ?_⟩
  · have hmem : s ∈ ss ↔ s ∈ (setCalls ∅ (cs.map Prod.snd)).1 := by
      rw [← List.mem_toFinset]
      exact iff_of_eq (congrArg (s ∈ Prod.fst ·) hset)
    rw [hmem, mem_setCalls]
    simp
  · exact ((call_spec hi c).of_ok hcall).same rfl

/-- Memory for two strings, and for an array of two. -/
def smallSys : Sys Nat := ⟨(· ≤ 16), .two⟩

/-- Two paths, the first of them twice, and its removal. -/
def smallCalls : List (Sys Nat × Call) :=
  [(smallSys, .addDynPath [97]), (smallSys, .addDynPath [98]), (smallSys, .addDynPath [97]),
    (smallSys, .removeDynPath [97])]

/-- The calls succeed, and a third path would not. -/
theorem calls_refine_small :
    (∃ st ss, calls (initState Heap.empty) smallCalls = .ok (st, [true, true, false, true]) ∧
      InMemory st ss ∧ ss.toFinset = {toCString [98]}) ∧
    StopsIn (initState Heap.empty) (smallCalls.take 2 ++ [(smallSys, .addDynPath [99])]) := by
  constructor
  · have hok : (calls (initState Heap.empty) smallCalls).isOk = true := by decide +kernel
    have h := (calls_refine Heap.empty smallCalls).1
    cases hrun : calls (initState Heap.empty) smallCalls with
    | error e =>
        rw [hrun] at hok
        cases hok
    | ok r =>
        rw [hrun] at h
        obtain ⟨ss, hi, -, -, hset, -⟩ := h
        obtain ⟨hS, hrcs⟩ := Prod.mk.inj hset
        have hanswers : r.2 = [true, true, false, true] := hrcs.trans (by decide)
        rw [← hanswers]
        exact ⟨r.1, ss, rfl, hi, hS.trans (by decide)⟩
  · refine (((calls_refine Heap.empty _).2 .outOfMemory).mp ?_).2
    rw [← map_eq_error (g := Prod.snd)]
    decide +kernel

end Luastatus.Fs

import Luastatus.Lib.CString
import Mathlib.Data.List.Basic

/-!
# Arrays of strings

`strset_mergesort` and `strset_binsearch` work on an array of pointers to strings.  Two pointers can
have equal strings behind them, so the elements are of any type here, with the string of an element
given by `str`.  Every access to an array is checked, and a result is nothing if an access is out of
bounds.

`strsetMergesort_sorts` says that the sort stays in bounds and leaves a sorted permutation of the
array in which elements with equal strings keep their order.
-/

namespace Luastatus.NetworkLinux.StrArray

open Text (CString strcmp)

variable {α : Type} (str : α → CString)

/-! ## Sorting -/

/-- A write to an array. -/
def setAt (data : List α) (i : Nat) (x : α) : Option (List α) :=
  if i < data.length then some (data.set i x) else none

/-- The loop of `copy`, from index `i` on; `dst` is what has been copied. -/
def copy (src : List α) (n i : Nat) (dst : List α) : Option (List α) :=
  if i < n then do
    let x ← src[i]?
    copy src n (i + 1) (dst ++ [x])
  else some dst
termination_by n - i

/-- The first loop of the merge. -/
def mergeLoop (left right : List α) (nleft nright : Nat) (data : List α) (i j : Nat) :
    Option (List α × Nat × Nat) :=
  if i < nleft ∧ j < nright then do
    let elemLeft ← left[i]?
    let elemRight ← right[j]?
    if strcmp (str elemLeft) (str elemRight) ≤ 0 then
      let data ← setAt data (i + j) elemLeft
      mergeLoop left right nleft nright data (i + 1) j
    else
      let data ← setAt data (i + j) elemRight
      mergeLoop left right nleft nright data i (j + 1)
  else some (data, i, j)
termination_by (nleft - i) + (nright - j)

/-- The loops that copy what is left of one half, from the index `i` on, each element to its index
plus `off`. -/
def restLoop (src : List α) (n : Nat) (data : List α) (i off : Nat) : Option (List α × Nat) :=
  if i < n then do
    let x ← src[i]?
    let data ← setAt data (i + off) x
    restLoop src n data (i + 1) off
  else some (data, i)
termination_by n - i

/-- The three loops of the merge. -/
def mergeBack (left right : List α) (nleft nright : Nat) (data : List α) : Option (List α) := do
  let (data, i, j) ← mergeLoop str left right nleft nright data 0 0
  let (data, i) ← restLoop left nleft data i j
  let (data, _) ← restLoop right nright data j i
  some data

/-- `strset_mergesort`. -/
def strsetMergesort (data : List α) (ndata : Nat) : Option (List α) :=
  if ndata < 2 then some data
  else do
    let left ← copy data (ndata / 2) 0 []
    let right ← copy (data.drop (ndata / 2)) (ndata - ndata / 2) 0 []
    let left ← strsetMergesort left (ndata / 2)
    let right ← strsetMergesort right (ndata - ndata / 2)
    mergeBack str left right (ndata / 2) (ndata - ndata / 2) data
termination_by ndata

/-! ## Searching -/

/-- The loop of `strset_binsearch`. -/
def binsearchLoop (data : List α) (s : CString) (l r : Nat) : Option (Nat × Nat) :=
  if r - l > 1 then do
    let m := l + (r - l) / 2
    let elem ← data[m]?
    if strcmp (str elem) s ≤ 0 then binsearchLoop data s m r else binsearchLoop data s l m
  else some (l, r)
termination_by r - l

/-- `strset_binsearch`. -/
def strsetBinsearch (data : List α) (ndata : Nat) (s : CString) : Option Bool := do
  let (l, r) ← binsearchLoop str data s 0 ndata
  if l ≠ r then
    let elem ← data[l]?
    return strcmp (str elem) s == 0
  else return false

/-! ## The loops stay in bounds -/

/-- Running a computation after one that has a result. -/
theorem some_bind {β γ : Type} (a : β) (f : β → Option γ) : (some a >>= f) = f a := rfl

/-- The order as `List.merge` takes it. -/
def le (a b : α) : Bool := decide (str a ≤ str b)

section Loops

variable {str} {left right src data done rest all : List α} {x r : α} {i j off : Nat}

theorem drop_eq_cons (h : src[i]? = some x) : src.drop i = x :: src.drop (i + 1) := by
  obtain ⟨hi, rfl⟩ := List.getElem?_eq_some_iff.mp h
  exact List.drop_eq_getElem_cons hi

theorem setAt_eq_some_iff : setAt data i x = some rest ↔ i < data.length ∧ rest = data.set i x := by
  rw [setAt]
  split
  · simp [*, eq_comm]
  · simp [*]

/-- One element is written behind what has been written. -/
theorem setAt_append (hlen : done.length = i) :
    setAt (done ++ r :: rest) i x = some (done ++ [x] ++ rest) := by
  subst hlen
  rw [setAt, if_pos (by simp)]
  simp

theorem copy_eq {n i : Nat} (hn : n ≤ src.length) (hi : i ≤ n) (dst : List α) :
    copy src n i dst = some (dst ++ (src.drop i).take (n - i)) := by
  rw [copy]
  split
  · rename_i hlt
    have hget : src[i]? = some src[i] := List.getElem?_eq_getElem (by omega)
    rw [hget, some_bind, copy_eq hn (Nat.succ_le_of_lt hlt), drop_eq_cons hget,
      show n - i = n - (i + 1) + 1 by omega, List.take_succ_cons, List.append_assoc]
    rfl
  · rw [show n - i = 0 by omega, List.take_zero, List.append_nil]
termination_by n - i

/-- Copying to an array that has room for what is left of the source. -/
theorem restLoop_eq (hi : i ≤ src.length) (hdone : done.length = i + off)
    (hrest : (src.drop i).length ≤ rest.length) :
    restLoop src src.length (done ++ rest) i off =
      some (done ++ src.drop i ++ rest.drop (src.drop i).length, src.length) := by
  generalize hs : src.drop i = xs at hrest
  induction xs generalizing i done rest with
  | nil =>
      have hlen : src.length ≤ i := List.drop_eq_nil_iff.mp hs
      rw [restLoop, if_neg (by omega), List.append_nil, List.length_nil, List.drop_zero,
        Nat.le_antisymm hi hlen]
  | cons x xs ih =>
      have hx : src[i]? = some x := by rw [← List.head?_drop, hs]; rfl
      have hxs : src.drop (i + 1) = xs := by rw [← List.tail_drop, hs]; rfl
      have hlt : i < src.length := (List.getElem?_eq_some_iff.mp hx).1
      cases rest with
      | nil => cases hrest
      | cons r rest =>
          have hlen : (done ++ [x]).length = i + 1 + off := by
            rw [List.length_append, hdone, List.length_singleton]
            omega
          rw [restLoop, if_pos hlt, hx, some_bind, setAt_append hdone, some_bind,
            ih hlt hlen hxs (Nat.le_of_succ_le_succ hrest)]
          simp

/-- The invariant of the first loop: `done` has been written, there is room for what is left of the
two halves, and with the merge of what is left it makes `all`. -/
structure Merging (str : α → CString) (left right all done rest : List α) (i j : Nat) :
    Prop where
  hi : i ≤ left.length
  hj : j ≤ right.length
  length_done : done.length = i + j
  length_rest : rest.length = (left.drop i).length + (right.drop j).length
  merged : done ++ (left.drop i).merge (right.drop j) (le str) = all

theorem Merging.fromLeft (h : Merging str left right all done (r :: rest) i j) {y : α}
    (hx : left[i]? = some x) (hy : right[j]? = some y) (hle : str x ≤ str y) :
    Merging str left right all (done ++ [x]) rest (i + 1) j where
  hi := (List.getElem?_eq_some_iff.mp hx).1
  hj := h.hj
  length_done := by
    rw [List.length_append, h.length_done, List.length_singleton]
    omega
  length_rest := by
    have := h.length_rest
    rw [drop_eq_cons hx, List.length_cons, List.length_cons] at this
    omega
  merged := by
    have hxy : le str x y = true := decide_eq_true hle
    rw [← h.merged, drop_eq_cons hx, drop_eq_cons hy, List.cons_merge_cons_pos _ _ _ hxy]
    simp

theorem Merging.fromRight (h : Merging str left right all done (r :: rest) i j) {y : α}
    (hx : left[i]? = some x) (hy : right[j]? = some y) (hle : ¬ str x ≤ str y) :
    Merging str left right all (done ++ [y]) rest i (j + 1) where
  hi := h.hi
  hj := (List.getElem?_eq_some_iff.mp hy).1
  length_done := by
    rw [List.length_append, h.length_done, List.length_singleton]
    omega
  length_rest := by
    have := h.length_rest
    rw [drop_eq_cons hy, List.length_cons, List.length_cons] at this
    omega
  merged := by
    have hxy : ¬ le str x y = true := by simpa [le] using hle
    rw [← h.merged, drop_eq_cons hx, drop_eq_cons hy, List.cons_merge_cons_neg _ _ _ hxy]
    simp

/-- The first loop keeps the invariant and stops at the end of one of the halves. -/
theorem Merging.loop {done rest : List α} {i j : Nat}
    (h : Merging str left right all done rest i j) :
    ∃ done' rest' i' j', mergeLoop str left right left.length right.length (done ++ rest) i j =
        some (done' ++ rest', i', j') ∧
      Merging str left right all done' rest' i' j' ∧
      (i' = left.length ∨ j' = right.length) := by
  rw [mergeLoop]
  by_cases hmore : i < left.length ∧ j < right.length
  · have hx : left[i]? = some left[i] := List.getElem?_eq_getElem hmore.1
    have hy : right[j]? = some right[j] := List.getElem?_eq_getElem hmore.2
    cases rest with
    | nil =>
        have hroom := h.length_rest
        rw [drop_eq_cons hx, List.length_cons, List.length_nil] at hroom
        omega
    | cons r rest =>
        rw [if_pos hmore, hx, some_bind, hy, some_bind, setAt_append h.length_done,
          setAt_append h.length_done, some_bind, some_bind]
        split
        · rename_i hle
          exact Merging.loop (h.fromLeft hx hy hle)
        · rename_i hle
          exact Merging.loop (h.fromRight hx hy hle)
  · rw [if_neg hmore]
    have hi := h.hi
    have hj := h.hj
    exact ⟨done, rest, i, j, rfl, h, by omega⟩
termination_by (left.length - i) + (right.length - j)

/-- The three loops write the merge of the two halves. -/
theorem mergeBack_eq (hlen : data.length = left.length + right.length) :
    mergeBack str left right left.length right.length data =
      some (left.merge right (le str)) := by
  have hstart : Merging str left right (left.merge right (le str)) [] data 0 0 :=
    ⟨Nat.zero_le _, Nat.zero_le _, rfl, hlen, rfl⟩
  obtain ⟨done, rest, i, j, hloop, hend, hstop⟩ := hstart.loop
  rw [List.nil_append] at hloop
  have hleft : (left.drop i).length ≤ rest.length := by
    rw [hend.length_rest]
    omega
  have hright : (right.drop j).length ≤ (rest.drop (left.drop i).length).length := by
    have := hend.length_rest
    simp only [List.length_drop] at this ⊢
    omega
  have hdone : (done ++ left.drop i).length = j + left.length := by
    rw [List.length_append, hend.length_done, List.length_drop]
    have := hend.hi
    omega
  have hroom : (rest.drop (left.drop i).length).drop (right.drop j).length = [] := by
    rw [List.drop_drop, List.drop_eq_nil_iff, hend.length_rest]
  rw [mergeBack, hloop]
  simp only [some_bind, restLoop_eq hend.hi hend.length_done hleft,
    restLoop_eq hend.hj hdone hright]
  rw [hroom, List.append_nil, ← hend.merged, List.append_assoc]
  congr 2
  rcases hstop with he | he
  · rw [he, List.drop_length, List.nil_append, List.nil_merge]
  · rw [he, List.drop_length, List.append_nil, List.merge_right]

end Loops

/-! ## The sort is a stable sort -/

/-- `out` is a sorted permutation of `xs` that keeps the order of elements with equal strings. -/
structure StablySorts (xs out : List α) : Prop where
  perm : out.Perm xs
  sorted : out.Pairwise fun a b => str a ≤ str b
  stable : ∀ s, out.filter (fun x => str x = s) = xs.filter fun x => str x = s

variable {str}

theorem stablySorts_of_length_lt_two {xs : List α} (h : xs.length < 2) :
    StablySorts str xs xs where
  perm := .refl xs
  sorted := by
    match xs with
    | [] => exact .nil
    | [x] => exact List.pairwise_singleton _ _
    | _ :: _ :: _ => simp at h
  stable := fun _ => rfl

/-- Where the merge takes an element from the right half, no element that is left in the left half
has the same string. -/
theorem filter_merge {left : List α} (hl : left.Pairwise fun a b => str a ≤ str b)
    (right : List α) (s : CString) :
    (left.merge right (le str)).filter (fun x => str x = s) =
      left.filter (fun x => str x = s) ++ right.filter fun x => str x = s := by
  match left, right with
  | [], right => simp
  | x :: left, [] => simp
  | x :: left, y :: right =>
      by_cases hle : str x ≤ str y
      · have hxy : le str x y = true := decide_eq_true hle
        have ih := filter_merge hl.of_cons (y :: right) s
        rw [List.cons_merge_cons_pos _ _ _ hxy, List.filter_cons, ih,
          List.filter_cons (x := x)]
        split <;> rfl
      · have hxy : ¬ le str x y = true := by simpa [le] using hle
        have ih := filter_merge hl right s
        rw [List.cons_merge_cons_neg _ _ _ hxy, List.filter_cons, ih]
        split
        · rename_i hys
          have hnone : (x :: left).filter (fun x => str x = s) = [] := by
            rw [List.filter_eq_nil_iff]
            intro z hz hzs
            have hzy : str z = str y := (of_decide_eq_true hzs).trans (of_decide_eq_true hys).symm
            rcases List.mem_cons.mp hz with rfl | hz
            · exact hle (le_of_eq hzy)
            · exact hle ((List.rel_of_pairwise_cons hl hz).trans (le_of_eq hzy))
          rw [hnone, List.nil_append, List.nil_append, List.filter_cons, if_pos hys]
        · rename_i hys
          rw [List.filter_cons (x := y), if_neg hys]
termination_by left.length + right.length

/-- The merge of two sorted halves sorts their concatenation. -/
theorem StablySorts.merge {xs ys left right : List α} (hl : StablySorts str xs left)
    (hr : StablySorts str ys right) :
    StablySorts str (xs ++ ys) (left.merge right (le str)) where
  perm := (List.merge_perm_append (le str)).trans (hl.perm.append hr.perm)
  sorted := by
    have htrans : ∀ a b c : α, le str a b = true → le str b c = true → le str a c = true := by
      intro a b c hab hbc
      exact decide_eq_true ((of_decide_eq_true hab).trans (of_decide_eq_true hbc))
    have htotal : ∀ a b : α, (le str a b || le str b a) = true := by
      intro a b
      rcases le_total (str a) (str b) with hab | hba
      · simp [le, hab]
      · simp [le, hba]
    have hmerged := List.pairwise_merge htrans htotal _ _
      (hl.sorted.imp fun hab => decide_eq_true hab) (hr.sorted.imp fun hab => decide_eq_true hab)
    exact hmerged.imp fun hab => of_decide_eq_true hab
  stable := fun s => by
    rw [filter_merge hl.sorted, hl.stable, hr.stable, List.filter_append]

/-- `strset_mergesort` stays in bounds at any length and sorts the array. -/
theorem strsetMergesort_sorts (data : List α) :
    ∃ out, strsetMergesort str data data.length = some out ∧ StablySorts str data out := by
  rw [strsetMergesort]
  split
  · rename_i h
    exact ⟨data, rfl, stablySorts_of_length_lt_two h⟩
  · rename_i h
    have hhalf : data.length / 2 ≤ data.length := Nat.div_le_self _ _
    have hleft : (data.take (data.length / 2)).length = data.length / 2 := by
      rw [List.length_take, Nat.min_eq_left hhalf]
    have hright : (data.drop (data.length / 2)).length = data.length - data.length / 2 :=
      List.length_drop
    obtain ⟨left, hl, hsl⟩ := strsetMergesort_sorts (data.take (data.length / 2))
    obtain ⟨right, hr, hsr⟩ := strsetMergesort_sorts (data.drop (data.length / 2))
    rw [hleft] at hl
    rw [hright] at hr
    have hnl : left.length = data.length / 2 := hsl.perm.length_eq.trans hleft
    have hnr : right.length = data.length - data.length / 2 := hsr.perm.length_eq.trans hright
    have hsorts := hsl.merge hsr
    rw [List.take_append_drop] at hsorts
    refine ⟨_, ?_, hsorts⟩
    rw [copy_eq hhalf (Nat.zero_le _), some_bind,
      copy_eq (Nat.le_of_eq hright.symm) (Nat.zero_le _), some_bind]
    simp only [List.nil_append, List.drop_zero, Nat.sub_zero]
    rw [List.take_of_length_le (Nat.le_of_eq hright), hl, some_bind, hr, some_bind, ← hnr, ← hnl]
    exact mergeBack_eq (by omega)
termination_by data.length
decreasing_by
  all_goals
    simp only [List.length_take, List.length_drop]
    omega

end Luastatus.NetworkLinux.StrArray

import Luastatus.Lib.BinarySearch
import Luastatus.NetworkLinux.StrArray

/-!
# String sets

A `Strset` is an array of strings.  `strset_add` appends to it, `strset_freeze` sorts it, and
`strset_contains` is a binary search, which answers membership only if the array is sorted.

`strset_mergesort` copies the two halves, sorts the copies and writes their merge back
(`mergeBack_eq`), so what it leaves is a sorted permutation of the array.

The strings stand for themselves here.  That the accesses to the arrays are in bounds, and what
becomes of the pointers, is said in terms of `StrArray`.
-/

namespace Luastatus.NetworkLinux

open Text (CString strcmp)
open BinarySearch (Window)

/-! ## Sorting -/

/-- The first loop of the merge, up to the end of one of the halves. -/
def mergeLoop (left right data : List CString) (i j : Nat) : List CString × Nat × Nat :=
  match _hi : left[i]?, _hj : right[j]? with
  | some elemLeft, some elemRight =>
      if strcmp elemLeft elemRight ≤ 0 then
        mergeLoop left right (data.set (i + j) elemLeft) (i + 1) j
      else
        mergeLoop left right (data.set (i + j) elemRight) i (j + 1)
  | _, _ => (data, i, j)
termination_by (left.length - i) + (right.length - j)
decreasing_by
  all_goals
    have hi := (List.getElem?_eq_some_iff.mp _hi).1
    have hj := (List.getElem?_eq_some_iff.mp _hj).1
    omega

/-- The loops that copy what is left of one half: `src` from the index `i` on, each element to its
index plus `off`. -/
def copyLoop (src data : List CString) (i off : Nat) : List CString × Nat :=
  match _hi : src[i]? with
  | some elem => copyLoop src (data.set (i + off) elem) (i + 1) off
  | none => (data, i)
termination_by src.length - i
decreasing_by
  have hi := (List.getElem?_eq_some_iff.mp _hi).1
  omega

/-- The three loops of `strset_mergesort`. -/
def mergeBack (left right data : List CString) : List CString :=
  let (data, i, j) := mergeLoop left right data 0 0
  let (data, i) := copyLoop left data i j
  (copyLoop right data j i).1

/-- `strset_mergesort`. -/
def strsetMergesort (data : List CString) : List CString :=
  if data.length < 2 then data
  else
    let nleft := data.length / 2
    mergeBack (strsetMergesort (data.take nleft)) (strsetMergesort (data.drop nleft)) data
termination_by data.length
decreasing_by
  all_goals
    simp only [List.length_take, List.length_drop]
    omega

/-! ## Searching -/

/-- The loop of `strset_binsearch`. -/
def binsearchLoop (data : List CString) (s : CString) (l r : Nat) : Nat × Nat :=
  if r - l > 1 then
    let m := l + (r - l) / 2
    match data[m]? with
    | some elem =>
        if strcmp elem s ≤ 0 then binsearchLoop data s m r else binsearchLoop data s l m
    | none => (l, r)
  else (l, r)
termination_by r - l

/-- `strset_binsearch`. -/
def strsetBinsearch (data : List CString) (s : CString) : Bool :=
  let (l, r) := binsearchLoop data s 0 data.length
  decide (l ≠ r) &&
    match data[l]? with
    | some elem => strcmp elem s == 0
    | none => false

/-! ## Sets -/

/-- `Strset`. -/
structure Strset where
  data : List CString
deriving DecidableEq

/-- `strset_new`. -/
def strsetNew : Strset := ⟨[]⟩

/-- `strset_add`. -/
def strsetAdd (x : Strset) (s : CString) : Strset := ⟨x.data ++ [s]⟩

/-- `strset_freeze`. -/
def strsetFreeze (x : Strset) : Strset := ⟨strsetMergesort x.data⟩

/-- `strset_contains`. -/
def strsetContains (x : Strset) (s : CString) : Bool := strsetBinsearch x.data s

/-- `strset_reset`. -/
def strsetReset (_ : Strset) : Strset := ⟨[]⟩

/-- The array is sorted. -/
def Strset.Sorted (x : Strset) : Prop := x.data.Pairwise (· ≤ ·)

/-! ## The sort is a sort -/

/-- The order as `List.merge` takes it. -/
def le (s t : CString) : Bool := decide (s ≤ t)

variable {left right data : List CString} {i j off : Nat}

theorem mergeLoop_of_some {elemLeft elemRight : CString} (hi : left[i]? = some elemLeft)
    (hj : right[j]? = some elemRight) :
    mergeLoop left right data i j =
      if elemLeft ≤ elemRight then mergeLoop left right (data.set (i + j) elemLeft) (i + 1) j
      else mergeLoop left right (data.set (i + j) elemRight) i (j + 1) := by
  rw [mergeLoop]
  split
  · rename_i l r hl hr
    rw [hi] at hl
    rw [hj] at hr
    cases hl
    cases hr
    rfl
  · rename_i hnone
    exact absurd hj (hnone _ _ hi)

theorem mergeLoop_of_end (h : left[i]? = none ∨ right[j]? = none) :
    mergeLoop left right data i j = (data, i, j) := by
  rw [mergeLoop]
  split
  · rename_i l r hl hr
    rcases h with h | h
    · rw [h] at hl
      cases hl
    · rw [h] at hr
      cases hr
  · rfl

/-- The first loop does what the one with checked accesses does. -/
theorem mergeLoop_of_checked {data : List CString} {i j : Nat} {r : List CString × Nat × Nat}
    (h : StrArray.mergeLoop id left right left.length right.length data i j = some r) :
    mergeLoop left right data i j = r := by
  rw [StrArray.mergeLoop] at h
  split at h
  · rename_i hmore
    have hx : left[i]? = some left[i] := List.getElem?_eq_getElem hmore.1
    have hy : right[j]? = some right[j] := List.getElem?_eq_getElem hmore.2
    rw [hx, StrArray.some_bind, hy, StrArray.some_bind] at h
    rw [mergeLoop_of_some hx hy]
    split at h
    · rename_i hcmp
      have hle : left[i] ≤ right[j] := hcmp
      obtain ⟨data', hset, h⟩ := Option.bind_eq_some_iff.mp h
      rw [if_pos hle, ← (StrArray.setAt_eq_some_iff.mp hset).2]
      exact mergeLoop_of_checked h
    · rename_i hcmp
      have hle : ¬ left[i] ≤ right[j] := hcmp
      obtain ⟨data', hset, h⟩ := Option.bind_eq_some_iff.mp h
      rw [if_neg hle, ← (StrArray.setAt_eq_some_iff.mp hset).2]
      exact mergeLoop_of_checked h
  · rename_i hend
    cases h
    refine mergeLoop_of_end ?_
    rw [List.getElem?_eq_none_iff, List.getElem?_eq_none_iff]
    omega
termination_by (left.length - i) + (right.length - j)

theorem copyLoop_of_checked {src data : List CString} {i : Nat} {r : List CString × Nat}
    (h : StrArray.restLoop src src.length data i off = some r) :
    copyLoop src data i off = r := by
  rw [StrArray.restLoop] at h
  split at h
  · rename_i hlt
    have hx : src[i]? = some src[i] := List.getElem?_eq_getElem hlt
    rw [hx, StrArray.some_bind] at h
    obtain ⟨data', hset, h⟩ := Option.bind_eq_some_iff.mp h
    rw [copyLoop]
    split
    · rename_i x hx'
      cases hx.symm.trans hx'
      rw [← (StrArray.setAt_eq_some_iff.mp hset).2]
      exact copyLoop_of_checked h
    · rename_i hnone
      cases hx.symm.trans hnone
  · rename_i hend
    cases h
    rw [copyLoop]
    split
    · rename_i x hx
      exact absurd (List.getElem?_eq_some_iff.mp hx).1 hend
    · rfl
termination_by src.length - i

/-- The three loops write the merge of the two halves. -/
theorem mergeBack_eq (hlen : data.length = left.length + right.length) :
    mergeBack left right data = left.merge right le := by
  have h : StrArray.mergeBack id left right left.length right.length data =
      some (left.merge right le) := StrArray.mergeBack_eq hlen
  rw [StrArray.mergeBack] at h
  obtain ⟨⟨data₁, i, j⟩, hmerge, h⟩ := Option.bind_eq_some_iff.mp h
  obtain ⟨⟨data₂, i'⟩, hleft, h⟩ := Option.bind_eq_some_iff.mp h
  obtain ⟨⟨data₃, j'⟩, hright, h⟩ := Option.bind_eq_some_iff.mp h
  rw [mergeBack, mergeLoop_of_checked hmerge]
  simp only [copyLoop_of_checked hleft, copyLoop_of_checked hright]
  exact Option.some.inj h

/-- What the function does to an array of at least two elements. -/
theorem strsetMergesort_eq (h : ¬ data.length < 2) (hleft : left = data.take (data.length / 2))
    (hright : right = data.drop (data.length / 2))
    (hl : (strsetMergesort left).length = left.length)
    (hr : (strsetMergesort right).length = right.length) :
    strsetMergesort data = (strsetMergesort left).merge (strsetMergesort right) le := by
  have hlen : data.length = (strsetMergesort left).length + (strsetMergesort right).length := by
    rw [hl, hr, hleft, hright, List.length_take, List.length_drop]
    omega
  conv_lhs => rw [strsetMergesort, if_neg h]
  subst hleft hright
  exact mergeBack_eq hlen

theorem strsetMergesort_perm (data : List CString) : (strsetMergesort data).Perm data := by
  by_cases h : data.length < 2
  · rw [strsetMergesort, if_pos h]
  · have hl := strsetMergesort_perm (data.take (data.length / 2))
    have hr := strsetMergesort_perm (data.drop (data.length / 2))
    rw [strsetMergesort_eq h rfl rfl hl.length_eq hr.length_eq]
    refine (List.merge_perm_append le).trans ((hl.append hr).trans ?_)
    rw [List.take_append_drop]
termination_by data.length
decreasing_by
  all_goals
    simp only [List.length_take, List.length_drop]
    omega

theorem strsetMergesort_sorted (data : List CString) :
    (strsetMergesort data).Pairwise (· ≤ ·) := by
  by_cases h : data.length < 2
  · rw [strsetMergesort, if_pos h]
    match data with
    | [] => exact .nil
    | [s] => exact List.pairwise_singleton _ _
    | _ :: _ :: _ => simp at h
  · have hl := strsetMergesort_sorted (data.take (data.length / 2))
    have hr := strsetMergesort_sorted (data.drop (data.length / 2))
    rw [strsetMergesort_eq h rfl rfl (strsetMergesort_perm _).length_eq
      (strsetMergesort_perm _).length_eq]
    have htrans : ∀ a b c : CString, le a b = true → le b c = true → le a c = true := by
      intro a b c hab hbc
      exact decide_eq_true ((of_decide_eq_true hab).trans (of_decide_eq_true hbc))
    have htotal : ∀ a b : CString, (le a b || le b a) = true := by
      intro a b
      rcases le_total a b with hab | hba
      · simp [le, hab]
      · simp [le, hba]
    have hmerged := List.pairwise_merge htrans htotal _ _
      (hl.imp fun hab => decide_eq_true hab) (hr.imp fun hab => decide_eq_true hab)
    exact hmerged.imp fun hab => of_decide_eq_true hab
termination_by data.length
decreasing_by
  all_goals
    simp only [List.length_take, List.length_drop]
    omega

/-! ## The search decides membership -/

theorem binsearchLoop_window {s : CString} {l r : Nat} (hs : data.Pairwise (· ≤ ·))
    (hw : Window data s l r) (hr : r ≤ data.length) (hlr : l ≤ r) :
    Window data s (binsearchLoop data s l r).1 (binsearchLoop data s l r).2 ∧
      (binsearchLoop data s l r).1 ≤ (binsearchLoop data s l r).2 ∧
      (binsearchLoop data s l r).2 ≤ (binsearchLoop data s l r).1 + 1 := by
  rw [binsearchLoop]
  split
  · rename_i hgap
    have hm : l + (r - l) / 2 < data.length := by omega
    have hget : data[l + (r - l) / 2]? = some data[l + (r - l) / 2] := List.getElem?_eq_getElem hm
    simp only [hget]
    split
    · rename_i hle
      exact binsearchLoop_window hs (hw.right hs hget (by omega) hle) hr (by omega)
    · rename_i hgt
      exact binsearchLoop_window hs (hw.left hs hget (lt_of_not_ge hgt)) (by omega) (by omega)
  · rename_i hgap
    exact ⟨hw, hlr, by omega⟩
termination_by r - l

/-- The search in a sorted array. -/
theorem strsetBinsearch_iff (hs : data.Pairwise (· ≤ ·)) (s : CString) :
    strsetBinsearch data s = true ↔ s ∈ data := by
  obtain ⟨hw, hlr, hstop⟩ :=
    binsearchLoop_window hs (Window.full data s) (Nat.le_refl _) (Nat.zero_le _)
  rw [hw.mem_iff hstop, strsetBinsearch]
  generalize binsearchLoop data s 0 data.length = lr at hlr
  obtain ⟨l, r⟩ := lr
  have hne : l ≠ r ↔ l < r := ⟨fun hne => Nat.lt_of_le_of_ne hlr hne, Nat.ne_of_lt⟩
  simp only [Bool.and_eq_true, decide_eq_true_eq, hne]
  cases hget : data[l]? with
  | none => simp
  | some elem => simp [Text.strcmp_eq_zero_iff]

/-! ## Specifications of the operations -/

theorem strsetFreeze_sorted (x : Strset) : (strsetFreeze x).Sorted := strsetMergesort_sorted x.data

theorem mem_strsetFreeze {x : Strset} {s : CString} : s ∈ (strsetFreeze x).data ↔ s ∈ x.data :=
  (strsetMergesort_perm x.data).mem_iff

theorem strsetContains_iff {x : Strset} (hx : x.Sorted) (s : CString) :
    strsetContains x s = true ↔ s ∈ x.data := strsetBinsearch_iff hx s

theorem strsetNew_sorted : strsetNew.Sorted := .nil

end Luastatus.NetworkLinux

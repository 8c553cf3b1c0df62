import Luastatus.NetworkLinux.Strset

/-!
# Runs of a string set

`strset_add` stores a copy of its argument, so every element of a set is a pointer of its own, even
where the strings are equal.  A run is any sequence of additions, freezes and resets.

After a freeze the array is a sorted stable permutation of what has been added since the last reset,
and the search tells whether a string is among that (`run_freeze`).  The strings behind the pointers
are those of the same run of a `Strset`, and so are the answers of the search (`run_strings`).
-/

namespace Luastatus.NetworkLinux.StrArray

open Text (CString strcmp)

/-! ## The search stays in bounds -/

section Search

variable {α : Type} {str : α → CString} {data : List α} {s : CString}

/-- The loop reads inside of the interval only, and does what the loop on the strings does. -/
theorem binsearchLoop_eq {l r : Nat} (hlr : l ≤ r) (hr : r ≤ data.length) :
    ∃ l' r', binsearchLoop str data s l r = some (l', r') ∧
      NetworkLinux.binsearchLoop (data.map str) s l r = (l', r') ∧ l' ≤ r' ∧ r' ≤ data.length := by
  rw [binsearchLoop, NetworkLinux.binsearchLoop]
  by_cases hgap : r - l > 1
  · have hm : l + (r - l) / 2 < data.length := by omega
    have hget : data[l + (r - l) / 2]? = some data[l + (r - l) / 2] := List.getElem?_eq_getElem hm
    rw [if_pos hgap, if_pos hgap]
    simp only [List.getElem?_map, hget, some_bind, Option.map_some]
    split
    · exact binsearchLoop_eq (by omega) hr
    · exact binsearchLoop_eq (by omega) (by omega)
  · rw [if_neg hgap, if_neg hgap]
    exact ⟨l, r, rfl, rfl, hlr, hr⟩
termination_by r - l

/-- `strset_binsearch` stays in bounds on any array. -/
theorem strsetBinsearch_eq (data : List α) (s : CString) :
    strsetBinsearch str data data.length s =
      some (NetworkLinux.strsetBinsearch (data.map str) s) := by
  obtain ⟨l, r, hrun, hrun', hlr, hr⟩ :=
    @binsearchLoop_eq α str data s 0 data.length (Nat.zero_le _) (Nat.le_refl _)
  rw [strsetBinsearch, hrun, some_bind, NetworkLinux.strsetBinsearch, List.length_map, hrun']
  simp only
  by_cases hne : l ≠ r
  · have hget : data[l]? = some data[l] := List.getElem?_eq_getElem (by omega)
    rw [if_pos hne, hget, some_bind, decide_eq_true hne, Bool.true_and, List.getElem?_map, hget]
    rfl
  · rw [if_neg hne, decide_eq_false hne, Bool.false_and]
    rfl

/-- The strings of a sorted array of pointers are what `strset_mergesort` leaves of the strings. -/
theorem StablySorts.map_str {xs out : List α} (h : StablySorts str xs out) :
    out.map str = NetworkLinux.strsetMergesort (xs.map str) := by
  refine List.Perm.eq_of_pairwise' (List.pairwise_map.mpr h.sorted)
    (strsetMergesort_sorted (xs.map str)) ?_
  exact (h.perm.map str).trans (strsetMergesort_perm (xs.map str)).symm

end Search

/-! ## Runs -/

/-- What `ls_xstrdup` returns: a pointer, numbered by the copies that have been made before, and the
string behind it. -/
structure Dup where
  copy : Nat
  str : CString
deriving DecidableEq

/-- A `Strset`, and how many copies have been made. -/
structure PtrSet where
  data : List Dup
  copies : Nat
deriving DecidableEq

/-- The calls that change a set. -/
inductive Op where
  | add (s : CString)
  | freeze
  | reset
deriving DecidableEq

/-- `strset_new`. -/
def PtrSet.new : PtrSet := ⟨[], 0⟩

/-- `strset_add`. -/
def PtrSet.add (x : PtrSet) (s : CString) : PtrSet := ⟨x.data ++ [⟨x.copies, s⟩], x.copies + 1⟩

/-- `strset_freeze`. -/
def PtrSet.freeze (x : PtrSet) : Option PtrSet := do
  let data ← strsetMergesort Dup.str x.data x.data.length
  return ⟨data, x.copies⟩

/-- `strset_reset`. -/
def PtrSet.reset (x : PtrSet) : PtrSet := ⟨[], x.copies⟩

/-- `strset_contains`. -/
def PtrSet.contains (x : PtrSet) (s : CString) : Option Bool :=
  strsetBinsearch Dup.str x.data x.data.length s

/-- One call. -/
def PtrSet.call (x : PtrSet) : Op → Option PtrSet
  | .add s => some (x.add s)
  | .freeze => x.freeze
  | .reset => some x.reset

/-- A run; nothing if an access of it is out of bounds. -/
def PtrSet.run (x : PtrSet) (ops : List Op) : Option PtrSet := ops.foldlM PtrSet.call x

/-- The copies that have been added since the last reset, in order, and how many have been made,
after one more call. -/
def sinceResetStep (a : List Dup × Nat) : Op → List Dup × Nat
  | .add s => (a.1 ++ [⟨a.2, s⟩], a.2 + 1)
  | .freeze => a
  | .reset => ([], a.2)

/-- The same after a run. -/
def sinceReset (ops : List Op) : List Dup × Nat := ops.foldl sinceResetStep ([], 0)

/-- The strings that have been added since the last reset, in order, after one more call. -/
def addedStep (a : List CString) : Op → List CString
  | .add s => a ++ [s]
  | .freeze => a
  | .reset => []

/-- The same after a run. -/
def added (ops : List Op) : List CString := ops.foldl addedStep []

/-- The invariant of a run: the array holds what has been added, and elements with equal strings are
in the order of their addition. -/
structure Holds (ops : List Op) (x : PtrSet) : Prop where
  copies : x.copies = (sinceReset ops).2
  perm : x.data.Perm (sinceReset ops).1
  stable : ∀ s, x.data.filter (fun d => d.str = s) = (sinceReset ops).1.filter fun d => d.str = s

theorem sinceReset_concat (ops : List Op) (op : Op) :
    sinceReset (ops ++ [op]) = sinceResetStep (sinceReset ops) op := by
  rw [sinceReset, List.foldl_append]
  rfl

theorem added_concat (ops : List Op) (op : Op) :
    added (ops ++ [op]) = addedStep (added ops) op := by
  rw [added, List.foldl_append]
  rfl

theorem map_str_sinceReset (ops : List Op) : (sinceReset ops).1.map Dup.str = added ops := by
  induction ops using List.reverseRecOn with
  | nil => rfl
  | append_singleton ops op ih =>
      rw [sinceReset_concat, added_concat]
      cases op with
      | add s => rw [addedStep, ← ih, sinceResetStep, List.map_append]; rfl
      | freeze => exact ih
      | reset => rfl

/-- A freeze of a set that holds what has been added. -/
theorem Holds.freeze {ops : List Op} {x : PtrSet} (h : Holds ops x) :
    ∃ y, x.freeze = some y ∧ y.copies = x.copies ∧
      StablySorts Dup.str (sinceReset ops).1 y.data := by
  obtain ⟨out, hout, hsorts⟩ := @strsetMergesort_sorts Dup Dup.str x.data
  refine ⟨⟨out, x.copies⟩, ?_, rfl, hsorts.perm.trans h.perm, hsorts.sorted, fun s => ?_⟩
  · rw [PtrSet.freeze, hout]
    rfl
  · exact (hsorts.stable s).trans (h.stable s)

/-- A call keeps the invariant. -/
theorem Holds.call {ops : List Op} {x : PtrSet} (h : Holds ops x) (op : Op) :
    ∃ y, x.call op = some y ∧ Holds (ops ++ [op]) y := by
  cases op with
  | add s =>
      refine ⟨_, rfl, ?_, ?_, ?_⟩
      · rw [sinceReset_concat, sinceResetStep, PtrSet.add, h.copies]
      · rw [sinceReset_concat, sinceResetStep, PtrSet.add, h.copies]
        exact h.perm.append (.refl _)
      · intro t
        rw [sinceReset_concat, sinceResetStep, PtrSet.add, h.copies, List.filter_append,
          List.filter_append, h.stable]
  | freeze =>
      obtain ⟨y, hy, hcopies, hsorts⟩ := h.freeze
      refine ⟨y, hy, ?_, ?_, ?_⟩
      · rw [sinceReset_concat, sinceResetStep, hcopies, h.copies]
      · rw [sinceReset_concat, sinceResetStep]
        exact hsorts.perm
      · intro t
        rw [sinceReset_concat, sinceResetStep, hsorts.stable]
  | reset =>
      refine ⟨_, rfl, ?_, ?_, ?_⟩
      · rw [sinceReset_concat, sinceResetStep, PtrSet.reset, h.copies]
      · rw [sinceReset_concat, sinceResetStep]
        exact .refl _
      · intro t
        rw [sinceReset_concat, sinceResetStep, PtrSet.reset]

/-- A run keeps it. -/
theorem run_holds (ops : List Op) : ∃ x, PtrSet.new.run ops = some x ∧ Holds ops x := by
  induction ops using List.reverseRecOn with
  | nil => exact ⟨_, rfl, rfl, .refl _, fun _ => rfl⟩
  | append_singleton ops op ih =>
      obtain ⟨x, hrun, hx⟩ := ih
      obtain ⟨y, hcall, hy⟩ := hx.call op
      rw [PtrSet.run] at hrun
      refine ⟨y, ?_, hy⟩
      rw [PtrSet.run, List.foldlM_append, hrun, some_bind, List.foldlM_cons, hcall]
      rfl

/-- One call, on the strings. -/
def strsetCall (x : Strset) : Op → Strset
  | .add s => strsetAdd x s
  | .freeze => strsetFreeze x
  | .reset => strsetReset x

/-- A run, on the strings. -/
def strsetRun (ops : List Op) : Strset := ops.foldl strsetCall strsetNew

theorem strsetRun_concat (ops : List Op) (op : Op) :
    strsetRun (ops ++ [op]) = strsetCall (strsetRun ops) op := by
  rw [strsetRun, List.foldl_append]
  rfl

/-- A call does the same to the strings behind the pointers. -/
theorem call_strings (x : PtrSet) (op : Op) :
    ∃ y, x.call op = some y ∧ y.data.map Dup.str = (strsetCall ⟨x.data.map Dup.str⟩ op).data := by
  cases op with
  | add s => exact ⟨_, rfl, List.map_append⟩
  | freeze =>
      obtain ⟨out, hout, hsorts⟩ := @strsetMergesort_sorts Dup Dup.str x.data
      refine ⟨⟨out, x.copies⟩, ?_, hsorts.map_str⟩
      rw [PtrSet.call, PtrSet.freeze, hout]
      rfl
  | reset => exact ⟨_, rfl, rfl⟩

/-- A run stays in bounds; the strings behind the pointers, and the answers of the search, are those
of the run on the strings. -/
theorem run_strings (ops : List Op) :
    ∃ x, PtrSet.new.run ops = some x ∧ x.data.map Dup.str = (strsetRun ops).data ∧
      ∀ s, x.contains s = some (strsetContains (strsetRun ops) s) := by
  have hrun : ∃ x, PtrSet.new.run ops = some x ∧ x.data.map Dup.str = (strsetRun ops).data := by
    induction ops using List.reverseRecOn with
    | nil => exact ⟨_, rfl, rfl⟩
    | append_singleton ops op ih =>
        obtain ⟨x, hrun, hx⟩ := ih
        obtain ⟨y, hcall, hy⟩ := call_strings x op
        refine ⟨y, ?_, ?_⟩
        · rw [PtrSet.run] at hrun
          rw [PtrSet.run, List.foldlM_append, hrun, some_bind, List.foldlM_cons, hcall]
          rfl
        · rw [hy, hx, strsetRun_concat]
  obtain ⟨x, hrun, hx⟩ := hrun
  refine ⟨x, hrun, hx, fun s => ?_⟩
  rw [PtrSet.contains, strsetBinsearch_eq, hx]
  rfl

/-- After a freeze at the end of any run the array is a sorted stable permutation of the copies that
have been added since the last reset, and the search finds a string if and only if it is among
them.  No run makes an access out of bounds, and neither does a sort or a search of any array. -/
theorem run_freeze :
    (∀ ops : List Op, ∃ x y, PtrSet.new.run ops = some x ∧ x.freeze = some y ∧
      StablySorts Dup.str (sinceReset ops).1 y.data ∧
      ∀ s, ∃ b, y.contains s = some b ∧ (b = true ↔ s ∈ added ops)) ∧
    ∀ (data : List Dup) (s : CString),
      (strsetMergesort Dup.str data data.length).isSome ∧
      (strsetBinsearch Dup.str data data.length s).isSome := by
  constructor
  · intro ops
    obtain ⟨x, hrun, hx⟩ := run_holds ops
    obtain ⟨y, hy, -, hsorts⟩ := hx.freeze
    refine ⟨x, y, hrun, hy, hsorts, fun s => ⟨_, strsetBinsearch_eq y.data s, ?_⟩⟩
    have hsorted := List.pairwise_map.mpr hsorts.sorted
    rw [strsetBinsearch_iff hsorted s, (hsorts.perm.map Dup.str).mem_iff, map_str_sinceReset]
  · intro data s
    obtain ⟨out, hout, -⟩ := @strsetMergesort_sorts Dup Dup.str data
    rw [hout, strsetBinsearch_eq]
    exact ⟨rfl, rfl⟩

end Luastatus.NetworkLinux.StrArray

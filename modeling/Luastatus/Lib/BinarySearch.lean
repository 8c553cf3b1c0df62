import Mathlib.Order.Lattice
import Mathlib.Data.List.Basic

/-!
# Binary search

A search for an element keeps an interval of indices.  `Window xs x l r` is its invariant: if the
element occurs in the list at all, it occurs at an index of the interval.  In a sorted list the
interval may be cut at an index, to its right part if the element there is not greater than the one
searched for, and to its left part if it is.
-/

namespace BinarySearch

variable {α : Type*} {xs : List α} {x y : α} {l r m : Nat}

/-- If the element occurs in the list, it occurs between the two indices. -/
def Window (xs : List α) (x : α) (l r : Nat) : Prop :=
  x ∈ xs → ∃ k, l ≤ k ∧ k < r ∧ xs[k]? = some x

theorem Window.full (xs : List α) (x : α) : Window xs x 0 xs.length := by
  intro hx
  obtain ⟨k, hk, rfl⟩ := List.getElem_of_mem hx
  exact ⟨k, Nat.zero_le k, hk, List.getElem?_eq_getElem hk⟩

/-- An interval of at most one index decides membership. -/
theorem Window.mem_iff (hw : Window xs x l r) (hr : r ≤ l + 1) :
    x ∈ xs ↔ l < r ∧ xs[l]? = some x := by
  constructor
  · intro hx
    obtain ⟨k, hlk, hkr, hk⟩ := hw hx
    have hkl : k = l := by omega
    subst hkl
    exact ⟨hkr, hk⟩
  · rintro ⟨-, hl⟩
    exact List.mem_of_getElem? hl

variable [LinearOrder α]

/-- Elements of a sorted list at ordered indices. -/
theorem le_of_sorted (hs : xs.Pairwise (· ≤ ·)) {i j : Nat} (hi : xs[i]? = some x)
    (hj : xs[j]? = some y) (hij : i ≤ j) : x ≤ y := by
  obtain ⟨hil, rfl⟩ := List.getElem?_eq_some_iff.mp hi
  obtain ⟨hjl, rfl⟩ := List.getElem?_eq_some_iff.mp hj
  rcases Nat.eq_or_lt_of_le hij with he | hlt
  · subst he
    exact le_refl _
  · exact List.pairwise_iff_getElem.mp hs i j hil hjl hlt

theorem Window.right (hw : Window xs x l r) (hs : xs.Pairwise (· ≤ ·)) (hm : xs[m]? = some y)
    (hmr : m < r) (hyx : y ≤ x) : Window xs x m r := by
  intro hx
  obtain ⟨k, hlk, hkr, hk⟩ := hw hx
  rcases Nat.lt_or_ge k m with hkm | hmk
  · -- the element is at `k`, so it is also at `m`
    have hxy : x ≤ y := le_of_sorted hs hk hm (Nat.le_of_lt hkm)
    rw [le_antisymm hyx hxy] at hm
    exact ⟨m, Nat.le_refl m, hmr, hm⟩
  · exact ⟨k, hmk, hkr, hk⟩

theorem Window.left (hw : Window xs x l r) (hs : xs.Pairwise (· ≤ ·)) (hm : xs[m]? = some y)
    (hxy : x < y) : Window xs x l m := by
  intro hx
  obtain ⟨k, hlk, hkr, hk⟩ := hw hx
  rcases Nat.lt_or_ge k m with hkm | hmk
  · exact ⟨k, hlk, hkm, hk⟩
  · exact absurd (le_of_sorted hs hm hk hmk) (not_le_of_gt hxy)

end BinarySearch

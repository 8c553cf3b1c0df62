import Mathlib.Data.List.Perm.Basic
import Mathlib.Logic.Function.Basic

/-!
# Heaps

A heap gives the contents of the objects that are allocated, by their addresses.  `malloc` may give
any address that is not in use, one that was freed before included, so it is a step whose result is
chosen by somebody else: `Allocator` is such a choice, and carries the proof that it is a fresh
address.

`Stores h ps xs` says that the pointers `ps` lead to the objects `xs`.  It survives an allocation,
and the release of any object that is not among them.
-/

namespace Memory

variable {A α : Type*}

/-- The objects that are allocated, by address. -/
abbrev Heap (A α : Type*) := A → Option α

/-- What `malloc` answers for a number of bytes: an address that is not in use, or nothing. -/
structure Allocator (A α : Type*) where
  malloc : Heap A α → Nat → Option A
  fresh : malloc h n = some a → h a = none

/-- It has room for two objects. -/
def Allocator.two : Allocator Nat α where
  malloc h _ := if h 0 = none then some 0 else if h 1 = none then some 1 else none
  fresh h := by
    split at h
    · cases h
      assumption
    · split at h
      · cases h
        assumption
      · cases h

namespace Heap

/-- The heap without objects. -/
def empty : Heap A α := fun _ => none

variable [DecidableEq A]

/-- The object at an address is created or overwritten. -/
def put (h : Heap A α) (a : A) (x : α) : Heap A α := Function.update h a (some x)

/-- The object at an address is freed. -/
def free (h : Heap A α) (a : A) : Heap A α := Function.update h a none

variable {h : Heap A α} {a b : A} {x : α}

@[simp] theorem put_self (h : Heap A α) (a : A) (x : α) : h.put a x a = some x := by
  rw [put, Function.update_self]

@[simp] theorem free_self (h : Heap A α) (a : A) : h.free a a = none := by
  rw [free, Function.update_self]

theorem put_of_ne (hne : b ≠ a) (h : Heap A α) (x : α) : h.put a x b = h b := by
  rw [put, Function.update_of_ne hne]

theorem free_of_ne (hne : b ≠ a) (h : Heap A α) : h.free a b = h b := by
  rw [free, Function.update_of_ne hne]

@[simp] theorem put_put (h : Heap A α) (a : A) (x y : α) : (h.put a x).put a y = h.put a y := by
  rw [put, put, Function.update_idem, put]

/-- Freeing what was allocated. -/
theorem free_put (ha : h a = none) (x : α) : (h.put a x).free a = h := by
  rw [put, free, Function.update_idem, ← ha, Function.update_eq_self]

end Heap

/-! ## Lists of objects -/

/-- The pointers lead to the objects. -/
def Stores (h : Heap A α) (ps : List A) (xs : List α) : Prop :=
  List.Forall₂ (fun p x => h p = some x) ps xs

section Stores

variable {h : Heap A α} {ps qs : List A} {xs ys : List α} {a : A} {x : α}

theorem Stores.length_eq (hs : Stores h ps xs) : ps.length = xs.length := List.Forall₂.length_eq hs

/-- An address that is not in use is not among the pointers. -/
theorem Stores.notMem (hs : Stores h ps xs) (ha : h a = none) : a ∉ ps := by
  induction hs with
  | nil => exact List.not_mem_nil
  | cons hp _ ih =>
      rw [List.mem_cons]
      rintro (rfl | hmem)
      · cases ha.symm.trans hp
      · exact ih hmem

/-- What happens to other objects does not matter. -/
theorem Stores.congr {h' : Heap A α} (hs : Stores h ps xs) (heq : ∀ p ∈ ps, h' p = h p) :
    Stores h' ps xs := by
  induction hs with
  | nil => exact .nil
  | cons hp _ ih =>
      refine .cons ((heq _ List.mem_cons_self).trans hp) (ih fun p hmem => ?_)
      exact heq p (List.mem_cons_of_mem _ hmem)

theorem Stores.append (hs : Stores h ps xs) (ht : Stores h qs ys) :
    Stores h (ps ++ qs) (xs ++ ys) :=
  List.rel_append hs ht

theorem Stores.getElem (hs : Stores h ps xs) {i : Nat} {p : A} (hp : ps[i]? = some p) :
    ∃ x, xs[i]? = some x ∧ h p = some x := by
  induction hs generalizing i with
  | nil => cases hp
  | cons hq _ ih =>
      cases i with
      | zero =>
          obtain rfl := Option.some.inj hp
          exact ⟨_, rfl, hq⟩
      | succ i => exact ih hp

/-- The pointers in another order, with the object behind the first one known. -/
theorem Stores.of_cons_perm (hs : Stores h ps xs) (hperm : (a :: qs).Perm ps) (ha : h a = some x) :
    ∃ ys, (x :: ys).Perm xs ∧ Stores h qs ys := by
  obtain ⟨zs, hzs, hys⟩ := List.perm_comp_forall₂ hperm hs
  cases hzs with
  | cons hz hrest =>
      obtain rfl := Option.some.inj (ha.symm.trans hz)
      exact ⟨_, hys, hrest⟩

variable [DecidableEq A]

theorem Stores.put (hs : Stores h ps xs) (ha : h a = none) : Stores (h.put a x) ps xs := by
  refine hs.congr fun p hp => Heap.put_of_ne ?_ h x
  rintro rfl
  exact hs.notMem ha hp

/-- A new object at the end. -/
theorem Stores.concat (hs : Stores h ps xs) (ha : h a = none) :
    Stores (h.put a x) (ps ++ [a]) (xs ++ [x]) :=
  (hs.put ha).append (.cons (Heap.put_self h a x) .nil)

theorem Stores.free (hs : Stores h ps xs) (ha : a ∉ ps) : Stores (h.free a) ps xs := by
  refine hs.congr fun p hp => Heap.free_of_ne ?_ h
  rintro rfl
  exact ha hp

end Stores

end Memory

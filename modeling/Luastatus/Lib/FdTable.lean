import Mathlib.Data.Nat.Find
import Mathlib.Logic.Function.Basic

/-!
# Tables of file descriptors

A process has a table of open files, indexed by file descriptors, with the flag that closes a file
on `execve`.  A new descriptor is the lowest one that is not in use.  `spawn` is the table of a new
process: a copy of its parent's, changed by a list of actions and then by `execve`.
-/

namespace FdTable

/-- An open file in a table. -/
structure Entry (F : Type) where
  file : F
  cloexec : Bool
deriving DecidableEq

/-- A table; finitely many descriptors are in use. -/
@[ext] structure Table (F : Type) where
  get : Nat → Option (Entry F)
  finite : ∃ n, ∀ m, n ≤ m → get m = none

variable {F : Type}

namespace Table

variable (t : Table F)

theorem exists_free : ∃ n, t.get n = none :=
  t.finite.imp fun n h => h n (Nat.le_refl n)

/-- The lowest descriptor that is not in use. -/
def lowest : Nat := Nat.find (p := fun n => (t.get n).isNone = true)
  (t.exists_free.imp fun _ h => Option.isNone_iff_eq_none.mpr h)

/-- The table with another entry at `n`. -/
def set (n : Nat) (e : Option (Entry F)) : Table F where
  get := Function.update t.get n e
  finite := by
    obtain ⟨b, hb⟩ := t.finite
    refine ⟨max b (n + 1), fun m hm => ?_⟩
    rw [Function.update_of_ne (by omega)]
    exact hb m (by omega)

/-- `close` -/
def close (n : Nat) : Table F := t.set n none

/-- A new descriptor for the file. -/
def install (f : F) (cloexec : Bool) : Table F := t.set t.lowest (some ⟨f, cloexec⟩)

/-- `fcntl(n, F_SETFD, …)` -/
def setCloexec (n : Nat) (c : Bool) : Table F :=
  t.set n ((t.get n).map fun e => { e with cloexec := c })

/-- `execve` closes what is to be closed. -/
def exec : Table F where
  get n := (t.get n).filter fun e => !e.cloexec
  finite := by
    obtain ⟨b, hb⟩ := t.finite
    exact ⟨b, fun m hm => by rw [hb m hm]; rfl⟩

/-- Another kind of files. -/
def map {G : Type} (f : F → G) : Table G where
  get n := (t.get n).map fun e => ⟨f e.file, e.cloexec⟩
  finite := by
    obtain ⟨b, hb⟩ := t.finite
    exact ⟨b, fun m hm => by rw [hb m hm]; rfl⟩

variable {t}

theorem get_lowest : t.get t.lowest = none := by
  have hspec : (t.get t.lowest).isNone = true :=
    Nat.find_spec (p := fun n => (t.get n).isNone = true) _
  exact Option.isNone_iff_eq_none.mp hspec

theorem get_isSome_of_lt {n : Nat} (h : n < t.lowest) : (t.get n).isSome := by
  have hmin := Nat.find_min _ h
  rw [Option.isNone_iff_eq_none] at hmin
  exact Option.isSome_iff_ne_none.mpr hmin

@[simp] theorem get_set_self {n : Nat} {e : Option (Entry F)} : (t.set n e).get n = e :=
  Function.update_self ..

theorem get_set_of_ne {m n : Nat} {e : Option (Entry F)} (h : m ≠ n) :
    (t.set n e).get m = t.get m := Function.update_of_ne h ..

theorem get_set {m n : Nat} {e : Option (Entry F)} :
    (t.set n e).get m = if m = n then e else t.get m := by
  split
  · rename_i h
    rw [h, get_set_self]
  · rename_i h
    exact get_set_of_ne h

/-- The next new descriptor is a higher one. -/
theorem lowest_lt_install {f : F} {c : Bool} : t.lowest < (t.install f c).lowest := by
  by_contra hle
  have hfree := get_lowest (t := t.install f c)
  rcases Nat.lt_or_eq_of_le (Nat.not_lt.mp hle) with hlt | heq
  · have hsome := get_isSome_of_lt hlt
    rw [install, get_set_of_ne (by rw [install] at hlt; omega)] at hfree
    rw [install] at hsome
    rw [hfree] at hsome
    cases hsome
  · rw [heq, install, get_set_self] at hfree
    cases hfree

@[simp] theorem get_exec {n : Nat} :
    t.exec.get n = (t.get n).filter fun e => !e.cloexec := rfl

@[simp] theorem get_map {G : Type} {f : F → G} {n : Nat} :
    (t.map f).get n = (t.get n).map fun e => ⟨f e.file, e.cloexec⟩ := rfl

end Table

/-! ## New processes -/

/-- What `posix_spawn` does in the new process. -/
inductive Action where
  | dup2 (old new : Nat)
  | close (n : Nat)
deriving DecidableEq, Repr

/-- One action; it fails if the descriptor is not in use.  The copy is not closed on `execve`. -/
def Action.apply (t : Table F) : Action → Option (Table F)
  | dup2 old new => (t.get old).map fun e => t.set new (some { e with cloexec := false })
  | close n => (t.get n).map fun _ => t.close n

/-- The table of the new process. -/
def spawn (t : Table F) (actions : List Action) : Option (Table F) :=
  (actions.foldlM Action.apply t).map Table.exec

end FdTable

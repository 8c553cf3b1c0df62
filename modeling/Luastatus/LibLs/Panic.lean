import Mathlib.Logic.Basic

/-!
# Assertions

`LS_ASSERT(Expr)` aborts the program if `Expr` is false.  A function that may assert is a
computation in `Except AssertFailure`, and the failure names the expression.
-/

namespace Luastatus.LibLs

/-- The assertion that failed. -/
structure AssertFailure where
  /-- Its text. -/
  expr : String
deriving DecidableEq, Repr

/-- `LS_ASSERT`. -/
def lsAssert (c : Prop) [Decidable c] (expr : String) : Except AssertFailure Unit :=
  if c then .ok () else .error ⟨expr⟩

variable {c : Prop} [Decidable c] {α : Type}

theorem lsAssert_bind_of_pos (h : c) (expr : String) (f : Unit → Except AssertFailure α) :
    (lsAssert c expr >>= f) = f () := by
  rw [lsAssert, if_pos h]
  rfl

theorem lsAssert_bind_of_neg (h : ¬ c) (expr : String) (f : Unit → Except AssertFailure α) :
    (lsAssert c expr >>= f) = .error ⟨expr⟩ := by
  rw [lsAssert, if_neg h]
  rfl

/-- Running a computation after one that succeeds. -/
theorem ok_bind {β : Type} (a : α) (f : α → Except AssertFailure β) : (.ok a >>= f) = f a := rfl

/-- Running a computation after a failed assertion. -/
theorem error_bind {β : Type} (e : AssertFailure) (f : α → Except AssertFailure β) :
    (.error e >>= f) = .error e := rfl

end Luastatus.LibLs

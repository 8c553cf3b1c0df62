import Mathlib.Data.Option.Basic

/-!
# Mutual exclusion

A thread is in a critical section by its place in the code; the mutex knows its holder.  `Excl`
says that the two agree, which includes that two threads are never in a critical section together.

A step of a thread leaves the mutex alone, takes it while it is free, or gives it up (`Move`).
Every such step keeps `Excl` (`Excl.move`), so a program has exclusion as soon as each of its
steps is a move of the thread that makes it and leaves the places of the others alone.
-/

namespace Mutex

variable {τ : Type*}

/-- The holder of the mutex is the thread in the critical section; there is no other. -/
def Excl (m : Option τ) (holds : τ → Bool) : Prop := ∀ t, m = some t ↔ holds t = true

/-- What a step of `t` does: the holder before it, whether `t` is in the critical section before
it, and the same after it. -/
inductive Move (t : τ) : Option τ → Bool → Option τ → Bool → Prop where
  | keep : Move t m b m b
  | lock : Move t none b (some t) true
  | unlock : Move t m true none false

variable {m m' : Option τ} {holds holds' : τ → Bool} {t u : τ}

/-- At most one thread is in the critical section. -/
theorem Excl.unique (h : Excl m holds) (ht : holds t = true) (hu : holds u = true) : t = u := by
  have heq : some t = some u := ((h t).mpr ht).symm.trans ((h u).mpr hu)
  exact Option.some.inj heq

/-- The step rule. -/
theorem Excl.move (h : Excl m holds) (hmove : Move t m (holds t) m' (holds' t))
    (hother : ∀ u, u ≠ t → holds' u = holds u) : Excl m' holds' := by
  intro u
  have hu := h u
  by_cases he : u = t
  · subst he
    generalize holds u = b at hmove hu
    generalize holds' u = b' at hmove
    cases hmove with
    | keep => exact hu
    | lock => exact iff_of_true rfl rfl
    | unlock => exact iff_of_false (fun h => by cases h) Bool.false_ne_true
  · rw [hother u he]
    have ht := h t
    generalize holds t = b at hmove ht
    generalize holds' t = b' at hmove
    cases hmove with
    | keep => exact hu
    | lock =>
        rw [← hu]
        exact iff_of_false (fun hs => he (Option.some.inj hs).symm) (fun hs => by cases hs)
    | unlock =>
        rw [← hu, ht.mpr rfl]
        exact iff_of_false (fun hs => by cases hs) (fun hs => he (Option.some.inj hs).symm)

/-- A step that no thread makes. -/
theorem Excl.congr (h : Excl m holds) (hm : m' = m) (hholds : ∀ u, holds' u = holds u) :
    Excl m' holds' := by
  intro u
  rw [hm, hholds u]
  exact h u

end Mutex

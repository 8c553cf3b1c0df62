import Mathlib.Data.List.Nodup
import Mathlib.Logic.Function.Basic

/-!
# Assignments

A store is a partial function.  `assignAll` makes assignments to it, one after another.  If no place
is assigned to twice, then each place holds what is assigned to it.
-/

namespace Assign

variable {α β : Type} [DecidableEq α]

/-- The store after assignments. -/
def assignAll (f : α → Option β) : List (α × β) → α → Option β
  | [] => f
  | (a, b) :: ws => assignAll (Function.update f a (some b)) ws

/-- A place that is not assigned to holds what it held. -/
theorem assignAll_of_not_mem {f : α → Option β} {ws : List (α × β)} {a : α}
    (h : a ∉ ws.map Prod.fst) : assignAll f ws a = f a := by
  induction ws generalizing f with
  | nil => rfl
  | cons w ws ih =>
      rw [List.map_cons, List.mem_cons, not_or] at h
      refine (ih h.2).trans ?_
      exact Function.update_of_ne h.1 _ _

theorem assignAll_of_mem {f : α → Option β} {ws : List (α × β)}
    (hnodup : (ws.map Prod.fst).Nodup) {a : α} {b : β} (h : (a, b) ∈ ws) :
    assignAll f ws a = some b := by
  induction ws generalizing f with
  | nil => cases h
  | cons w ws ih =>
      rw [List.map_cons, List.nodup_cons] at hnodup
      rcases List.mem_cons.mp h with rfl | h
      · refine (assignAll_of_not_mem hnodup.1).trans ?_
        exact Function.update_self _ _ _
      · exact ih hnodup.2 h

/-- What a place holds in the end was assigned to it, or it held it before. -/
theorem mem_of_assignAll {f : α → Option β} {ws : List (α × β)} {a : α} {b : β}
    (h : assignAll f ws a = some b) : (a, b) ∈ ws ∨ f a = some b := by
  induction ws generalizing f with
  | nil => exact .inr h
  | cons w ws ih =>
      rcases ih h with hmem | hupdate
      · exact .inl (List.mem_cons_of_mem w hmem)
      · rcases eq_or_ne a w.1 with rfl | hne
        · rw [Function.update_self, Option.some.injEq] at hupdate
          exact .inl (hupdate ▸ List.mem_cons_self)
        · rw [Function.update_of_ne hne] at hupdate
          exact .inr hupdate

end Assign

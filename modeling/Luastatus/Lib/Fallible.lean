import Mathlib.Tactic.Common

/-!
# Runs of steps that may fail

A computation in `Except` fails if one of its parts does, and it fails with what the first one that
fails fails with.  So a run fails exactly if there is a step that fails in the state that the steps
before it lead to (`foldlM_eq_error`).
-/

namespace Fallible

variable {ε σ α β : Type} {x : Except ε α} {f : α → Except ε β} {e : ε}

/-- A computation that succeeds is made of two that do. -/
theorem bind_eq_ok {b : β} : (x >>= f) = .ok b ↔ ∃ a, x = .ok a ∧ f a = .ok b := by
  cases x with
  | error e =>
      constructor
      · intro h
        cases h
      · rintro ⟨a, h, -⟩
        cases h
  | ok a =>
      constructor
      · exact fun h => ⟨a, rfl, h⟩
      · rintro ⟨a', h, hf⟩
        cases h
        exact hf

/-- The first part fails, or the rest does. -/
theorem bind_eq_error :
    (x >>= f) = .error e ↔ x = .error e ∨ ∃ a, x = .ok a ∧ f a = .error e := by
  cases x with
  | error e' => simp [bind, Except.bind]
  | ok a => simp [bind, Except.bind]

/-- The rest is all that may fail. -/
theorem bind_eq_error_of_ok {a : α} (hx : x = .ok a) : (x >>= f) = .error e ↔ f a = .error e := by
  rw [hx]
  exact Iff.rfl

/-- The first part is all that may fail. -/
theorem bind_eq_error_of_left (hf : ∀ a, x = .ok a → ∃ b, f a = .ok b) :
    (x >>= f) = .error e ↔ x = .error e := by
  rw [bind_eq_error]
  refine or_iff_left ?_
  rintro ⟨a, ha, he⟩
  obtain ⟨b, hb⟩ := hf a ha
  cases hb.symm.trans he

theorem map_eq_error {g : α → β} : x.map g = .error e ↔ x = .error e := by
  cases x with
  | error e' => simp [Except.map]
  | ok a => simp [Except.map]

theorem map_eq_ok {g : α → β} {b : β} : x.map g = .ok b ↔ ∃ a, x = .ok a ∧ g a = b := by
  cases x with
  | error e' => simp [Except.map]
  | ok a => simp [Except.map]

/-- Two parts that fail with the same. -/
theorem bind_eq_error_or {stop : ε} {A B : Prop} (hx : ∀ e, x = .error e ↔ e = stop ∧ A)
    (hf : ∀ a, x = .ok a → ∀ e, f a = .error e ↔ e = stop ∧ B) :
    (x >>= f) = .error e ↔ e = stop ∧ (A ∨ B) := by
  cases h : x with
  | error e' =>
      obtain ⟨rfl, hA⟩ := (hx e').mp h
      rw [bind_eq_error_of_left nofun, ← h, hx, and_iff_left hA, and_iff_left (Or.inl hA)]
  | ok a =>
      have hA : ¬ A := fun hA => nomatch h.symm.trans ((hx stop).mpr ⟨rfl, hA⟩)
      rw [bind_eq_error_of_ok rfl, hf a h, or_iff_right hA]

/-- The step `a` of the run fails with `e`, and the steps before it lead to `t`. -/
structure FailsAt (step : σ → α → Except ε σ) (s : σ) (as : List α) (t : σ) (a : α) (e : ε) :
    Prop where
  reached : ∃ before after, as = before ++ a :: after ∧ before.foldlM step s = .ok t
  fails : step t a = .error e

/-- A run fails exactly as its first step that fails. -/
theorem foldlM_eq_error {step : σ → α → Except ε σ} {s : σ} {as : List α} :
    as.foldlM step s = .error e ↔ ∃ t a, FailsAt step s as t a e := by
  induction as generalizing s with
  | nil =>
      refine iff_of_false nofun ?_
      rintro ⟨t, a, ⟨before, after, hnil, -⟩, -⟩
      cases before <;> cases hnil
  | cons a as ih =>
      rw [List.foldlM_cons, bind_eq_error]
      simp only [ih]
      constructor
      · rintro (he | ⟨s', hs', t, b, ⟨before, after, rfl, hbefore⟩, he⟩)
        · exact ⟨s, a, ⟨[], as, rfl, rfl⟩, he⟩
        · refine ⟨t, b, ⟨a :: before, after, rfl, ?_⟩, he⟩
          rw [List.foldlM_cons, hs']
          exact hbefore
      · rintro ⟨t, b, ⟨before, after, heq, hbefore⟩, he⟩
        cases before with
        | nil =>
            obtain ⟨rfl, rfl⟩ := List.cons.inj heq
            cases hbefore
            exact .inl he
        | cons a' before =>
            obtain ⟨rfl, rfl⟩ := List.cons.inj heq
            rw [List.foldlM_cons] at hbefore
            cases hs' : step s a with
            | error e' =>
                rw [hs'] at hbefore
                cases hbefore
            | ok s' =>
                rw [hs'] at hbefore
                exact .inr ⟨s', rfl, t, b, ⟨before, after, rfl, hbefore⟩, he⟩

end Fallible

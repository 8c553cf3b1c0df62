import Mathlib.Data.List.Basic

/-!
# Cutting a list at some of its delimiters

`cutAt d P s` cuts a list at those of its delimiters `d` before which the list satisfies `P`.  The
pieces joined with delimiters are the list again (`intercalate_cutAt`), and the delimiters between
the pieces are those where the list is to be cut (`cutAt_iff`).

If the list is made of parts in which there is nothing to cut, joined with delimiters at which it is
to be cut, the pieces are the parts (`cutAt_intercalate`).
-/

namespace Cuts

variable {α : Type*}

theorem intercalate_cons_of_ne_nil (d : α) (p : List α) {ps : List (List α)} (h : ps ≠ []) :
    [d].intercalate (p :: ps) = p ++ d :: [d].intercalate ps := by
  obtain ⟨q, ps, rfl⟩ := List.exists_cons_of_ne_nil h
  rw [List.intercalate_cons_cons, List.append_assoc, List.singleton_append]

/-- A beginning of the pieces has at least what has been read of the first one. -/
theorem length_le_intercalate {d : α} {piece t : List α} {ps ps₁ ps₂ : List (List α)}
    (hne : ps₁ ≠ []) (h : (piece ++ t) :: ps = ps₁ ++ ps₂) :
    piece.length ≤ ([d].intercalate ps₁).length := by
  obtain ⟨p, ps₁, rfl⟩ := List.exists_cons_of_ne_nil hne
  rw [← (List.cons.inj h).1]
  cases ps₁ with
  | nil =>
      rw [List.intercalate_singleton, List.length_append]
      omega
  | cons r ps₁ =>
      rw [List.intercalate_cons_cons]
      simp only [List.length_append]
      omega

/-! ## Cuts -/

/-- The delimiter after `p` is between two pieces. -/
def CutsAfter (d : α) (ps : List (List α)) (p : List α) : Prop :=
  ∃ ps₁ ps₂, ps₁ ≠ [] ∧ ps₂ ≠ [] ∧ ps = ps₁ ++ ps₂ ∧ [d].intercalate ps₁ = p

/-- The first piece, and a cut behind it. -/
theorem cutsAfter_cons_iff {d : α} {piece p : List α} {ps : List (List α)} :
    CutsAfter d (piece :: ps) (piece ++ d :: p) ↔ CutsAfter d ps p := by
  constructor
  · rintro ⟨ps₁, ps₂, h₁, h₂, hps, hp⟩
    obtain ⟨q, ps₁, rfl⟩ := List.exists_cons_of_ne_nil h₁
    obtain ⟨rfl, rfl⟩ := List.cons.inj hps
    have hne : ps₁ ≠ [] := by
      rintro rfl
      rw [List.intercalate_singleton] at hp
      simp at hp
    rw [intercalate_cons_of_ne_nil d _ hne] at hp
    exact ⟨ps₁, ps₂, hne, h₂, rfl, (List.cons.inj (List.append_cancel_left hp)).2⟩
  · rintro ⟨ps₁, ps₂, h₁, h₂, rfl, rfl⟩
    exact ⟨piece :: ps₁, ps₂, List.cons_ne_nil _ _, h₂, rfl, intercalate_cons_of_ne_nil d _ h₁⟩

variable [DecidableEq α] (d : α) (P : List α → Prop) [DecidablePred P]

/-- The pieces, where `before` has been read and `piece` is the piece that has begun. -/
def cutFrom (before piece : List α) : List α → List (List α)
  | [] => [piece]
  | x :: xs =>
      if x = d ∧ P before then piece :: cutFrom (before ++ [x]) [] xs
      else cutFrom (before ++ [x]) (piece ++ [x]) xs

/-- The pieces of a list. -/
def cutAt (s : List α) : List (List α) := cutFrom d P [] [] s

variable {d P}

theorem cutFrom_of_pos {before piece xs : List α} (h : P before) :
    cutFrom d P before piece (d :: xs) = piece :: cutFrom d P (before ++ [d]) [] xs :=
  if_pos ⟨rfl, h⟩

theorem cutFrom_of_neg {x : α} {before piece xs : List α} (h : ¬ (x = d ∧ P before)) :
    cutFrom d P before piece (x :: xs) = cutFrom d P (before ++ [x]) (piece ++ [x]) xs :=
  if_neg h

/-- The first piece begins with what has been read of it. -/
theorem cutFrom_eq_cons (before piece s : List α) :
    ∃ t ps, cutFrom d P before piece s = (piece ++ t) :: ps := by
  induction s generalizing before piece with
  | nil => exact ⟨[], [], by rw [cutFrom, List.append_nil]⟩
  | cons x xs ih =>
      rw [cutFrom]
      split
      · exact ⟨[], _, by rw [List.append_nil]⟩
      · obtain ⟨t, ps, h⟩ := ih (before ++ [x]) (piece ++ [x])
        exact ⟨x :: t, ps, by rw [h, List.append_assoc, List.singleton_append]⟩

theorem cutFrom_ne_nil (before piece s : List α) : cutFrom d P before piece s ≠ [] := by
  obtain ⟨t, ps, h⟩ := cutFrom_eq_cons (d := d) (P := P) before piece s
  rw [h]
  exact List.cons_ne_nil _ _

/-- The pieces joined with the delimiter. -/
theorem intercalate_cutFrom (before piece s : List α) :
    [d].intercalate (cutFrom d P before piece s) = piece ++ s := by
  induction s generalizing before piece with
  | nil => rw [cutFrom, List.intercalate_singleton, List.append_nil]
  | cons x xs ih =>
      by_cases h : x = d ∧ P before
      · rw [h.1, cutFrom_of_pos h.2, intercalate_cons_of_ne_nil d _ (cutFrom_ne_nil _ _ _), ih,
          List.nil_append]
      · rw [cutFrom_of_neg h, ih, List.append_assoc, List.singleton_append]

theorem cutFrom_iff (s p q : List α) :
    ∀ before piece : List α, s = p ++ d :: q →
      (CutsAfter d (cutFrom d P before piece s) (piece ++ p) ↔ P (before ++ p)) := by
  induction s generalizing p with
  | nil =>
      intro before piece h
      simp at h
  | cons x xs ih =>
      intro before piece h
      cases p with
      | nil =>
          obtain ⟨rfl, rfl⟩ := List.cons.inj h
          rw [List.append_nil, List.append_nil]
          by_cases hP : P before
          · refine iff_of_true ?_ hP
            rw [cutFrom_of_pos hP]
            exact ⟨[piece], _, List.cons_ne_nil _ _, cutFrom_ne_nil _ _ _, rfl,
              List.intercalate_singleton⟩
          · refine iff_of_false ?_ hP
            rintro ⟨ps₁, ps₂, h₁, -, hps, hp⟩
            obtain ⟨t, ps, hcut⟩ :=
              cutFrom_eq_cons (d := x) (P := P) (before ++ [x]) (piece ++ [x]) xs
            rw [cutFrom_of_neg fun hx => hP hx.2, hcut] at hps
            have hle := length_le_intercalate (d := x) h₁ hps
            rw [hp, List.length_append, List.length_singleton] at hle
            omega
      | cons y p =>
          obtain ⟨rfl, htail⟩ := List.cons.inj h
          have hassoc (l : List α) : l ++ x :: p = l ++ [x] ++ p := by simp
          by_cases hcut : x = d ∧ P before
          · have ih' := ih p (before ++ [x]) [] htail
            obtain ⟨rfl, hP⟩ := hcut
            rw [cutFrom_of_pos hP, cutsAfter_cons_iff, hassoc before]
            exact ih'
          · rw [cutFrom_of_neg hcut, hassoc, hassoc]
            exact ih p (before ++ [x]) (piece ++ [x]) htail

/-- The delimiters at which the list is cut. -/
theorem cutAt_iff {s p q : List α} (h : s = p ++ d :: q) :
    CutsAfter d (cutAt d P s) p ↔ P p := cutFrom_iff s p q [] [] h

theorem intercalate_cutAt (s : List α) : [d].intercalate (cutAt d P s) = s :=
  intercalate_cutFrom [] [] s

/-! ## Parts that are not cut -/

/-- A part in which there is nothing to cut is read as a whole. -/
theorem cutFrom_append {g : List α} :
    ∀ before piece : List α, (∀ p q, g = p ++ d :: q → ¬ P (before ++ p)) → ∀ s,
      cutFrom d P before piece (g ++ s) = cutFrom d P (before ++ g) (piece ++ g) s := by
  induction g with
  | nil =>
      intro before piece _ s
      rw [List.nil_append, List.append_nil, List.append_nil]
  | cons x g ih =>
      intro before piece hg s
      have hcut : ¬ (x = d ∧ P before) := by
        rintro ⟨rfl, hP⟩
        exact hg [] g rfl (by rwa [List.append_nil])
      have hrest : ∀ p q, g = p ++ d :: q → ¬ P (before ++ [x] ++ p) := by
        intro p q he
        rw [List.append_assoc, List.singleton_append]
        exact hg (x :: p) q (by rw [he]; rfl)
      rw [List.cons_append, cutFrom_of_neg hcut, ih _ _ hrest, List.append_assoc,
        List.append_assoc, List.singleton_append]

/-- Parts that are joined with delimiters are the pieces, if the list is to be cut at these
delimiters and nowhere else. -/
theorem cutFrom_intercalate {gs : List (List α)} (hne : gs ≠ []) :
    ∀ before : List α,
      (∀ gs₁ g gs₂, gs = gs₁ ++ g :: gs₂ → ∀ p q, g = p ++ d :: q →
        ¬ P (before ++ gs₁.flatMap (· ++ [d]) ++ p)) →
      (∀ gs₁ g gs₂, gs = gs₁ ++ g :: gs₂ → gs₂ ≠ [] →
        P (before ++ gs₁.flatMap (· ++ [d]) ++ g)) →
      cutFrom d P before [] ([d].intercalate gs) = gs := by
  induction gs with
  | nil => exact absurd rfl hne
  | cons g gs ih =>
      intro before hin hcut
      have hg : ∀ p q, g = p ++ d :: q → ¬ P (before ++ p) := by
        intro p q he
        have := hin [] g gs rfl p q he
        rwa [List.flatMap_nil, List.append_nil] at this
      by_cases hgs : gs = []
      · rw [hgs, List.intercalate_singleton]
        have := cutFrom_append before [] hg []
        rw [List.append_nil] at this
        rw [this]
        rfl
      · have hP : P (before ++ g) := by
          have := hcut [] g gs rfl hgs
          rwa [List.flatMap_nil, List.append_nil] at this
        have hbefore (gs₁ : List (List α)) (p : List α) :
            before ++ (g :: gs₁).flatMap (· ++ [d]) ++ p =
              before ++ g ++ [d] ++ gs₁.flatMap (· ++ [d]) ++ p := by
          simp
        rw [intercalate_cons_of_ne_nil d g hgs, cutFrom_append before [] hg, cutFrom_of_pos hP,
          List.nil_append, ih hgs (before ++ g ++ [d])]
        · intro gs₁ g' gs₂ he p q hpq
          rw [← hbefore]
          exact hin (g :: gs₁) g' gs₂ (by rw [he]; rfl) p q hpq
        · intro gs₁ g' gs₂ he hne'
          rw [← hbefore]
          exact hcut (g :: gs₁) g' gs₂ (by rw [he]; rfl) hne'

theorem cutAt_intercalate {gs : List (List α)} (hne : gs ≠ [])
    (hin : ∀ gs₁ g gs₂, gs = gs₁ ++ g :: gs₂ → ∀ p q, g = p ++ d :: q →
      ¬ P (gs₁.flatMap (· ++ [d]) ++ p))
    (hcut : ∀ gs₁ g gs₂, gs = gs₁ ++ g :: gs₂ → gs₂ ≠ [] →
      P (gs₁.flatMap (· ++ [d]) ++ g)) : cutAt d P ([d].intercalate gs) = gs :=
  cutFrom_intercalate hne [] hin hcut

end Cuts

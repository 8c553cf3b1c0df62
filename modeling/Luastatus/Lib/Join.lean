import Mathlib.Data.List.Basic

/-!
# Joining texts

Two loops join texts with a separator.  One remembers whether something has been written
(`joinFirst`), the other looks whether the buffer is empty (`joinOnto`).  On non-empty texts both
compute `List.intercalate`; `joinNonempty` leaves the empty ones out.
-/

namespace Join

variable {α : Type*}

/-- The non-empty ones of some texts, joined. -/
def joinNonempty (sep : List α) (l : List (List α)) : List α :=
  sep.intercalate (l.filter (· ≠ []))

/-- The separator goes behind a buffer that is not empty. -/
def appendSep (sep buf : List α) : List α := if buf = [] then [] else buf ++ sep

/-- Append texts to a buffer, with the separator wherever the buffer is not empty. -/
def joinOnto (sep buf : List α) : List (List α) → List α
  | [] => buf
  | x :: xs => joinOnto sep (appendSep sep buf ++ x) xs

/-- Append the non-empty ones of some texts to a buffer, with the separator before all but the
first. -/
def joinFirst (sep : List α) (first : Bool) (buf : List α) : List (List α) → List α
  | [] => buf
  | x :: xs =>
      if x ≠ [] then joinFirst sep false ((if first then buf else buf ++ sep) ++ x) xs
      else joinFirst sep first buf xs

variable {sep buf x : List α} {l : List (List α)}

theorem intercalate_cons (sep x : List α) (l : List (List α)) :
    sep.intercalate (x :: l) = x ++ l.flatMap (sep ++ ·) := by
  induction l generalizing x with
  | nil => rw [List.intercalate_singleton, List.flatMap_nil, List.append_nil]
  | cons y ys ih =>
      rw [List.intercalate_cons_cons, ih, List.flatMap_cons, List.append_assoc, List.append_assoc]

@[simp] theorem joinNonempty_nil (sep : List α) : joinNonempty sep [] = [] := rfl

theorem joinNonempty_cons_nil (sep : List α) (l : List (List α)) :
    joinNonempty sep ([] :: l) = joinNonempty sep l := by
  rw [joinNonempty, List.filter_cons_of_neg (by simp), joinNonempty]

/-- What maps appended texts to appended texts maps joined texts to joined texts. -/
theorem map_intercalate {β : Type*} {f : List α → List β} (hf : ∀ a b, f (a ++ b) = f a ++ f b)
    (sep : List α) (l : List (List α)) :
    f (sep.intercalate l) = (f sep).intercalate (l.map f) := by
  have hnil : f [] = [] := List.self_eq_append_right.mp (hf [] [])
  cases l with
  | nil => exact hnil
  | cons x xs =>
      rw [intercalate_cons, hf, List.map_cons, intercalate_cons]
      refine congrArg (f x ++ ·) ?_
      induction xs with
      | nil => exact hnil
      | cons y ys ih => rw [List.flatMap_cons, hf, hf, ih, List.map_cons, List.flatMap_cons]

theorem mem_intercalate {b : α} (h : b ∈ sep.intercalate l) : b ∈ sep ∨ ∃ x ∈ l, b ∈ x := by
  cases l with
  | nil => cases h
  | cons y ys =>
      rw [intercalate_cons] at h
      rcases List.mem_append.mp h with h | h
      · exact .inr ⟨y, List.mem_cons_self, h⟩
      · obtain ⟨x, hx, h⟩ := List.mem_flatMap.mp h
        rcases List.mem_append.mp h with h | h
        · exact .inl h
        · exact .inr ⟨x, List.mem_cons_of_mem y hx, h⟩

theorem intercalate_ne_nil (hne : l ≠ []) (h : ∀ x ∈ l, x ≠ []) : sep.intercalate l ≠ [] := by
  obtain ⟨x, xs, rfl⟩ := List.exists_cons_of_ne_nil hne
  rw [intercalate_cons]
  exact List.append_ne_nil_of_left_ne_nil (h x List.mem_cons_self) _

/-- A text that is not empty is followed by the separator if anything comes behind it. -/
theorem joinNonempty_cons_of_ne_nil (hx : x ≠ []) : joinNonempty sep (x :: l) =
    if joinNonempty sep l = [] then x else x ++ sep ++ joinNonempty sep l := by
  rw [joinNonempty, List.filter_cons_of_pos (by simpa using hx), joinNonempty]
  by_cases hl : l.filter (· ≠ []) = []
  · rw [hl, List.intercalate_nil, if_pos rfl, List.intercalate_singleton]
  · have : sep.intercalate (l.filter (· ≠ [])) ≠ [] :=
      intercalate_ne_nil hl fun y hy => by simpa using (List.mem_filter.mp hy).2
    rw [if_neg this, List.intercalate_cons_of_ne_nil hl]

/-! ## The loop that looks at the buffer -/

theorem joinOnto_of_ne_nil (h : buf ≠ []) : joinOnto sep buf l = buf ++ l.flatMap (sep ++ ·) := by
  induction l generalizing buf with
  | nil => rw [joinOnto, List.flatMap_nil, List.append_nil]
  | cons x xs ih =>
      have hne : appendSep sep buf ++ x ≠ [] := by simp [appendSep, h]
      rw [joinOnto, ih hne, appendSep, if_neg h, List.flatMap_cons]
      simp only [List.append_assoc]

theorem joinOnto_nil (h : ∀ x ∈ l, x ≠ []) : joinOnto sep [] l = sep.intercalate l := by
  cases l with
  | nil => rfl
  | cons x xs =>
      have hx : x ≠ [] := h x List.mem_cons_self
      rw [joinOnto, appendSep, if_pos rfl, List.nil_append, joinOnto_of_ne_nil hx,
        intercalate_cons]

/-! ## The loop with a flag -/

theorem joinFirst_false (sep buf : List α) (l : List (List α)) :
    joinFirst sep false buf l = buf ++ (l.filter (· ≠ [])).flatMap (sep ++ ·) := by
  induction l generalizing buf with
  | nil => simp [joinFirst]
  | cons x xs ih =>
      by_cases hx : x = []
      · simp [joinFirst, hx, ih]
      · simp [joinFirst, hx, ih]

/-- The loop writes the texts that are not empty, joined. -/
theorem joinFirst_true (sep buf : List α) (l : List (List α)) :
    joinFirst sep true buf l = buf ++ joinNonempty sep l := by
  induction l with
  | nil => simp [joinFirst]
  | cons x xs ih =>
      by_cases hx : x = []
      · rw [joinFirst, if_neg (not_not.mpr hx), ih, hx, joinNonempty_cons_nil]
      · rw [joinFirst, if_pos hx, if_pos rfl, joinFirst_false, joinNonempty,
          List.filter_cons_of_pos (by simpa using hx), intercalate_cons, List.append_assoc]

end Join

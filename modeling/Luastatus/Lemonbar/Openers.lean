import Luastatus.Lib.Bytes

/-!
# Openers of action tags

lemonbar reads a text from left to right.  `%%` is a percent sign.  `%{A`, followed by bytes other
than `}` and `:`, followed by `:`, is an *opener*: what follows it is the command of a clickable
area.

The scan works on any list whose elements have a byte (`key`), so that a text and an annotated text
are scanned by the same function.  `openers` lists the colon and the rest of the list for every
opener.  `scan_induction` is the induction that follows the scan; `openers` has one equation for
each of its cases.
-/

namespace Luastatus.Lemonbar

open Text (Byte Bytes ch)

variable {α β : Type}

/-- The end of an opener that has begun: the first colon, if no closing brace stands before it, and
what follows it. -/
def headEnd (key : α → Byte) : List α → Option (α × List α)
  | [] => none
  | x :: xs =>
      if key x = ch ':' then some (x, xs) else if key x = ch '}' then none else headEnd key xs

/-- What follows a percent sign makes it the beginning of an opener. -/
def StartsTag (key : α → Byte) (l : List α) : Prop := (l.take 2).map key = [ch '{', ch 'A']

instance (key : α → Byte) (l : List α) : Decidable (StartsTag key l) :=
  inferInstanceAs (Decidable (_ = _))

/-- The openers of a list, each with its colon and what follows it. -/
def openers (key : α → Byte) : List α → List (α × List α)
  | [] => []
  | [_] => []
  | x :: y :: zs =>
      if key x = ch '%' then
        if key y = ch '%' then openers key zs
        else if StartsTag key (y :: zs) then
          (headEnd key (zs.drop 1)).toList ++ openers key (y :: zs)
        else openers key (y :: zs)
      else openers key (y :: zs)

/-- What follows the openers of a text. -/
def openerTails (s : Bytes) : List Bytes := (openers id s).map Prod.snd

/-! ## The cases of the scan -/

section Scan

variable {key : α → Byte}

theorem openers_cons_cons (x y : α) (zs : List α) :
    openers key (x :: y :: zs) =
      if key x = ch '%' then
        if key y = ch '%' then openers key zs
        else if StartsTag key (y :: zs) then
          (headEnd key (zs.drop 1)).toList ++ openers key (y :: zs)
        else openers key (y :: zs)
      else openers key (y :: zs) := rfl

theorem openers_cons_of_ne {x : α} (hx : key x ≠ ch '%') (l : List α) :
    openers key (x :: l) = openers key l := by
  cases l with
  | nil => rfl
  | cons y zs => rw [openers_cons_cons, if_neg hx]

theorem openers_percent {x y : α} (hx : key x = ch '%') (hy : key y = ch '%') (l : List α) :
    openers key (x :: y :: l) = openers key l := by
  rw [openers_cons_cons, if_pos hx, if_pos hy]

theorem StartsTag.exists_cons {l : List α} (h : StartsTag key l) :
    ∃ y z zs, l = y :: z :: zs ∧ key y = ch '{' ∧ key z = ch 'A' := by
  match l with
  | [] => simp [StartsTag] at h
  | [y] => simp [StartsTag] at h
  | y :: z :: zs =>
      simp only [StartsTag, List.take_succ_cons, List.take_zero, List.map_cons, List.map_nil,
        List.cons.injEq, and_true] at h
      exact ⟨y, z, zs, rfl, h⟩

theorem openers_tag {x : α} (hx : key x = ch '%') {l : List α} (h : StartsTag key l) :
    openers key (x :: l) = (headEnd key (l.drop 2)).toList ++ openers key l := by
  obtain ⟨y, z, zs, rfl, hy, _⟩ := h.exists_cons
  have hne : key y ≠ ch '%' := by rw [hy]; decide
  rw [openers_cons_cons, if_pos hx, if_neg hne, if_pos h]
  rfl

theorem openers_lone {x : α} (hx : key x = ch '%') {l : List α} (h : ¬ StartsTag key l)
    (hy : l.head?.map key ≠ some (ch '%')) : openers key (x :: l) = openers key l := by
  cases l with
  | nil => rfl
  | cons y zs =>
      have hne : key y ≠ ch '%' := fun he => hy (by rw [List.head?_cons, Option.map_some, he])
      rw [openers_cons_cons, if_pos hx, if_neg hne, if_neg h]

/-- Induction along the scan. -/
theorem scan_induction (key : α → Byte) {P : List α → Prop} (nil : P [])
    (percent : ∀ x y l, key x = ch '%' → key y = ch '%' → P l → P (x :: y :: l))
    (tag : ∀ x l, key x = ch '%' → StartsTag key l → P l → P (x :: l))
    (lone : ∀ x l, key x = ch '%' → ¬ StartsTag key l → l.head?.map key ≠ some (ch '%') → P l →
      P (x :: l))
    (other : ∀ x l, key x ≠ ch '%' → P l → P (x :: l)) : ∀ l, P l
  | [] => nil
  | x :: l => by
      have ih := scan_induction key nil percent tag lone other l
      by_cases hx : key x = ch '%'
      · by_cases ht : StartsTag key l
        · exact tag x l hx ht ih
        · by_cases hy : l.head?.map key = some (ch '%')
          · cases l with
            | nil => cases hy
            | cons y zs =>
                exact percent x y zs hx (Option.some.inj hy)
                  (scan_induction key nil percent tag lone other zs)
          · exact lone x l hx ht hy ih
      · exact other x l hx ih

/-- Induction along the scan of a text. -/
theorem text_induction {P : Bytes → Prop} (nil : P [])
    (percent : ∀ cs, P cs → P (ch '%' :: ch '%' :: cs))
    (tag : ∀ cs, StartsTag id cs → P cs → P (ch '%' :: cs))
    (lone : ∀ cs, ¬ StartsTag id cs → cs.head? ≠ some (ch '%') → P cs → P (ch '%' :: cs))
    (other : ∀ c cs, c ≠ ch '%' → P cs → P (c :: cs)) (s : Bytes) : P s := by
  induction s using scan_induction id with
  | nil => exact nil
  | percent c d cs hc hd ih =>
      rw [show c = ch '%' from hc, show d = ch '%' from hd]
      exact percent cs ih
  | tag c cs hc ht ih =>
      rw [show c = ch '%' from hc]
      exact tag cs ht ih
  | lone c cs hc ht hd ih =>
      rw [show c = ch '%' from hc]
      rw [Option.map_id] at hd
      exact lone cs ht hd ih
  | other c cs hc ih => exact other c cs hc ih

/-- A list without a percent sign is passed over. -/
theorem openers_append_of_not_mem {p : List α} (h : ∀ x ∈ p, key x ≠ ch '%') (l : List α) :
    openers key (p ++ l) = openers key l := by
  induction p with
  | nil => rfl
  | cons x p ih =>
      rw [List.cons_append, openers_cons_of_ne (h x List.mem_cons_self),
        ih fun y hy => h y (List.mem_cons_of_mem x hy)]

/-- The end of an opener is a colon inside the list. -/
theorem headEnd_suffix {l : List α} {m : α} {r : List α} (h : headEnd key l = some (m, r)) :
    m :: r <:+ l ∧ key m = ch ':' := by
  induction l with
  | nil => cases h
  | cons x xs ih =>
      rw [headEnd] at h
      split at h
      · cases h
        exact ⟨List.suffix_refl _, ‹_›⟩
      · split at h
        · cases h
        · obtain ⟨hs, hm⟩ := ih h
          exact ⟨hs.trans (List.suffix_cons x xs), hm⟩

/-- An opener ends with a colon inside the list. -/
theorem openers_suffix {l : List α} {o : α × List α} (h : o ∈ openers key l) :
    o.1 :: o.2 <:+ l ∧ key o.1 = ch ':' := by
  induction l using scan_induction key with
  | nil => cases h
  | percent x y l hx hy ih =>
      rw [openers_percent hx hy] at h
      obtain ⟨hs, hm⟩ := ih h
      exact ⟨hs.trans ((List.suffix_cons y l).trans (List.suffix_cons x _)), hm⟩
  | tag x l hx ht ih =>
      rw [openers_tag hx ht] at h
      cases List.mem_append.mp h with
      | inl h =>
          obtain ⟨hs, hm⟩ := headEnd_suffix (Option.mem_toList.mp h)
          exact ⟨hs.trans ((List.drop_suffix 2 l).trans (List.suffix_cons x l)), hm⟩
      | inr h =>
          obtain ⟨hs, hm⟩ := ih h
          exact ⟨hs.trans (List.suffix_cons x l), hm⟩
  | lone x l hx ht hy ih =>
      rw [openers_lone hx ht hy] at h
      obtain ⟨hs, hm⟩ := ih h
      exact ⟨hs.trans (List.suffix_cons x l), hm⟩
  | other x l hx ih =>
      rw [openers_cons_of_ne hx] at h
      obtain ⟨hs, hm⟩ := ih h
      exact ⟨hs.trans (List.suffix_cons x l), hm⟩

end Scan

/-! ## Scanning an annotated text -/

theorem headEnd_map (key : β → Byte) (f : α → β) (l : List α) :
    headEnd key (l.map f) = (headEnd (key ∘ f) l).map (Prod.map f (List.map f)) := by
  induction l with
  | nil => rfl
  | cons x xs ih =>
      rw [List.map_cons, headEnd, headEnd, ih]
      simp only [Function.comp_apply]
      split
      · rfl
      · split <;> rfl

theorem startsTag_map (key : β → Byte) (f : α → β) (l : List α) :
    StartsTag key (l.map f) ↔ StartsTag (key ∘ f) l := by
  rw [StartsTag, StartsTag, ← List.map_take, List.map_map]

/-- The scan sees the bytes only. -/
theorem openers_map (key : β → Byte) (f : α → β) (l : List α) :
    openers key (l.map f) = (openers (key ∘ f) l).map (Prod.map f (List.map f)) := by
  induction l using scan_induction (key ∘ f) with
  | nil => rfl
  | percent x y l hx hy ih =>
      have hx' : key (f x) = ch '%' := hx
      have hy' : key (f y) = ch '%' := hy
      rw [List.map_cons, List.map_cons, openers_percent hx' hy', openers_percent hx hy, ih]
  | tag x l hx ht ih =>
      have hx' : key (f x) = ch '%' := hx
      rw [List.map_cons, openers_tag hx' ((startsTag_map key f l).mpr ht), openers_tag hx ht,
        List.map_append, ih, ← List.map_drop, headEnd_map]
      cases headEnd (key ∘ f) (l.drop 2) <;> rfl
  | lone x l hx ht hy ih =>
      have hx' : key (f x) = ch '%' := hx
      have ht' : ¬ StartsTag key (l.map f) := fun h => ht ((startsTag_map key f l).mp h)
      have hy' : (l.map f).head?.map key ≠ some (ch '%') := by
        rw [List.head?_map, Option.map_map]
        exact hy
      rw [List.map_cons, openers_lone hx' ht' hy', openers_lone hx ht hy, ih]
  | other x l hx ih =>
      have hx' : key (f x) ≠ ch '%' := hx
      rw [List.map_cons, openers_cons_of_ne hx', openers_cons_of_ne hx, ih]

end Luastatus.Lemonbar

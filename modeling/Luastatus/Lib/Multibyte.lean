import Mathlib.Data.List.Basic

/-!
# Multibyte characters

A decoder reads a character at the beginning of a string, or says that there is none.  It keeps no
state, and it is prefix-stable: whether some bytes are a character does not depend on what follows.
A character has a width, unless it is not to be printed.

A string is a `Chain` if it consists of characters with a width.  `widthOf` is the width of a chain,
`fit` measures the longest chain at the beginning of a string that is not wider than a limit, and
`clean` replaces what keeps a string from being a chain.  All three go from the left to the right,
and are related to chains by `induction`.
-/

namespace Multibyte

/-- A decoder of characters, and their widths. -/
structure Decoder (α W : Type*) where
  /-- The length of the character at the beginning, and the character. -/
  decode : List α → Option (Nat × W)
  /-- The width of a character, nothing if it is not to be printed. -/
  width : W → Option Nat
  pos : ∀ {s n c}, decode s = some (n, c) → 0 < n
  le : ∀ {s n c}, decode s = some (n, c) → n ≤ s.length
  stable : ∀ {u r c}, decode (u ++ r) = some (u.length, c) → ∀ s,
    decode (u ++ s) = some (u.length, c)

/-- What a string begins with. -/
inductive Head where
  /-- A character that takes `n` places and is `w` wide. -/
  | good (n w : Nat)
  /-- A character that takes `n` places and is not to be printed. -/
  | unprintable (n : Nat)
  | undecodable

namespace Decoder

variable {α W : Type*} (d : Decoder α W)

/-- What a string begins with. -/
def head (s : List α) : Head :=
  match d.decode s with
  | none => .undecodable
  | some (n, c) =>
      match d.width c with
      | some w => .good n w
      | none => .unprintable n

/-- The string is one character, of the width `w`. -/
def IsChar (u : List α) (w : Nat) : Prop := d.head u = .good u.length w

/-- The string consists of characters, of the width `w` together. -/
inductive Chain : List α → Nat → Prop where
  | nil : Chain [] 0
  | cons {u s : List α} {w w' : Nat} : d.IsChar u w → Chain s w' → Chain (u ++ s) (w + w')

/-- The string does not begin with a character that has a width. -/
def Bad (s : List α) : Prop := ∀ n w, d.head s ≠ .good n w

section Head

variable {d} {s u : List α} {n w : Nat}

theorem head_good (h : d.head s = .good n w) :
    ∃ c, d.decode s = some (n, c) ∧ d.width c = some w := by
  rw [head] at h
  split at h
  · cases h
  · rename_i n' c hdecode
    split at h
    · rename_i w' hwidth
      cases h
      exact ⟨c, hdecode, hwidth⟩
    · cases h

theorem head_unprintable (h : d.head s = .unprintable n) :
    ∃ c, d.decode s = some (n, c) ∧ d.width c = none := by
  rw [head] at h
  split at h
  · cases h
  · rename_i n' c hdecode
    split at h
    · cases h
    · rename_i hwidth
      cases h
      exact ⟨c, hdecode, hwidth⟩

theorem head_undecodable (h : d.head s = .undecodable) : d.decode s = none := by
  rw [head] at h
  split at h
  · assumption
  · split at h
    · cases h
    · cases h

theorem head_pos (h : d.head s = .good n w) : 0 < n := by
  obtain ⟨c, hdecode, -⟩ := head_good h
  exact d.pos hdecode

theorem head_le (h : d.head s = .good n w) : n ≤ s.length := by
  obtain ⟨c, hdecode, -⟩ := head_good h
  exact d.le hdecode

theorem unprintable_pos (h : d.head s = .unprintable n) : 0 < n := by
  obtain ⟨c, hdecode, -⟩ := head_unprintable h
  exact d.pos hdecode

theorem unprintable_le (h : d.head s = .unprintable n) : n ≤ s.length := by
  obtain ⟨c, hdecode, -⟩ := head_unprintable h
  exact d.le hdecode

theorem head_of_decode {c : W} (hdecode : d.decode s = some (n, c)) (hwidth : d.width c = some w) :
    d.head s = .good n w := by
  rw [head, hdecode]
  simp only [hwidth]

/-- Whether the first bytes are a character does not depend on what follows. -/
theorem head_stable {r : List α} (h : d.head (u ++ r) = .good u.length w) (s : List α) :
    d.head (u ++ s) = .good u.length w := by
  obtain ⟨c, hdecode, hwidth⟩ := head_good h
  exact head_of_decode (d.stable hdecode s) hwidth

theorem IsChar.head_append (h : d.IsChar u w) (s : List α) :
    d.head (u ++ s) = .good u.length w :=
  head_stable (r := []) (by rwa [List.append_nil]) s

theorem IsChar.ne_nil (h : d.IsChar u w) : u ≠ [] := List.ne_nil_of_length_pos (head_pos h)

/-- A string with a good beginning is a character and a rest. -/
theorem exists_isChar (h : d.head s = .good n w) :
    d.IsChar (s.take n) w ∧ (s.take n).length = n := by
  have hlength : (s.take n).length = n := List.length_take_of_le (head_le h)
  have hhead : d.head (s.take n ++ s.drop n) = .good (s.take n).length w := by
    rwa [List.take_append_drop, hlength]
  refine ⟨?_, hlength⟩
  have hstable := head_stable hhead []
  rwa [List.append_nil] at hstable

theorem bad_of_unprintable (h : d.head s = .unprintable n) : d.Bad s := by
  intro n' w' hgood
  cases hgood.symm.trans h

theorem bad_of_undecodable (h : d.head s = .undecodable) : d.Bad s := by
  intro n' w' hgood
  cases hgood.symm.trans h

theorem not_bad_append (h : d.IsChar u w) (s : List α) : ¬ d.Bad (u ++ s) := fun hbad =>
  hbad _ _ (h.head_append s)

/-- A string is empty, or bad, or begins with a character. -/
theorem induction {P : List α → Prop} (nil : P []) (bad : ∀ s, s ≠ [] → d.Bad s → P s)
    (char : ∀ u s w, d.IsChar u w → P s → P (u ++ s)) (s : List α) : P s := by
  induction hn : s.length using Nat.strongRecOn generalizing s with
  | ind n ih =>
      rcases eq_or_ne s [] with rfl | hne
      · exact nil
      · cases hhead : d.head s with
        | undecodable => exact bad s hne (bad_of_undecodable hhead)
        | unprintable m => exact bad s hne (bad_of_unprintable hhead)
        | good m w =>
            obtain ⟨hchar, hlength⟩ := exists_isChar hhead
            have hpos := head_pos hhead
            have hle := head_le hhead
            have hrest := ih (s.drop m).length (by rw [List.length_drop]; omega) _ rfl
            have := char _ _ w hchar hrest
            rwa [List.take_append_drop] at this

end Head

/-! ## Chains -/

section Chain

variable {d} {s t u p q r : List α} {w w' L n : Nat}

theorem IsChar.chain (h : d.IsChar u w) : d.Chain u w := by
  have := Chain.cons h .nil
  rwa [List.append_nil] at this

theorem Chain.append (h : d.Chain s w) (h' : d.Chain t w') : d.Chain (s ++ t) (w + w') := by
  induction h with
  | nil => rwa [List.nil_append, Nat.zero_add]
  | cons hchar _ ih =>
      rw [List.append_assoc, Nat.add_assoc]
      exact .cons hchar ih

/-- The first character of a string is determined. -/
theorem IsChar.eq_of_append {u' s' : List α} (h : d.IsChar u w) (h' : d.IsChar u' w')
    (heq : u ++ s = u' ++ s') : u = u' ∧ s = s' ∧ w = w' := by
  have hhead := h.head_append s
  rw [heq, h'.head_append s'] at hhead
  injection hhead with hlength hwidth
  obtain ⟨hu, hs⟩ := List.append_inj heq hlength.symm
  exact ⟨hu, hs, hwidth.symm⟩

theorem chain_append_iff (h : d.IsChar u w) :
    d.Chain (u ++ s) n ↔ ∃ m, d.Chain s m ∧ n = w + m := by
  constructor
  · intro hchain
    generalize heq : u ++ s = t at hchain
    cases hchain with
    | nil => exact absurd (List.append_eq_nil_iff.mp heq).1 h.ne_nil
    | cons hchar hrest =>
        obtain ⟨-, rfl, rfl⟩ := h.eq_of_append hchar heq
        exact ⟨_, hrest, rfl⟩
  · rintro ⟨m, hrest, rfl⟩
    exact .cons h hrest

theorem chain_nil_iff : d.Chain [] n ↔ n = 0 := by
  constructor
  · intro h
    generalize heq : ([] : List α) = t at h
    cases h with
    | nil => rfl
    | cons hchar hrest => exact absurd (List.append_eq_nil_iff.mp heq.symm).1 hchar.ne_nil
  · rintro rfl
    exact .nil

theorem not_chain_of_bad (hne : s ≠ []) (hbad : d.Bad s) : ¬ d.Chain s n := by
  intro h
  cases h with
  | nil => exact hne rfl
  | cons hchar hrest => exact not_bad_append hchar _ hbad

/-- A chain at the beginning of a string that begins with a character begins with it. -/
theorem chain_prefix_append (h : d.IsChar u w) (hq : d.Chain q n) (hpre : q <+: u ++ s) :
    q = [] ∧ n = 0 ∨ ∃ t m, q = u ++ t ∧ t <+: s ∧ d.Chain t m ∧ n = w + m := by
  cases hq with
  | nil => exact .inl ⟨rfl, rfl⟩
  | cons hchar hrest =>
      obtain ⟨r, hr⟩ := hpre
      rw [List.append_assoc] at hr
      obtain ⟨rfl, hs, rfl⟩ := hchar.eq_of_append h hr
      exact .inr ⟨_, _, rfl, ⟨r, hs⟩, hrest, rfl⟩

end Chain

/-! ## From the left to the right -/

/-- The width of a chain. -/
def widthOf (s : List α) : Option Nat :=
  if s = [] then some 0
  else
    match _h : d.head s with
    | .good n w => (widthOf (s.drop n)).map (w + ·)
    | _ => none
termination_by s.length
decreasing_by
  have := head_pos _h
  have := head_le _h
  rw [List.length_drop]
  omega

/-- The length and the width of the longest chain at the beginning that is at most `L` wide, unless
there is something bad before a character that exceeds it. -/
def fit (L : Nat) (s : List α) : Option (Nat × Nat) :=
  if s = [] then some (0, 0)
  else
    match _h : d.head s with
    | .good n w =>
        if w ≤ L then (fit (L - w) (s.drop n)).map fun (m, w') => (n + m, w + w') else some (0, 0)
    | _ => none
termination_by s.length
decreasing_by
  have := head_pos _h
  have := head_le _h
  rw [List.length_drop]
  omega

/-- Characters with a width stay, other ones are replaced, and so are single places that are not
decodable. -/
def clean (bad s : List α) : List α :=
  if s = [] then []
  else
    match _h : d.head s with
    | .good n _ => s.take n ++ clean bad (s.drop n)
    | .unprintable n => bad ++ clean bad (s.drop n)
    | .undecodable => bad ++ clean bad (s.drop 1)
termination_by s.length
decreasing_by
  · have := head_pos _h
    have := head_le _h
    rw [List.length_drop]
    omega
  · have := unprintable_pos _h
    have := List.length_pos_iff.mpr ‹_›
    rw [List.length_drop]
    omega
  · have := List.length_pos_iff.mpr ‹_›
    rw [List.length_drop]
    omega

section Equations

variable {d} {s u bad : List α} {w L n : Nat}

@[simp] theorem widthOf_nil : d.widthOf [] = some 0 := by rw [widthOf, if_pos rfl]

theorem widthOf_of_ne (hne : s ≠ []) :
    d.widthOf s =
      match d.head s with
      | .good n w => (d.widthOf (s.drop n)).map (w + ·)
      | _ => none := by
  rw [widthOf, if_neg hne]
  split
  · rename_i hhead
    rw [hhead]
  · rename_i hno
    cases hhead : d.head s with
    | good n w => exact absurd hhead (hno n w)
    | _ => rfl

theorem widthOf_bad (hne : s ≠ []) (hbad : d.Bad s) : d.widthOf s = none := by
  rw [widthOf_of_ne hne]
  cases hhead : d.head s with
  | good n w => exact absurd hhead (hbad n w)
  | _ => rfl

theorem widthOf_append (h : d.IsChar u w) (s : List α) :
    d.widthOf (u ++ s) = (d.widthOf s).map (w + ·) := by
  rw [widthOf_of_ne (by simp [h.ne_nil]), h.head_append s]
  dsimp only
  rw [List.drop_left]

theorem widthOf_good (h : d.head s = .good n w) :
    d.widthOf s = (d.widthOf (s.drop n)).map (w + ·) := by
  have heq := widthOf_append (exists_isChar h).1 (s.drop n)
  rwa [List.take_append_drop] at heq

@[simp] theorem fit_nil : d.fit L [] = some (0, 0) := by rw [fit, if_pos rfl]

theorem fit_of_ne (hne : s ≠ []) :
    d.fit L s =
      match d.head s with
      | .good n w =>
          if w ≤ L then (d.fit (L - w) (s.drop n)).map fun (m, w') => (n + m, w + w')
          else some (0, 0)
      | _ => none := by
  rw [fit, if_neg hne]
  split
  · rename_i hhead
    rw [hhead]
  · rename_i hno
    cases hhead : d.head s with
    | good n w => exact absurd hhead (hno n w)
    | _ => rfl

theorem fit_bad (hne : s ≠ []) (hbad : d.Bad s) : d.fit L s = none := by
  rw [fit_of_ne hne]
  cases hhead : d.head s with
  | good n w => exact absurd hhead (hbad n w)
  | _ => rfl

theorem fit_append (h : d.IsChar u w) (s : List α) :
    d.fit L (u ++ s) =
      if w ≤ L then (d.fit (L - w) s).map fun (m, w') => (u.length + m, w + w')
      else some (0, 0) := by
  rw [fit_of_ne (by simp [h.ne_nil]), h.head_append s]
  dsimp only
  rw [List.drop_left]

theorem fit_good (h : d.head s = .good n w) :
    d.fit L s =
      if w ≤ L then (d.fit (L - w) (s.drop n)).map fun (m, w') => (n + m, w + w')
      else some (0, 0) := by
  obtain ⟨hchar, hlength⟩ := exists_isChar h
  have heq := fit_append (L := L) hchar (s.drop n)
  rwa [List.take_append_drop, hlength] at heq

@[simp] theorem clean_nil : d.clean bad [] = [] := by rw [clean, if_pos rfl]

theorem clean_of_ne (hne : s ≠ []) :
    d.clean bad s =
      match d.head s with
      | .good n _ => s.take n ++ d.clean bad (s.drop n)
      | .unprintable n => bad ++ d.clean bad (s.drop n)
      | .undecodable => bad ++ d.clean bad (s.drop 1) := by
  rw [clean, if_neg hne]
  split <;> rename_i hhead <;> rw [hhead]

theorem clean_append (h : d.IsChar u w) (bad s : List α) :
    d.clean bad (u ++ s) = u ++ d.clean bad s := by
  rw [clean_of_ne (by simp [h.ne_nil]), h.head_append s]
  dsimp only
  rw [List.drop_left, List.take_left]

theorem clean_good (h : d.head s = .good n w) :
    d.clean bad s = s.take n ++ d.clean bad (s.drop n) := by
  have heq := clean_append (exists_isChar h).1 bad (s.drop n)
  rwa [List.take_append_drop] at heq

theorem clean_unprintable (hne : s ≠ []) (h : d.head s = .unprintable n) :
    d.clean bad s = bad ++ d.clean bad (s.drop n) := by
  rw [clean_of_ne hne, h]

theorem clean_undecodable (hne : s ≠ []) (h : d.head s = .undecodable) :
    d.clean bad s = bad ++ d.clean bad (s.drop 1) := by
  rw [clean_of_ne hne, h]

end Equations

/-! ## What they compute -/

section Computed

variable {d} {s u p q bad : List α} {w W' L n : Nat}

/-- A string has a width if and only if it is a chain. -/
theorem widthOf_eq_some : d.widthOf s = some n ↔ d.Chain s n := by
  induction s using d.induction generalizing n with
  | nil => rw [widthOf_nil, chain_nil_iff, Option.some.injEq, eq_comm]
  | bad s hne hbad =>
      rw [widthOf_bad hne hbad]
      exact iff_of_false nofun (not_chain_of_bad hne hbad)
  | char u s w hchar ih =>
      rw [widthOf_append hchar, chain_append_iff hchar, Option.map_eq_some_iff]
      exact exists_congr fun m => and_congr ih eq_comm

theorem Chain.eq (h : d.Chain s n) (h' : d.Chain s w) : n = w :=
  Option.some.inj ((widthOf_eq_some.mpr h).symm.trans (widthOf_eq_some.mpr h'))

/-- Nothing fits if and only if something bad follows a chain that fits. -/
theorem fit_eq_none :
    d.fit L s = none ↔
      ∃ p r w, s = p ++ r ∧ d.Chain p w ∧ w ≤ L ∧ r ≠ [] ∧ d.Bad r := by
  induction s using d.induction generalizing L with
  | nil =>
      rw [fit_nil]
      refine iff_of_false nofun ?_
      rintro ⟨p, r, w, hs, -, -, hr, -⟩
      exact hr (List.append_eq_nil_iff.mp hs.symm).2
  | bad s hne hbad =>
      rw [fit_bad hne hbad]
      exact iff_of_true rfl ⟨[], s, 0, rfl, .nil, Nat.zero_le L, hne, hbad⟩
  | char u s w hchar ih =>
      rw [fit_append hchar]
      constructor
      · intro h
        split at h
        · rename_i hle
          obtain ⟨p, r, w', rfl, hp, hle', hr, hbad⟩ := ih.mp (Option.map_eq_none_iff.mp h)
          exact ⟨u ++ p, r, w + w', by rw [List.append_assoc], .cons hchar hp, by omega, hr, hbad⟩
        · cases h
      · rintro ⟨p, r, w', hs, hp, hle, hr, hbad⟩
        rcases chain_prefix_append hchar hp ⟨r, hs.symm⟩ with ⟨rfl, -⟩ | ⟨t, m, rfl, -, ht, rfl⟩
        · rw [List.nil_append] at hs
          exact absurd (hs ▸ hbad) (not_bad_append hchar s)
        · rw [List.append_assoc] at hs
          have hm : m ≤ L - w := by omega
          have hrest := ih.mpr ⟨t, r, m, List.append_cancel_left hs, ht, hm, hr, hbad⟩
          rw [if_pos (by omega), hrest]
          rfl

/-- What fits is the longest chain at the beginning that is not wider than the limit. -/
theorem fit_eq_some (h : d.fit L s = some (n, w)) :
    n ≤ s.length ∧ d.Chain (s.take n) w ∧ w ≤ L ∧
      ∀ q w', q <+: s → d.Chain q w' → w' ≤ L → q.length ≤ n := by
  induction s using d.induction generalizing L n w with
  | nil =>
      rw [fit_nil] at h
      cases h
      refine ⟨Nat.le_refl _, .nil, Nat.zero_le L, fun q w' hq _ _ => ?_⟩
      exact hq.length_le
  | bad s hne hbad =>
      rw [fit_bad hne hbad] at h
      cases h
  | char u s v hchar ih =>
      rw [fit_append hchar] at h
      split at h
      · rename_i hle
        obtain ⟨⟨m, w'⟩, hfit, heq⟩ := Option.map_eq_some_iff.mp h
        cases heq
        obtain ⟨hlength, hchain, hw, hlongest⟩ := ih hfit
        refine ⟨by rw [List.length_append]; omega, ?_, by omega, ?_⟩
        · rw [List.take_length_add_append]
          exact .cons hchar hchain
        · intro q w'' hq hqchain hqw
          rcases chain_prefix_append hchar hqchain hq with ⟨rfl, -⟩ | ⟨t, k, rfl, ht, htchain, rfl⟩
          · exact Nat.zero_le _
          · have := hlongest t k ht htchain (by omega)
            rw [List.length_append]
            omega
      · rename_i hgt
        cases h
        refine ⟨Nat.zero_le _, .nil, Nat.zero_le L, ?_⟩
        intro q w'' hq hqchain hqw
        rcases chain_prefix_append hchar hqchain hq with ⟨rfl, -⟩ | ⟨t, k, rfl, -, -, rfl⟩
        · exact Nat.le_refl _
        · omega

/-- A chain that is not wider than the limit fits. -/
theorem fit_of_chain (h : d.Chain s w) (hle : w ≤ L) : d.fit L s = some (s.length, w) := by
  induction h generalizing L with
  | nil => exact fit_nil
  | cons hchar _ ih =>
      rw [fit_append hchar, if_pos (by omega), ih (by omega), List.length_append]
      rfl

/-- A chain fits as a whole if and only if it is not wider than the limit. -/
theorem fit_all_iff (h : d.Chain s n) : (∃ w, d.fit L s = some (s.length, w)) ↔ n ≤ L := by
  constructor
  · rintro ⟨w, hw⟩
    obtain ⟨-, hchain, hle, -⟩ := fit_eq_some hw
    rw [List.take_length] at hchain
    rwa [h.eq hchain]
  · exact fun hle => ⟨n, fit_of_chain h hle⟩

/-- A chain needs no cleaning. -/
theorem clean_of_chain (h : d.Chain s w) : d.clean bad s = s := by
  induction h with
  | nil => exact clean_nil
  | cons hchar _ ih => rw [clean_append hchar, ih]

/-- A clean string is a chain, if what replaces the rest is one. -/
theorem chain_clean (hbad : d.Chain bad w) (s : List α) : ∃ n, d.Chain (d.clean bad s) n := by
  induction hn : s.length using Nat.strongRecOn generalizing s with
  | ind n ih =>
      rcases eq_or_ne s [] with rfl | hne
      · exact ⟨0, by rw [clean_nil]; exact .nil⟩
      · have hpos := List.length_pos_iff.mpr hne
        cases hhead : d.head s with
        | undecodable =>
            obtain ⟨m, hm⟩ := ih (s.drop 1).length (by rw [List.length_drop]; omega) _ rfl
            rw [clean_undecodable hne hhead]
            exact ⟨_, hbad.append hm⟩
        | unprintable k =>
            have hk := unprintable_pos hhead
            obtain ⟨m, hm⟩ := ih (s.drop k).length (by rw [List.length_drop]; omega) _ rfl
            rw [clean_unprintable hne hhead]
            exact ⟨_, hbad.append hm⟩
        | good k v =>
            have hk := head_pos hhead
            obtain ⟨hchar, -⟩ := exists_isChar hhead
            obtain ⟨m, hm⟩ := ih (s.drop k).length (by rw [List.length_drop]; omega) _ rfl
            rw [← List.take_append_drop k s, clean_append hchar]
            exact ⟨_, .cons hchar hm⟩

end Computed

end Decoder

end Multibyte

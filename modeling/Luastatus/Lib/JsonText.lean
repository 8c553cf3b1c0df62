import Luastatus.Lib.Json
import Luastatus.Lib.Join

/-!
# JSON texts

`Text v t` says that `t` is a JSON text of the value `v`, without white space between its tokens.
A number of `v` is its own text.  `unescape` is the decoding of the inside of a string; it passes
bytes from 128 on through, and refuses an escaped surrogate.

`ItemsText` and `MembersText` are the insides of an array and of an object.  Texts of items that
are joined with commas are again one (`ItemsText.intercalate`, `ItemsText.joinNonempty`), and no
text has a control character (`Text.printable`).
-/

namespace Json

open Text (Byte Bytes ch lit)
open Join

/-! ## Strings -/

/-- The value of a hexadecimal digit. -/
def hexValue (b : Byte) : Option Nat :=
  if 48 ≤ b.toNat ∧ b.toNat ≤ 57 then some (b.toNat - 48)
  else if 65 ≤ b.toNat ∧ b.toNat ≤ 70 then some (b.toNat - 55)
  else if 97 ≤ b.toNat ∧ b.toNat ≤ 102 then some (b.toNat - 87)
  else none

/-- The number that four hexadecimal digits denote. -/
def hex4 (a b c d : Byte) : Option Nat := do
  let a ← hexValue a
  let b ← hexValue b
  let c ← hexValue c
  let d ← hexValue d
  return 4096 * a + 256 * b + 16 * c + d

/-- The UTF-8 encoding of a code point below 65536. -/
def utf8 (c : Nat) : Bytes :=
  if c < 0x80 then [UInt8.ofNat c]
  else if c < 0x800 then [UInt8.ofNat (0xC0 + c / 64), UInt8.ofNat (0x80 + c % 64)]
  else
    [UInt8.ofNat (0xE0 + c / 4096), UInt8.ofNat (0x80 + c / 64 % 64), UInt8.ofNat (0x80 + c % 64)]

/-- The byte that a backslash and a character other than `u` denote. -/
def simpleEscape (e : Byte) : Option Byte :=
  if e = ch '"' ∨ e = ch '\\' ∨ e = ch '/' then some e
  else if e = ch 'b' then some 8
  else if e = ch 'f' then some 12
  else if e = ch 'n' then some 10
  else if e = ch 'r' then some 13
  else if e = ch 't' then some 9
  else none

/-- The string that is written between two quotes. -/
def unescape : Bytes → Option Bytes
  | [] => some []
  | b :: t =>
      if b = ch '\\' then
        match t with
        | [] => none
        | e :: t =>
            if e = ch 'u' then
              match t with
              | h₁ :: h₂ :: h₃ :: h₄ :: t => do
                  let c ← hex4 h₁ h₂ h₃ h₄
                  if 0xD800 ≤ c ∧ c < 0xE000 then none else (unescape t).map (utf8 c ++ ·)
              | _ => none
            else do
              let c ← simpleEscape e
              (unescape t).map (c :: ·)
      else if b < 32 ∨ b = ch '"' then none
      else (unescape t).map (b :: ·)

theorem unescape_plain {b : Byte} (hprint : ¬ b < 32) (hquote : b ≠ ch '"') (hslash : b ≠ ch '\\')
    (t : Bytes) : unescape (b :: t) = (unescape t).map (b :: ·) := by
  rw [unescape.eq_def]
  simp only [if_neg hslash, if_neg (not_or.mpr ⟨hprint, hquote⟩)]

theorem unescape_unicode {h₁ h₂ h₃ h₄ : Byte} {c : Nat} (hc : hex4 h₁ h₂ h₃ h₄ = some c)
    (hbelow : c < 0xD800) (t : Bytes) :
    unescape (ch '\\' :: ch 'u' :: h₁ :: h₂ :: h₃ :: h₄ :: t) =
      (unescape t).map (utf8 c ++ ·) := by
  rw [unescape, if_pos rfl, if_pos rfl, hc, Option.bind_eq_bind, Option.bind_some,
    if_neg fun h => Nat.not_lt.mpr h.1 hbelow]

/-- A byte below 128 that is written as `\u00XX`. -/
theorem unescape_byte {c hi lo : Byte} (hc : c.toNat < 128)
    (hhi : hexValue hi = some (c.toNat / 16)) (hlo : hexValue lo = some (c.toNat % 16))
    (t : Bytes) :
    unescape (ch '\\' :: ch 'u' :: ch '0' :: ch '0' :: hi :: lo :: t) =
      (unescape t).map (c :: ·) := by
  have hzero : hexValue (ch '0') = some 0 := by decide
  have hsum : 4096 * 0 + 256 * 0 + 16 * (c.toNat / 16) + c.toNat % 16 = c.toNat := by omega
  have hcode : hex4 (ch '0') (ch '0') hi lo = some c.toNat := by
    simp only [hex4, hzero, hhi, hlo, Option.bind_eq_bind, Option.bind_some, hsum]
    rfl
  have hutf8 : utf8 c.toNat = [c] := by rw [utf8, if_pos hc, UInt8.ofNat_toNat]
  rw [unescape_unicode hcode (by omega), hutf8]
  rfl

/-- What may stand between the quotes of a string: no control character, no quote that is not
escaped, and no backslash that does not begin an escape. -/
inductive Inside : Bytes → Prop where
  | nil : Inside []
  | plain {b : Byte} {t : Bytes} :
      32 ≤ b → b ≠ ch '"' → b ≠ ch '\\' → Inside t → Inside (b :: t)
  | simple {e : Byte} {t : Bytes} :
      (simpleEscape e).isSome → Inside t → Inside (ch '\\' :: e :: t)
  | unicode {h₁ h₂ h₃ h₄ : Byte} {t : Bytes} :
      (hex4 h₁ h₂ h₃ h₄).isSome → Inside t →
      Inside (ch '\\' :: ch 'u' :: h₁ :: h₂ :: h₃ :: h₄ :: t)

/-- What can be decoded may stand between the quotes. -/
theorem inside_of_unescape {t s : Bytes} (h : unescape t = some s) : Inside t := by
  fun_induction unescape t generalizing s with
  | case1 => exact .nil
  | case2 => cases h
  | case3 h₁ h₂ h₃ h₄ t ih =>
      obtain ⟨c, hc, h⟩ := Option.bind_eq_some_iff.mp h
      split at h
      · cases h
      · obtain ⟨s', hs', -⟩ := Option.map_eq_some_iff.mp h
        exact .unicode (hc ▸ rfl) (ih hs')
  | case4 => cases h
  | case5 e t _ ih =>
      obtain ⟨c, hc, h⟩ := Option.bind_eq_some_iff.mp h
      obtain ⟨s', hs', -⟩ := Option.map_eq_some_iff.mp h
      exact .simple (hc ▸ rfl) (ih hs')
  | case6 => cases h
  | case7 b t hslash hplain ih =>
      obtain ⟨s', hs', -⟩ := Option.map_eq_some_iff.mp h
      exact .plain (UInt8.not_lt.mp fun hlt => hplain (.inl hlt)) (fun he => hplain (.inr he))
        hslash (ih hs')

/-- `t` is a JSON text of the string `s`. -/
inductive StringText (s : Bytes) : Bytes → Prop where
  | mk : unescape t = some s → StringText s (ch '"' :: t ++ [ch '"'])

/-! ## Numbers -/

/-- A decimal digit. -/
def IsDigit (b : Byte) : Prop := 48 ≤ b ∧ b ≤ 57

/-- One or more digits. -/
def IsDigits (t : Bytes) : Prop := t ≠ [] ∧ ∀ b ∈ t, IsDigit b

/-- A fractional part. -/
inductive IsFraction : Bytes → Prop where
  | none : IsFraction []
  | some : IsDigits t → IsFraction (ch '.' :: t)

/-- The sign of an exponent. -/
def IsExponentSign (s : Bytes) : Prop := s = [] ∨ s = lit "+" ∨ s = lit "-"

/-- An exponent. -/
inductive IsExponent : Bytes → Prop where
  | none : IsExponent []
  | some : e = ch 'e' ∨ e = ch 'E' → IsExponentSign s → IsDigits t → IsExponent (e :: s ++ t)

/-- A number: a leading zero stands alone. -/
inductive IsNumber : Bytes → Prop where
  | mk : s = [] ∨ s = lit "-" → IsDigits i → (i.head? = some (ch '0') → i.length = 1) →
      IsFraction f → IsExponent e → IsNumber (s ++ i ++ f ++ e)

/-! ## Values -/

mutual

/-- `t` is a JSON text of `v`. -/
inductive Text : Value Bytes → Bytes → Prop where
  | null : Text .null (lit "null")
  | boolean : Text (.boolean b) (if b then lit "true" else lit "false")
  | number : IsNumber t → Text (.number t) t
  | string : StringText s t → Text (.string s) t
  | array : ItemsText vs t → Text (.array vs) (ch '[' :: t ++ [ch ']'])
  | object : MembersText ms t → Text (.object ms) (ch '\x7b' :: t ++ [ch '\x7d'])

/-- `t` is the inside of an array with the items `vs`. -/
inductive ItemsText : List (Value Bytes) → Bytes → Prop where
  | nil : ItemsText [] []
  | one : Text v t → ItemsText [v] t
  | more : Text v t → ItemsText (w :: vs) u → ItemsText (v :: w :: vs) (t ++ ch ',' :: u)

/-- `t` is the inside of an object with the members `ms`. -/
inductive MembersText : List (Bytes × Value Bytes) → Bytes → Prop where
  | nil : MembersText [] []
  | one : StringText k s → Text v t → MembersText [(k, v)] (s ++ ch ':' :: t)
  | more : StringText k s → Text v t → MembersText (m :: ms) u →
      MembersText ((k, v) :: m :: ms) (s ++ ch ':' :: t ++ ch ',' :: u)

end

/-- `t` is a JSON text of a member. -/
def MemberText (m : Bytes × Value Bytes) (t : Bytes) : Prop :=
  ∃ k v, StringText m.1 k ∧ Text m.2 v ∧ t = k ++ ch ':' :: v

/-! ## Joining -/

theorem Text.ne_nil {v : Value Bytes} {t : Bytes} (h : Text v t) : t ≠ [] := by
  cases h with
  | null => decide
  | @boolean b => cases b <;> decide
  | number h =>
      cases h with
      | mk _ hi _ _ _ => simp [hi.1]
  | string h =>
      cases h with
      | mk _ => exact List.cons_ne_nil _ _
  | array _ => exact List.cons_ne_nil _ _
  | object _ => exact List.cons_ne_nil _ _

theorem ItemsText.eq_nil_iff {vs : List (Value Bytes)} {t : Bytes} (h : ItemsText vs t) :
    t = [] ↔ vs = [] := by
  cases h with
  | nil => simp
  | one h => simp [h.ne_nil]
  | more h _ => simp

/-- The texts of some values, joined with commas. -/
theorem ItemsText.intercalate {vs : List (Value Bytes)} {ts : List Bytes}
    (h : List.Forall₂ Text vs ts) : ItemsText vs ([ch ','].intercalate ts) := by
  induction h with
  | nil => exact .nil
  | cons hv hrest ih =>
      cases hrest with
      | nil =>
          rw [List.intercalate_singleton]
          exact .one hv
      | cons _ _ =>
          rw [List.intercalate_cons_cons, List.append_assoc]
          exact .more hv ih

/-- The texts of some members, joined with commas. -/
theorem MembersText.intercalate {ms : List (Bytes × Value Bytes)} {ts : List Bytes}
    (h : List.Forall₂ MemberText ms ts) : MembersText ms ([ch ','].intercalate ts) := by
  induction h with
  | nil => exact .nil
  | cons hm hrest ih =>
      obtain ⟨k, v, hk, hv, rfl⟩ := hm
      cases hrest with
      | nil =>
          rw [List.intercalate_singleton]
          exact .one hk hv
      | cons _ _ =>
          rw [List.intercalate_cons_cons, List.append_assoc]
          exact .more hk hv ih

theorem ItemsText.append {vs ws : List (Value Bytes)} {t u : Bytes} (hvs : ItemsText vs t)
    (hws : ItemsText ws u) (hv : vs ≠ []) (hw : ws ≠ []) :
    ItemsText (vs ++ ws) (t ++ ch ',' :: u) := by
  obtain ⟨w, ws, rfl⟩ := List.exists_cons_of_ne_nil hw
  match hvs with
  | .one h => exact .more h hws
  | .more h hrest =>
      have ih := hrest.append hws (List.cons_ne_nil _ _) hw
      rw [List.append_assoc, List.cons_append]
      exact .more h ih

/-- The texts of some lists of items, those that are not empty joined with commas, are a text of
all the items. -/
theorem ItemsText.joinNonempty {vss : List (List (Value Bytes))} {ts : List Bytes}
    (h : List.Forall₂ ItemsText vss ts) : ItemsText vss.flatten (joinNonempty [ch ','] ts) := by
  induction h with
  | nil => exact .nil
  | @cons vs t vss ts hvs hrest ih =>
      by_cases hv : vs = []
      · have ht : t = [] := hvs.eq_nil_iff.mpr hv
        rw [hv, ht, joinNonempty_cons_nil]
        exact ih
      · have ht : t ≠ [] := fun he => hv (hvs.eq_nil_iff.mp he)
        by_cases hw : vss.flatten = []
        · have hu : Join.joinNonempty [ch ','] ts = [] := (hw ▸ ih).eq_nil_iff.mpr rfl
          rw [joinNonempty_cons_of_ne_nil ht, if_pos hu, List.flatten_cons, hw, List.append_nil]
          exact hvs
        · have hu : Join.joinNonempty [ch ','] ts ≠ [] := fun he => hw (ih.eq_nil_iff.mp he)
          rw [joinNonempty_cons_of_ne_nil ht, if_neg hu, List.flatten_cons, List.append_assoc]
          exact hvs.append ih hv hw

/-! ## No control characters -/

/-- No byte is a control character. -/
def Printable (t : Bytes) : Prop := ∀ b ∈ t, 32 ≤ b

theorem printable_nil : Printable [] := nofun

@[simp] theorem printable_cons {b : Byte} {t : Bytes} :
    Printable (b :: t) ↔ 32 ≤ b ∧ Printable t := List.forall_mem_cons

@[simp] theorem printable_append {t u : Bytes} :
    Printable (t ++ u) ↔ Printable t ∧ Printable u := List.forall_mem_append

theorem IsDigit.printable {b : Byte} (h : IsDigit b) : 32 ≤ b :=
  UInt8.le_trans (show 32 ≤ 48 by decide) h.1

theorem hexValue_printable {b : Byte} {n : Nat} (h : hexValue b = some n) : 32 ≤ b := by
  rw [UInt8.le_iff_toNat_le]
  rw [hexValue] at h
  split at h
  · exact le_trans (by decide) (‹48 ≤ b.toNat ∧ b.toNat ≤ 57›).1
  · split at h
    · exact le_trans (by decide) (‹65 ≤ b.toNat ∧ b.toNat ≤ 70›).1
    · split at h
      · exact le_trans (by decide) (‹97 ≤ b.toNat ∧ b.toNat ≤ 102›).1
      · cases h

theorem simpleEscape_printable {e c : Byte} (h : simpleEscape e = some c) : 32 ≤ e := by
  by_contra hlt
  have hne (x : Char) (hx : 32 ≤ ch x) : e ≠ ch x := fun he => hlt (he ▸ hx)
  have hnone : simpleEscape e = none := by
    simp only [simpleEscape, hne '"' (by decide), hne '\\' (by decide), hne '/' (by decide),
      hne 'b' (by decide), hne 'f' (by decide), hne 'n' (by decide), hne 'r' (by decide),
      hne 't' (by decide), or_self, if_false]
  rw [hnone] at h
  cases h

theorem hex4_printable {a b c d : Byte} {n : Nat} (h : hex4 a b c d = some n) :
    32 ≤ a ∧ 32 ≤ b ∧ 32 ≤ c ∧ 32 ≤ d := by
  obtain ⟨w, hw, h⟩ := Option.bind_eq_some_iff.mp h
  obtain ⟨x, hx, h⟩ := Option.bind_eq_some_iff.mp h
  obtain ⟨y, hy, h⟩ := Option.bind_eq_some_iff.mp h
  obtain ⟨z, hz, -⟩ := Option.bind_eq_some_iff.mp h
  exact ⟨hexValue_printable hw, hexValue_printable hx, hexValue_printable hy,
    hexValue_printable hz⟩

theorem unescape_printable {t s : Bytes} (h : unescape t = some s) : Printable t := by
  fun_induction unescape t generalizing s with
  | case1 => exact printable_nil
  | case2 => cases h
  | case3 h₁ h₂ h₃ h₄ t ih =>
      obtain ⟨c, hc, h⟩ := Option.bind_eq_some_iff.mp h
      obtain ⟨p₁, p₂, p₃, p₄⟩ := hex4_printable hc
      split at h
      · cases h
      · obtain ⟨s', hs', -⟩ := Option.map_eq_some_iff.mp h
        simp only [printable_cons]
        exact ⟨by decide, by decide, p₁, p₂, p₃, p₄, ih hs'⟩
  | case4 => cases h
  | case5 e t _ ih =>
      obtain ⟨c, hc, h⟩ := Option.bind_eq_some_iff.mp h
      obtain ⟨s', hs', -⟩ := Option.map_eq_some_iff.mp h
      simp only [printable_cons]
      exact ⟨by decide, simpleEscape_printable hc, ih hs'⟩
  | case6 => cases h
  | case7 b t _ hplain ih =>
      obtain ⟨s', hs', -⟩ := Option.map_eq_some_iff.mp h
      rw [printable_cons]
      exact ⟨UInt8.not_lt.mp fun hlt => hplain (.inl hlt), ih hs'⟩

theorem StringText.printable {s t : Bytes} (h : StringText s t) : Printable t := by
  cases h with
  | mk h =>
      simp only [List.cons_append, printable_cons, printable_append]
      exact ⟨by decide, unescape_printable h, by decide, printable_nil⟩

theorem IsDigits.printable {t : Bytes} (h : IsDigits t) : Printable t :=
  fun b hb => (h.2 b hb).printable

theorem IsNumber.printable {t : Bytes} (h : IsNumber t) : Printable t := by
  obtain ⟨hs, hi, -, hf, he⟩ := h
  simp only [printable_append]
  refine ⟨⟨⟨?_, hi.printable⟩, ?_⟩, ?_⟩
  · rcases hs with rfl | rfl
    · exact printable_nil
    · simp [lit, ch, Printable]
  · cases hf with
    | none => exact printable_nil
    | some h => exact printable_cons.mpr ⟨by decide, h.printable⟩
  · cases he with
    | none => exact printable_nil
    | some he hs ht =>
        simp only [List.cons_append, printable_cons, printable_append]
        refine ⟨?_, ?_, ht.printable⟩
        · rcases he with rfl | rfl <;> decide
        · rcases hs with rfl | rfl | rfl
          · exact printable_nil
          · simp [lit, ch, Printable]
          · simp [lit, ch, Printable]

mutual

/-- A JSON text has no control character. -/
theorem Text.printable {v : Value Bytes} {t : Bytes} (h : Text v t) : Printable t := by
  match h with
  | .null => simp [lit, ch, Printable]
  | .boolean (b := b) => cases b <;> simp [lit, ch, Printable]
  | .number h => exact h.printable
  | .string h => exact h.printable
  | .array h =>
      simp only [List.cons_append, printable_cons, printable_append]
      exact ⟨by decide, h.printable, by decide, printable_nil⟩
  | .object h =>
      simp only [List.cons_append, printable_cons, printable_append]
      exact ⟨by decide, h.printable, by decide, printable_nil⟩

theorem ItemsText.printable {vs : List (Value Bytes)} {t : Bytes} (h : ItemsText vs t) :
    Printable t := by
  match h with
  | .nil => exact printable_nil
  | .one h => exact h.printable
  | .more h hrest =>
      rw [printable_append, printable_cons]
      exact ⟨h.printable, by decide, hrest.printable⟩

theorem MembersText.printable {ms : List (Bytes × Value Bytes)} {t : Bytes}
    (h : MembersText ms t) : Printable t := by
  match h with
  | .nil => exact printable_nil
  | .one hk h =>
      rw [printable_append, printable_cons]
      exact ⟨hk.printable, by decide, h.printable⟩
  | .more hk h hrest =>
      simp only [printable_append, printable_cons]
      exact ⟨⟨hk.printable, by decide, h.printable⟩, by decide, hrest.printable⟩

end

end Json

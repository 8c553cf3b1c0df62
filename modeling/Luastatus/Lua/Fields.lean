import Luastatus.Lua.Number
import Luastatus.Lua.Pattern

/-!
# Numbers in a line of text

The files of `procfs` have lines with numbers that white space separates.  A `Field` is such a
number with the white space in front of it.  Repetitions over white space and digits, or over white
space and other characters, match a line field by field.
-/

namespace Lua

open Text (Byte Bytes isSpace isSpace_digit isDigit_of_mem decimal decimalValue)
open Lua.Pattern

/-- A number in a line, with the white space in front of it. -/
structure Field where
  sep : Bytes
  digits : Bytes
  value : Nat
  sep_ne : sep ≠ []
  sep_space : ∀ b ∈ sep, isSpace b = true
  digits_value : decimalValue digits = some value

/-- The text of a field. -/
def Field.bytes (f : Field) : Bytes := f.sep ++ f.digits

/-- A number behind one blank. -/
def Field.spaced (n : Nat) : Field where
  sep := [32]
  digits := decimal n
  value := n
  sep_ne := by simp
  sep_space b hb := by
    rw [List.mem_singleton.mp hb]
    rfl
  digits_value := Text.decimalValue_decimal n

/-- The text does not begin with a character of the class. -/
def Outside (c : CharClass) (t : Bytes) : Prop := ∀ b ∈ t.head?, c.test b = false

theorem test_digit {b : Byte} : CharClass.digit.test b = true ↔ 48 ≤ b.toNat ∧ b.toNat ≤ 57 := by
  rw [CharClass.test, Bool.and_eq_true, decide_eq_true_eq, decide_eq_true_eq]
  rfl

theorem test_digit_space {b : Byte} (h : isSpace b = true) : CharClass.digit.test b = false := by
  rcases hdigit : CharClass.digit.test b with _ | _
  · rfl
  · rw [isSpace_digit (test_digit.mp hdigit)] at h
    cases h

theorem outside_digit {t : Bytes} (h : ∀ b ∈ t.head?, isSpace b = true) : Outside .digit t :=
  fun b hb => test_digit_space (h b hb)

theorem outside_nonSpace {t : Bytes} (h : ∀ b ∈ t.head?, isSpace b = true) :
    Outside .nonSpace t := fun b hb => congrArg not (h b hb)

namespace Field

variable (f : Field) {p : List Item} {t : Bytes} {caps r : List Capture}

theorem digits_digit : ∀ b ∈ f.digits, CharClass.digit.test b = true := by
  have h := f.digits_value
  rw [decimalValue] at h
  split at h
  · cases h
  · obtain ⟨ds, hds, -⟩ := Option.map_eq_some_iff.mp h
    exact fun b hb => test_digit.mpr (isDigit_of_mem hds hb)

theorem digits_nonSpace : ∀ b ∈ f.digits, CharClass.nonSpace.test b = true := fun b hb =>
  congrArg not (isSpace_digit (test_digit.mp (f.digits_digit b hb)))

theorem digits_ne : f.digits ≠ [] := by
  intro h
  have hvalue := f.digits_value
  rw [h] at hvalue
  cases hvalue

theorem tonumber_digits : tonumber f.digits = some (.fin f.value) :=
  Lua.tonumber_digits f.digits_value

theorem head_space (t : Bytes) : ∀ b ∈ (f.bytes ++ t).head?, isSpace b = true := by
  obtain ⟨s, l, hs⟩ := List.exists_cons_of_ne_nil f.sep_ne
  intro b hb
  rw [Field.bytes, hs] at hb
  cases hb
  exact f.sep_space s (hs ▸ List.mem_cons_self)

/-- What begins like white space is what a list of fields begins with. -/
theorem head_fields {P : Byte → Prop} (hP : ∀ b, isSpace b = true → P b) {fs : List Field}
    (ht : ∀ b ∈ t.head?, P b) : ∀ b ∈ (fs.flatMap Field.bytes ++ t).head?, P b := by
  cases fs with
  | nil => exact ht
  | cons f fs =>
      intro b hb
      rw [List.flatMap_cons, List.append_assoc] at hb
      exact hP b (f.head_space _ b hb)

theorem run_sep : Run .space f.sep (f.digits ++ t) := by
  refine ⟨f.sep_space, ?_⟩
  obtain ⟨d, l, hd⟩ := List.exists_cons_of_ne_nil f.digits_ne
  intro b hb
  rw [hd] at hb
  cases hb
  exact isSpace_digit (test_digit.mp (f.digits_digit d (hd ▸ List.mem_cons_self)))

/-- The white space, and the digits as a run of a class. -/
theorem doMatch_capture {c : CharClass} (hc : ∀ b ∈ f.digits, c.test b = true) (ht : Outside c t)
    (h : doMatch p t (.closed f.digits :: caps) = some r) :
    doMatch (.plus .space :: .openCapture :: .plus c :: .closeCapture :: p) (f.bytes ++ t) caps =
      some r := by
  rw [Field.bytes, List.append_assoc]
  exact doMatch_plus f.sep_ne f.run_sep (Pattern.doMatch_capture f.digits_ne ⟨hc, ht⟩ h)

theorem doMatch_skip (ht : Outside .digit t) (h : doMatch p t caps = some r) :
    doMatch (.plus .space :: .plus .digit :: p) (f.bytes ++ t) caps = some r := by
  rw [Field.bytes, List.append_assoc]
  exact doMatch_plus f.sep_ne f.run_sep (doMatch_plus f.digits_ne ⟨f.digits_digit, ht⟩ h)

end Field

end Lua

import Luastatus.Barlib.Display

/-!
# Widgets that show strings

The stdout and dwm barlibs show a string, or the strings of an array joined by the separator; a nil
in the array is skipped.  They differ in how a string is put into the buffer.

`textOf` is what is shown, if the data are valid.
-/

namespace Luastatus.Barlib

open Text (Bytes)
open LibLs Lua Join

variable {F : Type}

/-- How a string is put into the buffer: as the whole text, or behind others. -/
structure Puts where
  whole : Bytes → Bytes → Except AssertFailure Bytes
  append : Bytes → Bytes → Except AssertFailure Bytes

/-- The loop over the values of a table in `set()`. -/
def fillStrings (puts : Puts) (sep : Bytes) :
    List (Arg F) → Bytes → Except AssertFailure (Bytes × Bool)
  | [], buf => return (buf, true)
  | value :: values, buf =>
      match value with
      | .nil => fillStrings puts sep values buf
      | .string s => do
          let buf := if buf ≠ [] ∧ s ≠ [] then buf ++ sep else buf
          let buf ← puts.append buf s
          fillStrings puts sep values buf
      | _ => return (buf, false)

/-- The switch over the data in `set()`. -/
def fillTexts (puts : Puts) (sep : Bytes) (data : Arg F) (buf : Bytes) :
    Except AssertFailure (Bytes × Bool) :=
  match data with
  | .nil => return (buf, true)
  | .string s => do
      let buf ← puts.whole buf s
      return (buf, true)
  | .table len entries => fillStrings puts sep (arrayValues len entries) buf
  | _ => return (buf, false)

/-! ## What is shown -/

/-- The strings of an array, if it consists of strings and nils. -/
def stringsOf : List (Arg F) → Option (List Bytes)
  | [] => some []
  | .nil :: values => stringsOf values
  | .string s :: values => (s :: ·) <$> stringsOf values
  | _ :: _ => none

/-- Strings put behind a text, each after a separator if neither it nor the text is empty. -/
def joinStrings (clean : Bytes → Bytes) (sep buf : Bytes) (strings : List Bytes) : Bytes :=
  strings.foldl (fun buf s => (if buf ≠ [] ∧ s ≠ [] then buf ++ sep else buf) ++ clean s) buf

/-- What is shown of a value: a nil is nothing, `clean` says what becomes of a string. -/
def textOf (clean : Bytes → Bytes) (sep : Bytes) : Arg F → Option Bytes
  | .nil => some []
  | .string s => some (clean s)
  | .table len entries => joinStrings clean sep [] <$> stringsOf (arrayValues len entries)
  | _ => none

section Fill

variable {puts : Puts} {clean : Bytes → Bytes}

theorem fillStrings_of_some (happend : ∀ buf s, puts.append buf s = .ok (buf ++ clean s))
    (sep : Bytes) : ∀ (values : List (Arg F)) (buf : Bytes) (strings : List Bytes),
      stringsOf values = some strings →
        fillStrings puts sep values buf = .ok (joinStrings clean sep buf strings, true)
  | [], buf, strings, h => by
      cases h
      rfl
  | value :: values, buf, strings, h => by
      cases value with
      | nil => exact fillStrings_of_some happend sep values buf strings h
      | string s =>
          obtain ⟨rest, hrest, rfl⟩ := Option.map_eq_some_iff.mp h
          simp only [fillStrings, happend, ok_bind]
          exact fillStrings_of_some happend sep values _ rest hrest
      | boolean b => cases h
      | number x => cases h
      | table len entries => cases h
      | other => cases h

theorem fillStrings_of_none (happend : ∀ buf s, puts.append buf s = .ok (buf ++ clean s))
    (sep : Bytes) : ∀ (values : List (Arg F)) (buf : Bytes), stringsOf values = none →
      ∃ junk, fillStrings puts sep values buf = .ok (junk, false)
  | [], _, h => by cases h
  | value :: values, buf, h => by
      cases value with
      | nil => exact fillStrings_of_none happend sep values buf h
      | string s =>
          simp only [fillStrings, happend, ok_bind]
          exact fillStrings_of_none happend sep values _ (Option.map_eq_none_iff.mp h)
      | boolean b => exact ⟨buf, rfl⟩
      | number x => exact ⟨buf, rfl⟩
      | table len entries => exact ⟨buf, rfl⟩
      | other => exact ⟨buf, rfl⟩

/-- A value with a text. -/
theorem fillTexts_of_some (hwhole : ∀ s, puts.whole [] s = .ok (clean s))
    (happend : ∀ buf s, puts.append buf s = .ok (buf ++ clean s)) (sep : Bytes) {data : Arg F}
    {t : Bytes} (h : textOf clean sep data = some t) :
    fillTexts puts sep data [] = .ok (t, true) := by
  cases data with
  | nil =>
      cases h
      rfl
  | string s =>
      cases h
      simp only [fillTexts, hwhole, ok_bind]
      rfl
  | table len entries =>
      obtain ⟨strings, hstrings, rfl⟩ := Option.map_eq_some_iff.mp h
      exact fillStrings_of_some happend sep _ [] strings hstrings
  | boolean b => cases h
  | number x => cases h
  | other => cases h

/-- A value without one. -/
theorem fillTexts_of_none (happend : ∀ buf s, puts.append buf s = .ok (buf ++ clean s))
    (sep : Bytes) {data : Arg F} (h : textOf clean sep data = none) :
    ∃ junk, fillTexts puts sep data [] = .ok (junk, false) := by
  cases data with
  | nil => cases h
  | string s => cases h
  | table len entries =>
      exact fillStrings_of_none happend sep _ [] (Option.map_eq_none_iff.mp h)
  | boolean b => exact ⟨[], rfl⟩
  | number x => exact ⟨[], rfl⟩
  | other => exact ⟨[], rfl⟩

end Fill

/-- A barlib that shows strings renders `textOf`. -/
theorem renders_textOf {puts : Nat → Puts} {clean : Nat → Bytes → Bytes}
    (hwhole : ∀ w s, (puts w).whole [] s = .ok (clean w s))
    (happend : ∀ w buf s, (puts w).append buf s = .ok (buf ++ clean w s)) (sep error : Bytes)
    (line : List Bytes → Bytes) :
    (Drawing.mk (F := F) (fun w => fillTexts (puts w) sep) error line).Renders
      ⟨fun w => textOf (clean w) sep, error⟩ where
  fill_of_some w _ _ h := fillTexts_of_some (hwhole w) (happend w) sep h
  fill_of_none w _ h := fillTexts_of_none (happend w) sep h
  errorText := rfl

end Luastatus.Barlib

import Luastatus.Stdout.Display
import Luastatus.Lemonbar.ArrayReturn

/-!
# Returning an array or the joined string

The stdout and lemonbar barlibs document that returning an array of strings is equivalent to
returning its non-empty elements joined by the separator.  This holds if no separator is lost
(`KeepsSeparators`) and, for lemonbar, if joining the strings neither makes nor breaks an opener
(`Lemonbar.KeepsOpeners`).
-/

namespace Luastatus.Barlib

open Text (Bytes ch lit)
open LibLs Lua Join

variable {F : Type} {n : Nat} {sep : Bytes} {len : Nat} {entries : Entries F} {strings : List Bytes}

/-- An array has the text of its strings. -/
theorem textOf_table (clean : Bytes → Bytes) (sep : Bytes)
    (hstrings : stringsOf (arrayValues len entries) = some strings) :
    textOf clean sep (.table len entries) = some (joinStrings clean sep [] strings) := by
  rw [textOf, hstrings]
  rfl

/-! ## stdout -/

theorem blank_iff_dropNewlines (s : Bytes) : Stdout.dropNewlines s = [] ↔ Blank s := by
  rw [Stdout.dropNewlines, List.filter_eq_nil_iff, Blank]
  simp

/-- The joined string shows the separators that the array loses. -/
theorem dropNewlines_joinNonempty (hsep : ch '\n' ∉ sep) (strings : List Bytes) :
    Stdout.dropNewlines (joinNonempty sep strings) =
      lostSeparators sep strings ++ joinStrings Stdout.dropNewlines sep [] strings := by
  have hkeep : Stdout.dropNewlines sep = sep :=
    List.filter_eq_self.mpr fun b hb => by simpa using fun he : b = ch '\n' => hsep (he ▸ hb)
  have hjoin : Stdout.dropNewlines (sep.intercalate (nonempty strings)) =
      sep.intercalate ((nonempty strings).map Stdout.dropNewlines) := by
    rw [map_intercalate (f := Stdout.dropNewlines) fun _ _ => List.filter_append .., hkeep]
  rw [joinStrings_eq blank_iff_dropNewlines]
  exact hjoin.trans (intercalate_blanks (fun s => (blank_iff_dropNewlines s).mpr) sep strings)

theorem stdout_sameBuffer_iff (hsep : ch '\n' ∉ sep) (error : Bytes)
    (hstrings : stringsOf (arrayValues len entries) = some strings) (written : Bool) (p : Priv n)
    (w : Fin n) :
    SameBuffer (Stdout.drawing ⟨sep, error⟩) written p w (.table len entries)
        (.string (joinNonempty sep strings)) ↔ KeepsSeparators sep strings := by
  rw [sameBuffer_iff (Stdout.renders ⟨sep, error⟩)
    (textOf_table Stdout.dropNewlines sep hstrings) rfl, dropNewlines_joinNonempty hsep,
    List.self_eq_append_left, lostSeparators_eq_nil_iff]

/-! ## lemonbar -/

theorem lemonbar_sameBuffer_iff (hsep : ch '\n' ∉ sep)
    (hstrings : stringsOf (arrayValues len entries) = some strings) (written : Bool) (p : Priv n)
    (w : Fin n) :
    SameBuffer (Lemonbar.drawing ⟨sep⟩) written p w (.table len entries)
        (.string (joinNonempty sep strings)) ↔
      KeepsSeparators sep strings ∧ Lemonbar.KeepsOpeners sep strings := by
  rw [sameBuffer_iff (Lemonbar.renders ⟨sep⟩)
    (textOf_table (Lemonbar.sanitized w) sep hstrings) rfl,
    Lemonbar.joinStrings_sanitized_iff hsep]

/-! ## Both barlibs -/

/-- An array of strings and the joined string give the widget the same buffer, in any state, if and
only if no separator is lost and, for lemonbar, the openers are kept. -/
theorem arrayReturn_iff (hsep : ch '\n' ∉ sep) (error : Bytes)
    (hstrings : stringsOf (arrayValues len entries) = some strings) (written : Bool) (p : Priv n)
    (w : Fin n) :
    (SameBuffer (Stdout.drawing ⟨sep, error⟩) written p w (.table len entries)
        (.string (joinNonempty sep strings)) ↔ KeepsSeparators sep strings) ∧
      (SameBuffer (Lemonbar.drawing ⟨sep⟩) written p w (.table len entries)
          (.string (joinNonempty sep strings)) ↔
        KeepsSeparators sep strings ∧ Lemonbar.KeepsOpeners sep strings) :=
  ⟨stdout_sameBuffer_iff hsep error hstrings written p w,
    lemonbar_sameBuffer_iff hsep hstrings written p w⟩

/-- A table with two strings. -/
def pair (a b : Bytes) : Arg Nat := .table 2 [(.index 1, .string a), (.index 2, .string b)]

theorem arrayReturn_iff_pair :
    (SameBuffer (n := 1) (Stdout.drawing ⟨lit " | ", lit "(Error)"⟩) true Stdout.init 0
        (pair (lit "a") (lit "b\n")) (.string (lit "a | b\n")) ↔
      KeepsSeparators (lit " | ") [lit "a", lit "b\n"]) ∧
    (SameBuffer (n := 1) (Lemonbar.drawing ⟨lit " | "⟩) true Stdout.init 0
        (pair (lit "a") (lit "b\n")) (.string (lit "a | b\n")) ↔
      KeepsSeparators (lit " | ") [lit "a", lit "b\n"] ∧
        Lemonbar.KeepsOpeners (lit " | ") [lit "a", lit "b\n"]) :=
  have hstrings : stringsOf (arrayValues 2 [(.index 1, .string (lit "a")),
      (.index 2, (.string (lit "b\n") : Arg Nat))]) = some [lit "a", lit "b\n"] := rfl
  arrayReturn_iff (by decide) (lit "(Error)") hstrings true Stdout.init 0

/-- A newline before a string: the array loses the separator.  An action tag in two strings: the
array loses the index of the widget. -/
theorem arrayReturn_differs :
    ¬ SameBuffer (n := 1) (Stdout.drawing ⟨lit " | ", lit "(Error)"⟩) true Stdout.init 0
        (pair (lit "\n") (lit "b")) (.string (joinNonempty (lit " | ") [lit "\n", lit "b"])) ∧
    ¬ SameBuffer (n := 1) (Lemonbar.drawing ⟨[]⟩) true Stdout.init 0
        (pair (lit "%\x7bA") (lit ":x\x7d"))
        (.string (joinNonempty [] [lit "%\x7bA", lit ":x\x7d"])) := by
  have hpair (a b : Bytes) : stringsOf (arrayValues 2 [(.index 1, .string a),
      (.index 2, (.string b : Arg Nat))]) = some [a, b] := rfl
  constructor
  · rw [pair, stdout_sameBuffer_iff (by decide) _ (hpair _ _), ← lostSeparators_eq_nil_iff]
    decide +kernel
  · rw [pair, lemonbar_sameBuffer_iff (by decide) (hpair _ _)]
    rintro ⟨-, hkeeps⟩
    exact absurd (hkeeps (lit "x\x7d")) (by decide)

end Luastatus.Barlib

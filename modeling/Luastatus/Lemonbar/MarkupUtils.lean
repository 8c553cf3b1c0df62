import Luastatus.Libsafe.Safev
import Luastatus.LibLs.ParseInt

/-!
# Markup of the lemonbar barlib

`append_sanitized` copies a widget's text, drops the newlines, and inserts `<idx>_` after the colon
that ends the head of an action tag, `%{A` up to the colon.  `parse_command` takes the number off
again when lemonbar reports a click.

`append_sanitized` looks at the text, not at what it has written.
-/

namespace Luastatus.Lemonbar

open Text (Byte Bytes ch lit decimal)
open Libsafe LibLs

/-- What is inserted into an action tag of a widget. -/
def tag (widgetIdx : Nat) : Bytes := decimal widgetIdx ++ [ch '_']

/-- The loop of `append_sanitized`, from index `i` on. -/
def sanitizeLoop (widgetIdx : Nat) (v : Bytes) (i prev : Nat) (aTag : Bool) (buf : Bytes) :
    Except AssertFailure Bytes :=
  if i < v.length then do
    let c ← safevAt v i
    let peek (offset : Nat) : Byte := safevAtOr v (i + offset) 0
    if c = ch '\n' then
      let s ← safevSubspan v prev i
      sanitizeLoop widgetIdx v (i + 1) (i + 1) aTag (buf ++ s)
    else if c = ch '%' then
      if peek 1 = ch '{' ∧ peek 2 = ch 'A' then
        sanitizeLoop widgetIdx v (i + 1) prev true buf
      else if peek 1 = ch '%' then
        sanitizeLoop widgetIdx v (i + 2) prev aTag buf
      else sanitizeLoop widgetIdx v (i + 1) prev aTag buf
    else if c = ch ':' then
      if aTag then
        let s ← safevSubspan v prev (i + 1)
        sanitizeLoop widgetIdx v (i + 1) (i + 1) false (buf ++ s ++ tag widgetIdx)
      else sanitizeLoop widgetIdx v (i + 1) prev aTag buf
    else if c = ch '}' then
      sanitizeLoop widgetIdx v (i + 1) prev false buf
    else sanitizeLoop widgetIdx v (i + 1) prev aTag buf
  else do
    let s ← safevSuffix v prev
    return buf ++ s
termination_by v.length - i

/-- `append_sanitized`: the buffer after it. -/
def appendSanitized (buf : Bytes) (widgetIdx : Nat) (v : Bytes) : Except AssertFailure Bytes :=
  sanitizeLoop widgetIdx v 0 0 false buf

/-- `parse_command`: the widget index and the command. -/
def parseCommand (line : Bytes) : Option (Nat × Bytes) :=
  let (idx, consumed) := lsStrtouB line
  if idx < 0 ∨ consumed = 0 ∨ consumed = line.length ∨ line.getD consumed 0 ≠ ch '_' then none
  else some (idx.toNat, line.drop (consumed + 1))

/-- What `append_sanitized` writes is read back by `parse_command`. -/
theorem parseCommand_tag {widgetIdx : Nat} (h : widgetIdx ≤ intMax) (command : Bytes) :
    parseCommand (tag widgetIdx ++ command) = some (widgetIdx, command) := by
  have hline : tag widgetIdx ++ command = decimal widgetIdx ++ ch '_' :: command := by
    rw [tag, List.append_assoc, List.singleton_append]
  have hpos : (decimal widgetIdx).length ≠ 0 :=
    (List.length_pos_iff.mpr (Text.decimal_ne_nil widgetIdx)).ne'
  have hread : lsStrtouB (decimal widgetIdx ++ ch '_' :: command) =
      ((widgetIdx : Int), (decimal widgetIdx).length) := by
    refine lsStrtouB_decimal h _ fun b hb => ?_
    cases hb
    rfl
  have hat : (decimal widgetIdx ++ ch '_' :: command).getD (decimal widgetIdx).length 0 =
      ch '_' := by
    simp
  rw [parseCommand, hline, hread]
  simp only
  rw [if_neg, Int.toNat_natCast]
  · simp
  · rintro (hneg | hzero | hend | hne)
    · omega
    · exact hpos hzero
    · simp at hend
    · exact hne hat

end Luastatus.Lemonbar

import Luastatus.Libsafe.Safev

/-!
# JSON strings of the i3 barlib

`append_json_escaped_str` writes a string with the control characters, the backslash, the quote and
the slash as `\u00XX`, and copies all other bytes.
-/

namespace Luastatus.I3

open Text (Byte Bytes ch lit)
open Libsafe LibLs

/-- `HEX_CHARS`. -/
def hexChars : Bytes := lit "0123456789ABCDEF"

/-- The bytes that are escaped. -/
def NeedsEscape (c : Byte) : Prop := c < 32 ∨ c = ch '\\' ∨ c = ch '"' ∨ c = ch '/'

instance : DecidablePred NeedsEscape := fun c =>
  inferInstanceAs (Decidable (c < 32 ∨ c = ch '\\' ∨ c = ch '"' ∨ c = ch '/'))

/-- The loop of `append_json_escaped_str`, from index `i` on. -/
def escapeLoop (v : Bytes) (i prev : Nat) (dst : Bytes) : Except AssertFailure Bytes :=
  if i < v.length then do
    let c ← safevAt v i
    if NeedsEscape c then
      let s ← safevSubspan v prev i
      let hi ← safevAt hexChars (c.toNat / 16)
      let lo ← safevAt hexChars (c.toNat % 16)
      escapeLoop v (i + 1) (i + 1) (dst ++ s ++ [ch '\\', ch 'u', ch '0', ch '0', hi, lo])
    else escapeLoop v (i + 1) prev dst
  else do
    let s ← safevSubspan v prev v.length
    return dst ++ s
termination_by v.length - i

/-- `append_json_escaped_str`: the buffer after it. -/
def appendJsonEscapedStr (dst v : Bytes) : Except AssertFailure Bytes := do
  let dst ← escapeLoop v 0 0 (dst ++ [ch '"'])
  return dst ++ [ch '"']

/-! ## What is appended -/

/-- A hexadecimal digit. -/
def hexDigit (d : Nat) : Byte := hexChars.getD d 0

/-- What becomes of a byte. -/
def jsonEscapeByte (c : Byte) : Bytes :=
  if NeedsEscape c then
    [ch '\\', ch 'u', ch '0', ch '0', hexDigit (c.toNat / 16), hexDigit (c.toNat % 16)]
  else [c]

/-- What becomes of a string, without the quotes. -/
def jsonEscape (v : Bytes) : Bytes := v.flatMap jsonEscapeByte

theorem safevAt_hexChars {d : Nat} (h : d < 16) : safevAt hexChars d = .ok (hexDigit d) := by
  rw [safevAt, lsAssert_bind_of_pos (show d < hexChars.length from h)]
  rfl

/-- From index `i` on, the loop writes the escaped bytes after those from `prev` on that are still
to be copied. -/
theorem escapeLoop_eq (v l : Bytes) :
    ∀ (i prev : Nat) (dst : Bytes), v.drop i = l → prev ≤ i → i ≤ v.length →
      escapeLoop v i prev dst =
        .ok (dst ++ (v.drop prev).take (i - prev) ++ jsonEscape l) := by
  induction l with
  | nil =>
      intro i prev dst hl hprev hi
      have hge : v.length ≤ i := List.drop_eq_nil_iff.mp hl
      have hlen : i = v.length := by omega
      rw [escapeLoop, if_neg (by omega), safevSubspan_eq (by omega) (Nat.le_refl _), ← hlen]
      simp [ok_bind, jsonEscape, pure, Except.pure]
  | cons c cs ih =>
      intro i prev dst hl hprev hi
      have hlt := lt_length_of_drop hl
      have hl₁ := drop_succ_of_drop hl
      have hc := c.toNat_lt
      rw [escapeLoop, if_pos hlt, safevAt_eq hl, ok_bind, jsonEscape, List.flatMap_cons,
        jsonEscapeByte]
      by_cases hesc : NeedsEscape c
      · rw [if_pos hesc, if_pos hesc, safevSubspan_eq hprev hi, ok_bind,
          safevAt_hexChars (by omega), ok_bind, safevAt_hexChars (by omega), ok_bind,
          ih (i + 1) (i + 1) _ hl₁ (Nat.le_refl _) hlt]
        simp [jsonEscape]
      · rw [if_neg hesc, if_neg hesc, ih (i + 1) prev dst hl₁ (by omega) hlt,
          take_succ_of_drop hprev hl]
        simp [jsonEscape]

/-- `append_json_escaped_str` fails no assertion, and this is what it appends. -/
theorem appendJsonEscapedStr_eq (dst v : Bytes) :
    appendJsonEscapedStr dst v = .ok (dst ++ (ch '"' :: jsonEscape v ++ [ch '"'])) := by
  rw [appendJsonEscapedStr, escapeLoop_eq v v 0 0 _ rfl (Nat.le_refl 0) (Nat.zero_le _), ok_bind]
  simp [pure, Except.pure]

end Luastatus.I3

import Luastatus.I3.Output
import Luastatus.Libsafe.MutSafev

/-!
# JSON strings of the web plugin

`json_encode_str` passes its output to a callback, in segments: runs of bytes that are copied, and
an array `esc` in which only the two hexadecimal digits change.  The quotes are left to the caller.
The i3 barlib has a copy of this loop that appends to a string and writes the quotes.

Both are the same escaping, which is decoded to what was escaped (`jsonEscapers_roundTrip`).
-/

namespace Luastatus.Web.ModJson

open Text (Byte Bytes ch lit)
open Libsafe LibLs Json

/-! ## The code -/

/-- `HEX_CHARS`. -/
def hexChars : Bytes := lit "0123456789ABCDEF"

/-- The condition under which a byte is escaped. -/
def NeedsEscape (c : Byte) : Prop := c < 32 ∨ c = ch '\\' ∨ c = ch '"' ∨ c = ch '/'

instance : DecidablePred NeedsEscape := fun c =>
  inferInstanceAs (Decidable (c < 32 ∨ c = ch '\\' ∨ c = ch '"' ∨ c = ch '/'))

variable {σ : Type}

/-- The loop of `json_encode_str`, from index `i` on, and the call after it. -/
def jsonEncodeLoop (append : σ → Bytes → σ) (v : Bytes) (i prev : Nat) (esc : Bytes) (ud : σ) :
    Except AssertFailure σ :=
  if i < v.length then do
    let c ← safevAt v i
    if NeedsEscape c then
      let ud := append ud (← safevSubspan v prev i)
      let esc ← mutSafevSetAt esc 4 (← safevAt hexChars (c.toNat / 16))
      let esc ← mutSafevSetAt esc 5 (← safevAt hexChars (c.toNat % 16))
      jsonEncodeLoop append v (i + 1) (i + 1) esc (append ud esc)
    else jsonEncodeLoop append v (i + 1) prev esc ud
  else do
    return append ud (← safevSubspan v prev v.length)
termination_by v.length - i

/-- `json_encode_str`: the callback's data after it. -/
def jsonEncodeStr (append : σ → Bytes → σ) (ud : σ) (v : Bytes) : Except AssertFailure σ :=
  jsonEncodeLoop append v 0 0 (lit "\\u00##") ud

/-- `append_to_lua_buf_callback`. -/
def appendToLuaBuf (b segment : Bytes) : Bytes := b ++ segment

/-- `l_json_encode_str`: the string that is pushed. -/
def lJsonEncodeStr (s : Bytes) : Except AssertFailure Bytes := jsonEncodeStr appendToLuaBuf [] s

/-! ## What is passed to the callback -/

/-- The array of an escape whose digits are `hi` and `lo`. -/
def escArray (hi lo : Byte) : Bytes := [ch '\\', ch 'u', ch '0', ch '0', hi, lo]

theorem safevAt_hexChars {d : Nat} (h : d < 16) : safevAt hexChars d = .ok (I3.hexDigit d) :=
  I3.safevAt_hexChars h

/-- Only the digits of the array are written to. -/
theorem mutSafevSetAt_four (hi lo c : Byte) :
    mutSafevSetAt (escArray hi lo) 4 c = .ok (escArray c lo) :=
  @mutSafevSetAt_append [ch '\\', ch 'u', ch '0', ch '0'] 4 rfl hi [lo] c

theorem mutSafevSetAt_five (hi lo c : Byte) :
    mutSafevSetAt (escArray hi lo) 5 c = .ok (escArray hi c) :=
  @mutSafevSetAt_append [ch '\\', ch 'u', ch '0', ch '0', hi] 5 rfl lo [] c

theorem jsonEscapeByte_of_needsEscape {c : Byte} (h : NeedsEscape c) :
    I3.jsonEscapeByte c = escArray (I3.hexDigit (c.toNat / 16)) (I3.hexDigit (c.toNat % 16)) :=
  if_pos h

theorem jsonEscapeByte_of_not_needsEscape {c : Byte} (h : ¬ NeedsEscape c) :
    I3.jsonEscapeByte c = [c] := if_neg h

/-- From index `i` on, the segments make up the bytes from `prev` on that are still to be copied,
and the escaped rest.  They do not depend on the callback, nor on the digits that the array was left
with. -/
theorem jsonEncodeLoop_segments (v l : Bytes) :
    ∀ i prev : Nat, v.drop i = l → prev ≤ i → i ≤ v.length →
      ∃ segments : List Bytes,
        segments.flatten = (v.drop prev).take (i - prev) ++ I3.jsonEscape l ∧
        ∀ {σ : Type} (append : σ → Bytes → σ) (ud : σ) (hi lo : Byte),
          jsonEncodeLoop append v i prev (escArray hi lo) ud =
            .ok (segments.foldl append ud) := by
  induction l with
  | nil =>
      intro i prev hl hprev hi
      have hge : v.length ≤ i := List.drop_eq_nil_iff.mp hl
      have hlen : i = v.length := by omega
      refine ⟨[(v.drop prev).take (v.length - prev)], by simp [hlen, I3.jsonEscape], ?_⟩
      intro σ append ud hi' lo
      rw [jsonEncodeLoop, if_neg (by omega), safevSubspan_eq (by omega) (Nat.le_refl _)]
      rfl
  | cons c cs ih =>
      intro i prev hl hprev hi
      have hlt := lt_length_of_drop hl
      have hl₁ := drop_succ_of_drop hl
      have hc := c.toNat_lt
      by_cases hesc : NeedsEscape c
      · obtain ⟨segments, hflat, hrun⟩ := ih (i + 1) (i + 1) hl₁ (Nat.le_refl _) hlt
        refine ⟨(v.drop prev).take (i - prev) :: I3.jsonEscapeByte c :: segments, ?_, ?_⟩
        · rw [List.flatten_cons, List.flatten_cons, hflat, Nat.sub_self, List.take_zero,
            List.nil_append]
          rfl
        · intro σ append ud hi' lo
          rw [jsonEncodeLoop, if_pos hlt, safevAt_eq hl, ok_bind, if_pos hesc,
            safevSubspan_eq hprev hi, ok_bind, safevAt_hexChars (by omega), ok_bind,
            mutSafevSetAt_four, ok_bind, safevAt_hexChars (by omega), ok_bind,
            mutSafevSetAt_five, ok_bind, hrun, jsonEscapeByte_of_needsEscape hesc]
          rfl
      · obtain ⟨segments, hflat, hrun⟩ := ih (i + 1) prev hl₁ (by omega) hlt
        refine ⟨segments, ?_, ?_⟩
        · rw [hflat, take_succ_of_drop hprev hl, I3.jsonEscape, I3.jsonEscape, List.flatMap_cons,
            jsonEscapeByte_of_not_needsEscape hesc, List.append_assoc]
        · intro σ append ud hi' lo
          rw [jsonEncodeLoop, if_pos hlt, safevAt_eq hl, ok_bind, if_neg hesc, hrun]

/-- `json_encode_str` fails no assertion.  Whatever the callback does with the segments, joined
they are the escaped string. -/
theorem jsonEncodeStr_segments (v : Bytes) :
    ∃ segments : List Bytes, segments.flatten = I3.jsonEscape v ∧
      ∀ {σ : Type} (append : σ → Bytes → σ) (ud : σ),
        jsonEncodeStr append ud v = .ok (segments.foldl append ud) := by
  obtain ⟨segments, hflat, hrun⟩ :=
    jsonEncodeLoop_segments v v 0 0 rfl (Nat.le_refl 0) (Nat.zero_le _)
  exact ⟨segments, hflat, fun append ud => hrun append ud (ch '#') (ch '#')⟩

/-- What `l_json_encode_str` returns. -/
theorem lJsonEncodeStr_eq (s : Bytes) : lJsonEncodeStr s = .ok (I3.jsonEscape s) := by
  obtain ⟨segments, hflat, hrun⟩ := jsonEncodeStr_segments s
  have hfold : segments.foldl appendToLuaBuf [] = [] ++ (segments.map id).flatten :=
    List.foldl_append_eq_append ..
  rw [lJsonEncodeStr, hrun, hfold, List.map_id, hflat, List.nil_append]

/-! ## The round trip -/

/-- Both escapers write what may stand between the quotes of a JSON string and is decoded to the
string that was escaped; the one of the i3 barlib writes the quotes as well. -/
theorem jsonEscapers_roundTrip (dst v : Bytes) :
    (∃ t, lJsonEncodeStr v = .ok t ∧ unescape t = some v ∧ Printable t ∧ Inside t) ∧
    (∃ t, I3.appendJsonEscapedStr dst v = .ok (dst ++ (ch '"' :: t ++ [ch '"'])) ∧
      unescape t = some v ∧ Printable t ∧ Inside t) := by
  have hdecode := I3.unescape_jsonEscape v
  have hprint := unescape_printable hdecode
  have hinside := inside_of_unescape hdecode
  exact ⟨⟨_, lJsonEncodeStr_eq v, hdecode, hprint, hinside⟩,
    ⟨_, I3.appendJsonEscapedStr_eq dst v, hdecode, hprint, hinside⟩⟩

/-- A NUL byte at the start and a quote at the end. -/
example : lJsonEncodeStr [0, ch 'a', ch '"'] = .ok (lit "\\u0000a\\u0022") := by
  rw [lJsonEncodeStr_eq]
  rfl

end Luastatus.Web.ModJson

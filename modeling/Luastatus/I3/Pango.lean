import Luastatus.Lib.Entities
import Luastatus.Libsafe.Safev
import Mathlib.Tactic.SplitIfs

/-!
# Escaping for Pango

`pango_escape` passes its output to a callback in segments: runs of bytes that are copied, and
references to entities.  A run is copied only when it ends, so the loop remembers where it began.

Joined, the segments are the text escaped as XML asks for it (`pangoEscape_segments`), and decoding
gives back the string (`pangoEscape_decodes`).
-/

namespace Luastatus.I3

open Text (Byte Bytes ch lit)
open Libsafe LibLs

/-- The switch of `pango_escape`; nothing in the default case. -/
def pangoEsc (c : Byte) : Option Bytes :=
  if c = ch '&' then some (lit "&amp;")
  else if c = ch '<' then some (lit "&lt;")
  else if c = ch '>' then some (lit "&gt;")
  else if c = ch '\'' then some (lit "&apos;")
  else if c = ch '"' then some (lit "&quot;")
  else none

variable {σ : Type}

/-- The loop of `pango_escape`, from index `i` on, and the call after it. -/
def pangoEscapeLoop (append : σ → Bytes → σ) (v : Bytes) (i prev : Nat) (ud : σ) :
    Except AssertFailure σ :=
  if i < v.length then do
    match pangoEsc (← safevAt v i) with
    | none => pangoEscapeLoop append v (i + 1) prev ud
    | some esc =>
        let ud := append ud (← safevSubspan v prev i)
        pangoEscapeLoop append v (i + 1) (i + 1) (append ud esc)
  else do
    return append ud (← safevSuffix v prev)
termination_by v.length - i

/-- `pango_escape`: the callback's data after it. -/
def pangoEscape (append : σ → Bytes → σ) (ud : σ) (v : Bytes) : Except AssertFailure σ :=
  pangoEscapeLoop append v 0 0 ud

/-- `append_to_lua_buf`. -/
def appendToLuaBuf (b segment : Bytes) : Bytes := b ++ segment

/-- `l_pango_escape`: the string that is pushed. -/
def lPangoEscape (s : Bytes) : Except AssertFailure Bytes := pangoEscape appendToLuaBuf [] s

/-! ## What is passed to the callback -/

/-- The switch knows the characters that have an entity. -/
theorem pangoEsc_eq (c : Byte) : pangoEsc c = (Xml.Entity.ofChar? c).map Xml.Entity.ref := by
  unfold pangoEsc
  split_ifs with hamp hlt hgt hapos hquot
  · rw [hamp]
    rfl
  · rw [hlt]
    rfl
  · rw [hgt]
    rfl
  · rw [hapos]
    rfl
  · rw [hquot]
    rfl
  · have hnone : Xml.Entity.ofChar? c = none := by
      refine List.find?_eq_none.mpr fun e _ he => ?_
      have hc : e.char = c := of_decide_eq_true he
      cases e with
      | amp => exact hamp hc.symm
      | lt => exact hlt hc.symm
      | gt => exact hgt hc.symm
      | apos => exact hapos hc.symm
      | quot => exact hquot hc.symm
    rw [hnone]
    rfl

theorem escapeByte_of_some {c : Byte} {esc : Bytes} (h : pangoEsc c = some esc) :
    Xml.escapeByte c = esc := by
  rw [pangoEsc_eq] at h
  obtain ⟨e, he, rfl⟩ := Option.map_eq_some_iff.mp h
  rw [Xml.escapeByte, he]

theorem escapeByte_of_none {c : Byte} (h : pangoEsc c = none) : Xml.escapeByte c = [c] := by
  rw [pangoEsc_eq] at h
  rw [Xml.escapeByte, Option.map_eq_none_iff.mp h]

/-- From index `i` on, the segments make up the bytes from `prev` on that are still to be copied,
and the escaped rest.  They do not depend on the callback. -/
theorem pangoEscapeLoop_segments (v l : Bytes) :
    ∀ i prev : Nat, v.drop i = l → prev ≤ i → i ≤ v.length →
      ∃ segments : List Bytes,
        segments.flatten = (v.drop prev).take (i - prev) ++ Xml.escape l ∧
        ∀ {σ : Type} (append : σ → Bytes → σ) (ud : σ),
          pangoEscapeLoop append v i prev ud = .ok (segments.foldl append ud) := by
  induction l with
  | nil =>
      intro i prev hl hprev hi
      have hge : v.length ≤ i := List.drop_eq_nil_iff.mp hl
      refine ⟨[v.drop prev], ?_, ?_⟩
      · rw [List.take_of_length_le (by rw [List.length_drop]; omega)]
        simp [Xml.escape]
      · intro σ append ud
        rw [pangoEscapeLoop, if_neg (by omega), safevSuffix_eq (by omega)]
        rfl
  | cons c cs ih =>
      intro i prev hl hprev hi
      have hlt := lt_length_of_drop hl
      have hl₁ := drop_succ_of_drop hl
      cases hesc : pangoEsc c with
      | some esc =>
          obtain ⟨segments, hflat, hrun⟩ := ih (i + 1) (i + 1) hl₁ (Nat.le_refl _) hlt
          refine ⟨(v.drop prev).take (i - prev) :: esc :: segments, ?_, ?_⟩
          · rw [List.flatten_cons, List.flatten_cons, hflat, Nat.sub_self, List.take_zero,
              List.nil_append, Xml.escape_cons, escapeByte_of_some hesc]
          · intro σ append ud
            rw [pangoEscapeLoop, if_pos hlt, safevAt_eq hl, ok_bind, hesc]
            dsimp only
            rw [safevSubspan_eq hprev hi, ok_bind, hrun]
            rfl
      | none =>
          obtain ⟨segments, hflat, hrun⟩ := ih (i + 1) prev hl₁ (by omega) hlt
          refine ⟨segments, ?_, ?_⟩
          · rw [hflat, take_succ_of_drop hprev hl, Xml.escape_cons, escapeByte_of_none hesc,
              List.append_assoc]
          · intro σ append ud
            rw [pangoEscapeLoop, if_pos hlt, safevAt_eq hl, ok_bind, hesc]
            exact hrun append ud

/-- `pango_escape` fails no assertion.  Whatever the callback does with the segments, joined they
are the escaped string. -/
theorem pangoEscape_segments (v : Bytes) :
    ∃ segments : List Bytes, segments.flatten = Xml.escape v ∧
      ∀ {σ : Type} (append : σ → Bytes → σ) (ud : σ),
        pangoEscape append ud v = .ok (segments.foldl append ud) := by
  obtain ⟨segments, hflat, hrun⟩ :=
    pangoEscapeLoop_segments v v 0 0 rfl (Nat.le_refl 0) (Nat.zero_le _)
  exact ⟨segments, hflat, fun append ud => hrun append ud⟩

/-- What `l_pango_escape` returns. -/
theorem lPangoEscape_eq (s : Bytes) : lPangoEscape s = .ok (Xml.escape s) := by
  obtain ⟨segments, hflat, hrun⟩ := pangoEscape_segments s
  have hfold : segments.foldl appendToLuaBuf [] = [] ++ (segments.map id).flatten :=
    List.foldl_append_eq_append ..
  rw [lPangoEscape, hrun, hfold, List.map_id, hflat, List.nil_append]

/-! ## The round trip -/

/-- Decoding the entities in the output gives back the string.  The output contains none of the
special characters but ampersands, and each of them starts a reference. -/
theorem pangoEscape_decodes (v : Bytes) :
    ∃ t, lPangoEscape v = .ok t ∧ Xml.decode t = some v ∧
      (ch '<' ∉ t ∧ ch '>' ∉ t ∧ ch '\'' ∉ t ∧ ch '"' ∉ t) ∧
      ∀ before after, t = before ++ ch '&' :: after →
        ∃ e : Xml.Entity, e.ref <+: ch '&' :: after := by
  have hquotable : Xml.Quotable (Xml.escape v) := Xml.quotable_escape v
  have hraw (e : Xml.Entity) (he : e ≠ .amp) : e.char ∉ Xml.escape v := hquotable.notMem he
  refine ⟨Xml.escape v, lPangoEscape_eq v, Xml.decode_escape v, ?_, ?_⟩
  · exact ⟨hraw .lt (by decide), hraw .gt (by decide), hraw .apos (by decide),
      hraw .quot (by decide)⟩
  · exact fun before after ht => hquotable.amp ht

end Luastatus.I3

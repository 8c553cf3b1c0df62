import Luastatus.Lemonbar.Routing
import Luastatus.Lib.Lines

/-!
# Escaping for lemonbar

`escape` doubles the percent signs of a text and passes it to a callback in segments.
`luastatus.barlib.escape` is its binding for Lua.

Where a text has been escaped, every percent sign that `append_sanitized` looks at is followed by
another one, so it inserts no index (`appendSanitized_escaped`), and the text that is left has no
markup in it (`markupTags_doubled`).
-/

namespace Luastatus.Lemonbar

open Text (Byte Bytes ch lit)
open Libsafe LibLs

/-! ## The code -/

variable {σ : Type}

/-- `escape`: the callback's data after it. -/
def escape (append : σ → Bytes → σ) (ud : σ) (v : Bytes) : Except AssertFailure σ :=
  match safevIndexOf v (ch '%') with
  | none => .ok (append ud v)
  | some i =>
      match safevSubspan v 0 i with
      | .error e => .error e
      | .ok segment =>
          match _hrest : safevSuffix v (i + 1) with
          | .error e => .error e
          | .ok rest => escape append (append (append ud segment) (lit "%%")) rest
termination_by v.length
decreasing_by exact safevSuffix_length_lt (Nat.succ_pos i) _hrest

/-- `append_to_lua_buf_callback`. -/
def appendToLuaBuf (b segment : Bytes) : Bytes := b ++ segment

/-- `l_escape`: the string that is pushed. -/
def lEscape (s : Bytes) : Except AssertFailure Bytes := escape appendToLuaBuf [] s

/-! ## What is written -/

/-- What becomes of a byte. -/
def doubleByte (c : Byte) : Bytes := if c = ch '%' then [ch '%', ch '%'] else [c]

/-- A text with its percent signs doubled. -/
def doubled (s : Bytes) : Bytes := s.flatMap doubleByte

theorem doubled_percent (s : Bytes) : doubled (ch '%' :: s) = ch '%' :: ch '%' :: doubled s := rfl

theorem doubled_cons_of_ne {c : Byte} (hc : c ≠ ch '%') (s : Bytes) :
    doubled (c :: s) = c :: doubled s := by
  rw [doubled, List.flatMap_cons, doubleByte, if_neg hc]
  rfl

theorem doubled_of_not_mem {s : Bytes} (h : ch '%' ∉ s) : doubled s = s := by
  induction s with
  | nil => rfl
  | cons c s ih =>
      have hc : c ≠ ch '%' := fun he => h (he ▸ List.mem_cons_self)
      rw [doubled_cons_of_ne hc, ih fun hm => h (List.mem_cons_of_mem c hm)]

theorem doubled_append (s t : Bytes) : doubled (s ++ t) = doubled s ++ doubled t :=
  List.flatMap_append

/-- `escape` fails no assertion.  The segments do not depend on the callback, and joined they are
the text with its percent signs doubled. -/
theorem escape_segments (v : Bytes) :
    ∃ segments : List Bytes, segments.flatten = doubled v ∧
      ∀ {σ : Type} (append : σ → Bytes → σ) (ud : σ),
        escape append ud v = .ok (segments.foldl append ud) := by
  induction v using Lines.delim_induction (ch '%') with
  | rest v h =>
      refine ⟨[v], by simp [doubled_of_not_mem h], ?_⟩
      intro σ append ud
      rw [escape, safevIndexOf_of_not_mem h]
      rfl
  | chunk l r hl ih =>
      obtain ⟨segments, hflat, hrun⟩ := ih
      refine ⟨l :: lit "%%" :: segments, ?_, ?_⟩
      · rw [List.flatten_cons, List.flatten_cons, hflat, doubled_append, doubled_of_not_mem hl]
        rfl
      · intro σ append ud
        have hseg : safevSubspan (l ++ ch '%' :: r) 0 l.length = .ok l := by
          rw [safevSubspan_eq (Nat.zero_le _) (by simp)]
          simp
        have hsuf : safevSuffix (l ++ ch '%' :: r) (l.length + 1) = .ok r := by
          rw [safevSuffix_eq (by simp)]
          simp
        rw [escape, safevIndexOf_append_cons hl]
        simp only [hseg]
        split
        · rename_i hfail
          rw [hsuf] at hfail
          cases hfail
        · rename_i rest hrest
          cases Except.ok.inj (hsuf.symm.trans hrest)
          rw [hrun]
          rfl

/-- What `l_escape` returns. -/
theorem lEscape_eq (s : Bytes) : lEscape s = .ok (doubled s) := by
  obtain ⟨segments, hflat, hrun⟩ := escape_segments s
  have hfold : segments.foldl appendToLuaBuf [] = [] ++ (segments.map id).flatten :=
    List.foldl_append_eq_append ..
  rw [lEscape, hrun, hfold, List.map_id, hflat, List.nil_append]

/-! ## Markup in a text -/

/-- The markup tags of a text, each with what follows its opening brace.  lemonbar reads the text
from left to right, and `%%` is a percent sign. -/
def markupTags : Bytes → List Bytes
  | [] => []
  | [_] => []
  | c :: d :: cs =>
      if c = ch '%' then
        if d = ch '%' then markupTags cs
        else if d = ch '\x7b' then cs :: markupTags (d :: cs)
        else markupTags (d :: cs)
      else markupTags (d :: cs)

/-- The text that is left when every `%%` is replaced by `%`, from left to right. -/
def undouble : Bytes → Bytes
  | [] => []
  | [c] => [c]
  | c :: d :: cs =>
      if c = ch '%' ∧ d = ch '%' then ch '%' :: undouble cs else c :: undouble (d :: cs)

theorem markupTags_percent (cs : Bytes) :
    markupTags (ch '%' :: ch '%' :: cs) = markupTags cs := rfl

theorem markupTags_cons_of_ne {c : Byte} (hc : c ≠ ch '%') (cs : Bytes) :
    markupTags (c :: cs) = markupTags cs := by
  cases cs with
  | nil => rfl
  | cons d cs => rw [markupTags, if_neg hc]

theorem undouble_percent (cs : Bytes) :
    undouble (ch '%' :: ch '%' :: cs) = ch '%' :: undouble cs := rfl

theorem undouble_cons_of_ne {c : Byte} (hc : c ≠ ch '%') (cs : Bytes) :
    undouble (c :: cs) = c :: undouble cs := by
  cases cs with
  | nil => rfl
  | cons d cs => rw [undouble, if_neg fun h => hc h.1]

/-- A text without markup tags has no openers of action tags. -/
theorem openers_of_markupTags_eq_nil {s : Bytes} (h : markupTags s = []) : openers id s = [] := by
  have hpercent : id (ch '%') = ch '%' := rfl
  induction s using text_induction with
  | nil => rfl
  | percent cs ih =>
      rw [openers_percent hpercent hpercent]
      exact ih h
  | tag cs ht ih =>
      obtain ⟨y, z, zs, rfl, hy, -⟩ := ht.exists_cons
      rw [show y = ch '\x7b' from hy] at h
      exact absurd h (List.cons_ne_nil _ _)
  | lone cs ht hd ih =>
      rw [openers_lone hpercent ht (by rwa [Option.map_id])]
      cases cs with
      | nil => exact ih h
      | cons d cs =>
          have hne : d ≠ ch '%' := fun he => hd (by rw [List.head?_cons, he])
          rw [markupTags, if_pos rfl, if_neg hne] at h
          split at h
          · cases h
          · exact ih h
  | other c cs hc ih =>
      rw [openers_cons_of_ne hc]
      rw [markupTags_cons_of_ne hc] at h
      exact ih h

/-- An escaped text has no markup in it. -/
theorem markupTags_doubled (s : Bytes) : markupTags (doubled s) = [] := by
  induction s with
  | nil => rfl
  | cons c s ih =>
      by_cases hc : c = ch '%'
      · rw [hc, doubled_percent, markupTags_percent, ih]
      · rw [doubled_cons_of_ne hc, markupTags_cons_of_ne hc, ih]

theorem undouble_doubled (s : Bytes) : undouble (doubled s) = s := by
  induction s with
  | nil => rfl
  | cons c s ih =>
      by_cases hc : c = ch '%'
      · rw [hc, doubled_percent, undouble_percent, ih]
      · rw [doubled_cons_of_ne hc, undouble_cons_of_ne hc, ih]

/-! ## Sanitizing an escaped text -/

/-- In an escaped text no place is marked for the index: the scan of `append_sanitized` passes over
both bytes of a doubled percent sign at once, so it never sets `a_tag`. -/
theorem marks_doubled (s : Bytes) :
    marks false (doubled s) = (doubled (stripNewlines s)).map (·, false) := by
  induction s with
  | nil => rfl
  | cons c s ih =>
      by_cases hc : c = ch '%'
      · rw [hc, doubled_percent, marks_percent, ih, stripNewlines_percent, doubled_percent]
        rfl
      · have hnext : nextTag false c = false := by
          rw [nextTag]
          split <;> rfl
        rw [doubled_cons_of_ne hc, marks_other hc, hnext, ih, markByte, Bool.and_false]
        by_cases hnl : c = ch '\n'
        · rw [if_pos hnl, hnl]
          rfl
        · have hstrip : stripNewlines (c :: s) = c :: stripNewlines s :=
            List.filter_cons_of_pos (decide_eq_true hnl)
          rw [if_neg hnl, hstrip, doubled_cons_of_ne hc]
          rfl

/-- Nothing is inserted where no place is marked. -/
theorem expand_map_false (ins s : Bytes) : expand ins (s.map (·, false)) = s := by
  rw [expand, List.flatMap_map]
  exact List.flatMap_singleton' s

theorem appendSanitized_doubled (buf : Bytes) (widgetIdx : Nat) (s : Bytes) :
    appendSanitized buf widgetIdx (doubled s) = .ok (buf ++ doubled (stripNewlines s)) := by
  rw [appendSanitized_eq, marks_doubled, expand_map_false]

/-- What `escape` writes is inert.  `append_sanitized` turns it into what `escape` writes for the
text without its newlines, whatever the index of the widget is; no markup is left in it, and with
every `%%` replaced by `%` it is the text without its newlines. -/
theorem appendSanitized_escaped (s : Bytes) :
    ∃ t u, lEscape s = .ok t ∧ lEscape (stripNewlines s) = .ok u ∧
      (∀ buf widgetIdx, appendSanitized buf widgetIdx t = .ok (buf ++ u)) ∧
      markupTags u = [] ∧ openerTails u = [] ∧ undouble u = stripNewlines s := by
  have htags := markupTags_doubled (stripNewlines s)
  refine ⟨_, _, lEscape_eq s, lEscape_eq _, fun buf widgetIdx =>
    appendSanitized_doubled buf widgetIdx s, htags, ?_, undouble_doubled _⟩
  rw [openerTails, openers_of_markupTags_eq_nil htags]
  rfl

end Luastatus.Lemonbar

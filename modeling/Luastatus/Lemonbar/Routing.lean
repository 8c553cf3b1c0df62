import Luastatus.Lemonbar.MarkupUtils
import Luastatus.Lemonbar.Openers

/-!
# Routing of clicks in the lemonbar barlib

A click on an area reaches the widget whose index stands at the beginning of the area's command.
So every opener of what `append_sanitized` writes must be followed by the index of the widget
(`RoutingSafe`).

`append_sanitized` decides where to insert the index by scanning the text with its newlines.
lemonbar scans the text without them.  The two scans can differ: the newline in a `%`, newline,
`{A:` hides an opener from the first scan.  `marks` is the text without its newlines, each byte with
whether the index is inserted after it.  The openers of the output are those of the text without
newlines (`openers_expand`), and the marked colons are those of the text with newlines
(`marks_flag_iff`).

`appendSanitized_routing_iff` says when the output is safe: if and only if deleting the newlines
makes no new opener, or only such that the text already gives the index of the widget
(`NoNewOpener`).
-/

namespace Luastatus.Lemonbar

open Text (Byte Bytes ch lit decimal)
open Libsafe LibLs

/-! ## The marked text -/

/-- A byte that is copied, and whether the index is inserted after it. -/
abbrev Mark := Byte × Bool

/-- What is copied of a byte other than a percent sign. -/
def markByte (aTag : Bool) (c : Byte) : List Mark :=
  if c = ch '\n' then [] else [(c, decide (c = ch ':') && aTag)]

/-- The flag `a_tag` after such a byte. -/
def nextTag (aTag : Bool) (c : Byte) : Bool :=
  if c = ch ':' ∨ c = ch '}' then false else aTag

/-- The text without newlines, with the places where the index is inserted. -/
def marks : Bool → Bytes → List Mark
  | _, [] => []
  | aTag, [c] => markByte aTag c
  | aTag, c :: d :: cs =>
      if c = ch '%' then
        if d = ch '%' then (c, false) :: (d, false) :: marks aTag cs
        else if StartsTag id (d :: cs) then (c, false) :: marks true (d :: cs)
        else (c, false) :: marks aTag (d :: cs)
      else markByte aTag c ++ marks (nextTag aTag c) (d :: cs)

/-- The text with the insertions. -/
def expand (ins : Bytes) (ms : List Mark) : Bytes :=
  ms.flatMap fun m => m.1 :: if m.2 then ins else []

section Marks

variable {aTag : Bool} {c : Byte} {cs : Bytes}

theorem marks_percent :
    marks aTag (ch '%' :: ch '%' :: cs) = (ch '%', false) :: (ch '%', false) :: marks aTag cs :=
  rfl

theorem marks_tag (h : StartsTag id cs) :
    marks aTag (ch '%' :: cs) = (ch '%', false) :: marks true cs := by
  obtain ⟨y, z, zs, rfl, hy, _⟩ := h.exists_cons
  have hne : y ≠ ch '%' := by
    rw [show y = ch '{' from hy]
    decide
  rw [marks, if_pos rfl, if_neg hne, if_pos h]

theorem marks_lone (h : ¬ StartsTag id cs) (hd : cs.head? ≠ some (ch '%')) :
    marks aTag (ch '%' :: cs) = (ch '%', false) :: marks aTag cs := by
  cases cs with
  | nil => rfl
  | cons d cs =>
      have hne : d ≠ ch '%' := fun he => hd (by rw [List.head?_cons, he])
      rw [marks, if_pos rfl, if_neg hne, if_neg h]

theorem marks_other (hc : c ≠ ch '%') :
    marks aTag (c :: cs) = markByte aTag c ++ marks (nextTag aTag c) cs := by
  cases cs with
  | nil => rw [marks, marks, List.append_nil]
  | cons d cs => rw [marks, if_neg hc]

end Marks

/-- The text without its newlines. -/
def stripNewlines (s : Bytes) : Bytes := s.filter (· ≠ ch '\n')

theorem stripNewlines_percent (cs : Bytes) :
    stripNewlines (ch '%' :: cs) = ch '%' :: stripNewlines cs := rfl

theorem map_fst_markByte (aTag : Bool) (c : Byte) :
    (markByte aTag c).map Prod.fst = stripNewlines [c] := by
  by_cases hc : c = ch '\n' <;> simp [markByte, stripNewlines, hc]

/-- Only newlines are dropped. -/
theorem map_fst_marks (s : Bytes) (aTag : Bool) :
    (marks aTag s).map Prod.fst = stripNewlines s := by
  induction s using text_induction generalizing aTag with
  | nil => rfl
  | percent cs ih =>
      rw [marks_percent, List.map_cons, List.map_cons, ih]
      rfl
  | tag cs ht ih => rw [marks_tag ht, List.map_cons, ih, stripNewlines_percent]
  | lone cs ht hd ih => rw [marks_lone ht hd, List.map_cons, ih, stripNewlines_percent]
  | other c cs hc ih =>
      rw [marks_other hc, List.map_append, map_fst_markByte, ih, stripNewlines, stripNewlines,
        stripNewlines, ← List.filter_append, List.singleton_append]

/-- The index is inserted after colons only. -/
def ColonsOnly (ms : List Mark) : Prop := ∀ m ∈ ms, m.2 = true → m.1 = ch ':'

theorem ColonsOnly.cons {c : Byte} {ms : List Mark} (h : ColonsOnly ms) :
    ColonsOnly ((c, false) :: ms) := by
  intro m hm hflag
  cases List.mem_cons.mp hm with
  | inl he =>
      subst he
      cases hflag
  | inr hm => exact h m hm hflag

theorem ColonsOnly.tail {m : Mark} {ms : List Mark} (h : ColonsOnly (m :: ms)) : ColonsOnly ms :=
  fun m' hm => h m' (List.mem_cons_of_mem m hm)

theorem colonsOnly_markByte (aTag : Bool) (c : Byte) : ColonsOnly (markByte aTag c) := by
  intro m hm hflag
  rw [markByte] at hm
  split at hm
  · cases hm
  · cases List.mem_singleton.mp hm
    simp only [Bool.and_eq_true, decide_eq_true_eq] at hflag
    exact hflag.1

theorem colonsOnly_marks (s : Bytes) (aTag : Bool) : ColonsOnly (marks aTag s) := by
  induction s using text_induction generalizing aTag with
  | nil =>
      intro m hm
      cases hm
  | percent cs ih =>
      rw [marks_percent]
      exact (ih aTag).cons.cons
  | tag cs ht ih =>
      rw [marks_tag ht]
      exact (ih true).cons
  | lone cs ht hd ih =>
      rw [marks_lone ht hd]
      exact (ih aTag).cons
  | other c cs hc ih =>
      rw [marks_other hc]
      intro m hm hflag
      cases List.mem_append.mp hm with
      | inl hm => exact colonsOnly_markByte aTag c m hm hflag
      | inr hm => exact ih _ m hm hflag

/-! ## What the loop writes -/

section Loop

variable {v cs : Bytes} {c : Byte} {i prev : Nat}

theorem peek_startsTag (h : v.drop i = c :: cs) :
    safevAtOr v (i + 1) 0 = ch '{' ∧ safevAtOr v (i + 2) 0 = ch 'A' ↔ StartsTag id cs := by
  rw [safevAtOr_add, safevAtOr_add, h]
  match cs with
  | [] => simp [StartsTag]; decide
  | [d] => simp [StartsTag]; intro _; decide
  | d :: e :: cs => simp [StartsTag]

theorem peek_percent (h : v.drop i = c :: cs) :
    safevAtOr v (i + 1) 0 = ch '%' ↔ cs.head? = some (ch '%') := by
  rw [safevAtOr_add, h]
  cases cs with
  | nil => simp; decide
  | cons d cs => simp

/-- The loop at a percent sign. -/
theorem sanitizeLoop_percent (widgetIdx : Nat) (aTag : Bool) (buf : Bytes)
    (h : v.drop i = ch '%' :: cs) :
    sanitizeLoop widgetIdx v i prev aTag buf =
      if StartsTag id cs then sanitizeLoop widgetIdx v (i + 1) prev true buf
      else if cs.head? = some (ch '%') then sanitizeLoop widgetIdx v (i + 2) prev aTag buf
      else sanitizeLoop widgetIdx v (i + 1) prev aTag buf := by
  rw [sanitizeLoop, if_pos (lt_length_of_drop h), safevAt_eq h, ok_bind]
  simp only [peek_startsTag h, peek_percent h]
  rw [if_neg (by decide), if_pos trivial]

/-- The loop at a byte other than a percent sign. -/
theorem sanitizeLoop_other (widgetIdx : Nat) (aTag : Bool) (buf : Bytes)
    (h : v.drop i = c :: cs) (hc : c ≠ ch '%') (hprev : prev ≤ i) :
    sanitizeLoop widgetIdx v i prev aTag buf =
      if c = ch '\n' then
        sanitizeLoop widgetIdx v (i + 1) (i + 1) aTag (buf ++ (v.drop prev).take (i - prev))
      else if c = ch ':' ∧ aTag = true then
        sanitizeLoop widgetIdx v (i + 1) (i + 1) false
          (buf ++ (v.drop prev).take (i + 1 - prev) ++ tag widgetIdx)
      else sanitizeLoop widgetIdx v (i + 1) prev (nextTag aTag c) buf := by
  have hlt := lt_length_of_drop h
  rw [sanitizeLoop, if_pos hlt, safevAt_eq h, ok_bind]
  simp only
  rw [safevSubspan_eq hprev (Nat.le_of_lt hlt), safevSubspan_eq (by omega) hlt, if_neg hc]
  by_cases hnl : c = ch '\n'
  · rw [if_pos hnl, if_pos hnl]
    rfl
  · rw [if_neg hnl, if_neg hnl]
    by_cases hcolon : c = ch ':'
    · cases aTag <;> simp [hcolon, nextTag, ok_bind]
    · by_cases hbrace : c = ch '}'
      · have hne : ch '}' ≠ ch ':' := by decide
        simp [hbrace, hne, nextTag]
      · simp [hcolon, hbrace, nextTag]

end Loop

/-- From index `i` on, the loop writes the marked text with the insertions, after the bytes from
`prev` on that are still to be copied. -/
theorem sanitizeLoop_eq (widgetIdx : Nat) (v : Bytes) (l : Bytes) :
    ∀ (i prev : Nat) (aTag : Bool) (buf : Bytes), v.drop i = l → prev ≤ i → i ≤ v.length →
      sanitizeLoop widgetIdx v i prev aTag buf =
        .ok (buf ++ (v.drop prev).take (i - prev) ++ expand (tag widgetIdx) (marks aTag l)) := by
  induction l using text_induction with
  | nil =>
      intro i prev aTag buf hl hprev hi
      have hge : v.length ≤ i := List.drop_eq_nil_iff.mp hl
      rw [sanitizeLoop, if_neg (by omega), safevSuffix_eq (by omega),
        ← subspan_append_drop v hprev, hl, List.append_nil, marks]
      simp [ok_bind, expand, pure, Except.pure]
  | percent cs ih =>
      intro i prev aTag buf hl hprev hi
      have hl₁ := drop_succ_of_drop hl
      have hl₂ := drop_succ_of_drop hl₁
      have hlt := lt_length_of_drop hl₁
      have htag : ¬ StartsTag id (ch '%' :: cs) := by
        intro ht
        obtain ⟨y, z, zs, he, hy, _⟩ := ht.exists_cons
        cases he
        exact absurd hy (by decide)
      rw [sanitizeLoop_percent widgetIdx aTag buf hl, if_neg htag, if_pos List.head?_cons,
        ih (i + 2) prev aTag buf hl₂ (by omega) (by omega),
        take_succ_of_drop (by omega) hl₁, take_succ_of_drop hprev hl, marks_percent]
      simp [expand]
  | tag cs ht ih =>
      intro i prev aTag buf hl hprev hi
      have hlt := lt_length_of_drop hl
      rw [sanitizeLoop_percent widgetIdx aTag buf hl, if_pos ht,
        ih (i + 1) prev true buf (drop_succ_of_drop hl) (by omega) (by omega),
        take_succ_of_drop hprev hl, marks_tag ht]
      simp [expand]
  | lone cs ht hd ih =>
      intro i prev aTag buf hl hprev hi
      have hlt := lt_length_of_drop hl
      rw [sanitizeLoop_percent widgetIdx aTag buf hl, if_neg ht, if_neg hd,
        ih (i + 1) prev aTag buf (drop_succ_of_drop hl) (by omega) (by omega),
        take_succ_of_drop hprev hl, marks_lone ht hd]
      simp [expand]
  | other c cs hc ih =>
      intro i prev aTag buf hl hprev hi
      have hlt := lt_length_of_drop hl
      have hl₁ := drop_succ_of_drop hl
      rw [sanitizeLoop_other widgetIdx aTag buf hl hc hprev, marks_other hc]
      by_cases hnl : c = ch '\n'
      · rw [if_pos hnl, ih (i + 1) (i + 1) aTag _ hl₁ (by omega) (by omega)]
        have hnext : nextTag aTag c = aTag := by
          rw [nextTag, if_neg]
          subst hnl
          decide
        rw [hnext, markByte, if_pos hnl]
        simp
      · rw [if_neg hnl, markByte, if_neg hnl]
        by_cases htag : c = ch ':' ∧ aTag = true
        · obtain ⟨rfl, rfl⟩ := htag
          rw [if_pos ⟨rfl, rfl⟩, ih (i + 1) (i + 1) false _ hl₁ (by omega) (by omega),
            take_succ_of_drop hprev hl]
          simp [expand, nextTag]
        · rw [if_neg htag, ih (i + 1) prev _ buf hl₁ (by omega) (by omega),
            take_succ_of_drop hprev hl]
          have hflag : (decide (c = ch ':') && aTag) = false := by
            rw [Bool.and_eq_false_iff, decide_eq_false_iff_not]
            by_cases h : c = ch ':'
            · exact .inr (Bool.eq_false_iff.mpr fun ha => htag ⟨h, ha⟩)
            · exact .inl h
          rw [hflag]
          simp [expand]

/-- `append_sanitized` fails no assertion, and this is what it appends. -/
theorem appendSanitized_eq (buf : Bytes) (widgetIdx : Nat) (v : Bytes) :
    appendSanitized buf widgetIdx v =
      .ok (buf ++ expand (tag widgetIdx) (marks false v)) := by
  rw [appendSanitized,
    sanitizeLoop_eq widgetIdx v v 0 0 false buf rfl (Nat.le_refl 0) (Nat.zero_le _)]
  simp

/-! ## The openers of the output -/

section Expand

variable {ins : Bytes}

theorem expand_cons (m : Mark) (ms : List Mark) :
    expand ins (m :: ms) = m.1 :: ((if m.2 then ins else []) ++ expand ins ms) := by
  simp [expand]

theorem expand_cons_of_ne {m : Mark} {ms : List Mark} (h : ColonsOnly (m :: ms))
    (hm : m.1 ≠ ch ':') : expand ins (m :: ms) = m.1 :: expand ins ms := by
  have hflag : m.2 = false := Bool.eq_false_iff.mpr fun ht => hm (h m List.mem_cons_self ht)
  rw [expand_cons, hflag]
  rfl

/-- What follows an opener of the marked text, with the insertions. -/
def expandOpener (ins : Bytes) (o : Mark × List Mark) : Byte × Bytes :=
  (o.1.1, (if o.1.2 then ins else []) ++ expand ins o.2)

theorem headEnd_expand {ms : List Mark} (h : ColonsOnly ms) :
    headEnd id (expand ins ms) = (headEnd Prod.fst ms).map (expandOpener ins) := by
  induction ms with
  | nil => rfl
  | cons m ms ih =>
      by_cases hcolon : m.1 = ch ':'
      · have hcolon' : id m.1 = ch ':' := hcolon
        rw [expand_cons, headEnd, headEnd, if_pos hcolon', if_pos hcolon]
        rfl
      · have hcolon' : ¬ id m.1 = ch ':' := hcolon
        rw [expand_cons_of_ne h hcolon, headEnd, headEnd, if_neg hcolon', if_neg hcolon, ih h.tail]
        simp only [id]
        split <;> rfl

theorem head?_expand (ms : List Mark) : (expand ins ms).head? = ms.head?.map Prod.fst := by
  cases ms with
  | nil => rfl
  | cons m ms => rw [expand_cons, List.head?_cons, List.head?_cons, Option.map_some]

/-- The brace and the letter of an opener are marked text without insertions. -/
theorem expand_of_startsTag {ms : List Mark} (h : ColonsOnly ms) (ht : StartsTag Prod.fst ms) :
    StartsTag id (expand ins ms) ∧ (expand ins ms).drop 2 = expand ins (ms.drop 2) := by
  obtain ⟨y, z, zs, rfl, hy, hz⟩ := ht.exists_cons
  rw [expand_cons_of_ne h (by rw [hy]; decide), expand_cons_of_ne h.tail (by rw [hz]; decide)]
  refine ⟨?_, rfl⟩
  simp [StartsTag, hy, hz]

theorem startsTag_of_expand {ms : List Mark} (h : ColonsOnly ms)
    (ht : StartsTag id (expand ins ms)) : StartsTag Prod.fst ms := by
  obtain ⟨b, c, bs, he, hb, hc⟩ := ht.exists_cons
  cases ms with
  | nil => cases he
  | cons y ms =>
      have hy : y.1 = ch '{' := by
        rw [expand_cons, List.cons.injEq] at he
        exact he.1.trans hb
      rw [expand_cons_of_ne h (by rw [hy]; decide), List.cons.injEq] at he
      have hz : (expand ins ms).head? = some (ch 'A') := by
        rw [he.2, List.head?_cons, show c = ch 'A' from hc]
      rw [head?_expand] at hz
      cases ms with
      | nil => cases hz
      | cons z zs => simp [StartsTag, hy, Option.some.inj hz]

/-- The insertions make no opener and break none. -/
theorem openers_expand (hins : ∀ b ∈ ins, b ≠ ch '%') {ms : List Mark} (h : ColonsOnly ms) :
    openers id (expand ins ms) = (openers Prod.fst ms).map (expandOpener ins) := by
  have hpercent : ch '%' ≠ ch ':' := by decide
  induction ms using scan_induction Prod.fst with
  | nil => rfl
  | percent x y l hx hy ih =>
      have hx' : id x.1 = ch '%' := hx
      have hy' : id y.1 = ch '%' := hy
      rw [expand_cons_of_ne h (hx ▸ hpercent), expand_cons_of_ne h.tail (hy ▸ hpercent),
        openers_percent hx' hy', openers_percent hx hy, ih h.tail.tail]
  | tag x l hx ht ih =>
      have hx' : id x.1 = ch '%' := hx
      obtain ⟨ht', hdrop⟩ := expand_of_startsTag h.tail ht
      have hdrop' : ColonsOnly (l.drop 2) := fun m hm => h.tail m (List.mem_of_mem_drop hm)
      rw [expand_cons_of_ne h (hx ▸ hpercent), openers_tag hx' ht', openers_tag hx ht, hdrop,
        headEnd_expand hdrop', ih h.tail, List.map_append]
      cases headEnd Prod.fst (l.drop 2) <;> rfl
  | lone x l hx ht hy ih =>
      have hx' : id x.1 = ch '%' := hx
      have hy' : (expand ins l).head?.map id ≠ some (ch '%') := by
        rw [Option.map_id, head?_expand]
        exact hy
      rw [expand_cons_of_ne h (hx ▸ hpercent),
        openers_lone hx' (fun ht' => ht (startsTag_of_expand h.tail ht')) hy',
        openers_lone hx ht hy, ih h.tail]
  | other x l hx ih =>
      have hx' : id x.1 ≠ ch '%' := hx
      have hflag : ∀ b ∈ (if x.2 then ins else []), id b ≠ ch '%' := by
        intro b hb
        split at hb
        · exact hins b hb
        · cases hb
      rw [expand_cons, openers_cons_of_ne hx', openers_append_of_not_mem hflag,
        openers_cons_of_ne hx, ih h.tail]

/-- Up to its first colon, the text with insertions is the text. -/
theorem prefix_expand_iff {p : Bytes} (hp : ch ':' ∉ p) {ms : List Mark} (h : ColonsOnly ms) :
    p <+: expand ins ms ↔ p <+: ms.map Prod.fst := by
  induction p generalizing ms with
  | nil => simp
  | cons b p ih =>
      cases ms with
      | nil => rfl
      | cons m ms =>
          rw [expand_cons, List.map_cons, List.cons_prefix_cons, List.cons_prefix_cons]
          refine and_congr_right fun hb => ?_
          have hm : m.1 ≠ ch ':' := fun he => hp (by rw [hb, he]; exact List.mem_cons_self)
          have hflag : m.2 = false :=
            Bool.eq_false_iff.mpr fun ht => hm (h m List.mem_cons_self ht)
          rw [hflag]
          exact ih (fun hmem => hp (List.mem_cons_of_mem b hmem)) h.tail

end Expand

/-! ## The marked colons -/

/-- What follows the openers of a text, the one that has already begun included. -/
def pendingTails (aTag : Bool) (s : Bytes) : List Bytes :=
  (if aTag then ((headEnd id s).map Prod.snd).toList else []) ++ openerTails s

theorem openerTails_of_ne {c : Byte} (hc : c ≠ ch '%') (cs : Bytes) :
    openerTails (c :: cs) = openerTails cs := by
  have hc' : id c ≠ ch '%' := hc
  rw [openerTails, openers_cons_of_ne hc', openerTails]

/-- What follows an opener is shorter than the text, also without newlines. -/
theorem length_stripNewlines_openerTails {s r : Bytes} (h : r ∈ openerTails s) :
    (stripNewlines r).length < (stripNewlines s).length := by
  obtain ⟨⟨c, r⟩, ho, rfl⟩ := List.mem_map.mp h
  obtain ⟨⟨p, hp⟩, hc⟩ := openers_suffix ho
  have hc' : c = ch ':' := hc
  have hkeep : stripNewlines (c :: r) = c :: stripNewlines r := by
    rw [hc', stripNewlines, List.filter_cons_of_pos (by decide), stripNewlines]
  have hs : stripNewlines s = stripNewlines p ++ c :: stripNewlines r := by
    rw [← hkeep, ← hp, stripNewlines, stripNewlines, stripNewlines, List.filter_append]
  simp only [hs, List.length_append, List.length_cons]
  omega

theorem pendingTails_percent (aTag : Bool) (cs : Bytes) :
    pendingTails aTag (ch '%' :: ch '%' :: cs) = pendingTails aTag cs := by
  have hpercent : id (ch '%') = ch '%' := rfl
  rw [pendingTails, openerTails, openers_percent hpercent hpercent]
  rfl

theorem mem_pendingTails_tag (aTag : Bool) {cs : Bytes} (ht : StartsTag id cs) (r : Bytes) :
    r ∈ pendingTails aTag (ch '%' :: cs) ↔ r ∈ pendingTails true cs := by
  have hpercent : id (ch '%') = ch '%' := rfl
  have hhead : headEnd id (cs.drop 2) = headEnd id cs := by
    obtain ⟨y, z, zs, rfl, hy, hz⟩ := ht.exists_cons
    rw [show y = ch '{' from hy, show z = ch 'A' from hz]
    rfl
  have hskip : headEnd id (ch '%' :: cs) = headEnd id cs := rfl
  rw [pendingTails, pendingTails, openerTails, openers_tag hpercent ht, hhead, hskip,
    List.map_append]
  cases aTag <;> cases headEnd id cs <;> simp [openerTails]

theorem pendingTails_lone (aTag : Bool) {cs : Bytes} (ht : ¬ StartsTag id cs)
    (hd : cs.head? ≠ some (ch '%')) :
    pendingTails aTag (ch '%' :: cs) = pendingTails aTag cs := by
  have hpercent : id (ch '%') = ch '%' := rfl
  have hd' : cs.head?.map id ≠ some (ch '%') := by
    rw [Option.map_id]
    exact hd
  rw [pendingTails, openerTails, openers_lone hpercent ht hd']
  rfl

theorem pendingTails_other (aTag : Bool) {c : Byte} (hc : c ≠ ch '%') (hcolon : c ≠ ch ':')
    (cs : Bytes) : pendingTails aTag (c :: cs) = pendingTails (nextTag aTag c) cs := by
  have hcolon' : ¬ id c = ch ':' := hcolon
  rw [pendingTails, pendingTails, openerTails_of_ne hc, headEnd, if_neg hcolon', nextTag]
  by_cases hbrace : c = ch '}'
  · subst hbrace
    cases aTag <;> rfl
  · have hbrace' : ¬ id c = ch '}' := hbrace
    rw [if_neg hbrace', if_neg (not_or.mpr ⟨hcolon, hbrace⟩)]

theorem pendingTails_colon (aTag : Bool) (cs : Bytes) :
    pendingTails aTag (ch ':' :: cs) = (if aTag then [cs] else []) ++ openerTails cs := by
  rw [pendingTails, openerTails_of_ne (by decide)]
  cases aTag <;> rfl

/-- A mark of another byte is not the one that a suffix begins with. -/
theorem suffix_of_fst_ne {m m' : Mark} {rest ms : List Mark} (hne : m.1 ≠ m'.1)
    (h : m :: rest <:+ m' :: ms) : m :: rest <:+ ms := by
  rcases List.suffix_cons_iff.mp h with he | h
  · exact absurd (congrArg Prod.fst (List.cons.inj he).1) hne
  · exact h

/-- The colon at the head is marked inside of a tag; a later one is after fewer bytes. -/
theorem marks_flag_colon {aTag : Bool} {cs : Bytes} {m : Mark} {rest : List Mark}
    (h : m :: rest <:+ (ch ':', aTag) :: marks false cs)
    (ih : m :: rest <:+ marks false cs →
      (m.2 = true ↔ ∃ r ∈ openerTails cs, stripNewlines r = rest.map Prod.fst)) :
    m.2 = true ↔ ∃ r ∈ pendingTails aTag (ch ':' :: cs), stripNewlines r = rest.map Prod.fst := by
  rw [pendingTails_colon]
  rcases List.suffix_cons_iff.mp h with he | h
  · rw [List.cons.injEq] at he
    obtain ⟨rfl, rfl⟩ := he
    rw [map_fst_marks]
    have hshort : ∀ r ∈ openerTails cs, stripNewlines r ≠ stripNewlines cs := by
      intro r hr he
      have hlt := length_stripNewlines_openerTails hr
      rw [he] at hlt
      exact Nat.lt_irrefl _ hlt
    cases aTag with
    | true => simp
    | false =>
        refine ⟨fun hf => Bool.noConfusion hf, ?_⟩
        rintro ⟨r, hr, he⟩
        exact absurd he (hshort r hr)
  · have hne : stripNewlines cs ≠ rest.map Prod.fst := by
      intro he
      have hle := h.length_le
      have hlen := congrArg List.length (he.symm.trans (map_fst_marks cs false).symm)
      rw [List.length_map, List.length_map] at hlen
      rw [List.length_cons] at hle
      omega
    rw [ih h]
    constructor
    · rintro ⟨r, hr, he⟩
      exact ⟨r, List.mem_append_right _ hr, he⟩
    · rintro ⟨r, hr, he⟩
      rcases List.mem_append.mp hr with hr | hr
      · cases aTag with
        | false => cases hr
        | true =>
            cases List.mem_singleton.mp hr
            exact absurd he hne
      · exact ⟨r, hr, he⟩

/-- A colon of the text without newlines is marked if and only if it ends an opener of the text
with newlines. -/
theorem marks_flag_iff (s : Bytes) :
    ∀ (aTag : Bool) {m : Mark} {rest : List Mark}, m :: rest <:+ marks aTag s → m.1 = ch ':' →
      (m.2 = true ↔ ∃ r ∈ pendingTails aTag s, stripNewlines r = rest.map Prod.fst) := by
  have hskip {m : Mark} {rest ms : List Mark} (hm : m.1 = ch ':')
      (h : m :: rest <:+ (ch '%', false) :: ms) : m :: rest <:+ ms :=
    suffix_of_fst_ne (by rw [hm]; decide) h
  induction s using text_induction with
  | nil =>
      intro aTag m rest h _
      rw [marks] at h
      exact absurd (List.suffix_nil.mp h) (List.cons_ne_nil _ _)
  | percent cs ih =>
      intro aTag m rest h hm
      rw [marks_percent] at h
      rw [pendingTails_percent]
      exact ih aTag (hskip hm (hskip hm h)) hm
  | tag cs ht ih =>
      intro aTag m rest h hm
      rw [marks_tag ht] at h
      simp only [mem_pendingTails_tag aTag ht]
      exact ih true (hskip hm h) hm
  | lone cs ht hd ih =>
      intro aTag m rest h hm
      rw [marks_lone ht hd] at h
      rw [pendingTails_lone aTag ht hd]
      exact ih aTag (hskip hm h) hm
  | other c cs hc ih =>
      intro aTag m rest h hm
      rw [marks_other hc] at h
      by_cases hcolon : c = ch ':'
      · subst hcolon
        exact marks_flag_colon h fun h => ih false h hm
      · rw [pendingTails_other aTag hc hcolon]
        refine ih (nextTag aTag c) ?_ hm
        rw [markByte] at h
        split at h
        · exact h
        · exact suffix_of_fst_ne (by rw [hm]; exact Ne.symm hcolon) h

/-! ## When the output is safe -/

/-- A click on an area of the text reaches the widget. -/
structure RoutingSafe (widgetIdx : Nat) (out : Bytes) : Prop where
  no_newline : ch '\n' ∉ out
  openers : ∀ r ∈ openerTails out, tag widgetIdx <+: r
  command : ∀ c, ch '\n' ∉ c → parseCommand (tag widgetIdx ++ c) = some (widgetIdx, c)

/-- Every opener of the text without newlines is an opener of the text, or already gives the index
of the widget. -/
def NoNewOpener (widgetIdx : Nat) (s : Bytes) : Prop :=
  ∀ r ∈ openerTails (stripNewlines s),
    (∃ r' ∈ openerTails s, stripNewlines r' = r) ∨ tag widgetIdx <+: r

theorem mem_tag {widgetIdx : Nat} {b : Byte} (h : b ∈ tag widgetIdx) :
    b ≠ ch '%' ∧ b ≠ ch ':' ∧ b ≠ ch '\n' := by
  rw [tag] at h
  cases List.mem_append.mp h with
  | inl h =>
      have hdigit := Text.mem_decimal h
      refine ⟨?_, ?_, ?_⟩ <;> rintro rfl <;> exact absurd hdigit (by decide)
  | inr h =>
      rw [List.mem_singleton.mp h]
      decide

theorem newline_not_mem_expand (widgetIdx : Nat) (s : Bytes) (aTag : Bool) :
    ch '\n' ∉ expand (tag widgetIdx) (marks aTag s) := by
  intro h
  obtain ⟨m, hm, hb⟩ := List.mem_flatMap.mp h
  cases List.mem_cons.mp hb with
  | inl he =>
      have hmem : m.1 ∈ stripNewlines s := by
        rw [← map_fst_marks s aTag]
        exact List.mem_map_of_mem hm
      rw [← he] at hmem
      simp [stripNewlines] at hmem
  | inr hb =>
      split at hb
      · exact (mem_tag hb).2.2 rfl
      · cases hb

/-- Every opener of the output gives the index if and only if the newlines hide no opener. -/
theorem openers_tagged_iff (widgetIdx : Nat) (s : Bytes) :
    (∀ r ∈ openerTails (expand (tag widgetIdx) (marks false s)), tag widgetIdx <+: r) ↔
      NoNewOpener widgetIdx s := by
  have hcolons := colonsOnly_marks s false
  have hins : ∀ b ∈ tag widgetIdx, b ≠ ch '%' := fun b hb => (mem_tag hb).1
  have hcolon : ch ':' ∉ tag widgetIdx := fun h => (mem_tag h).2.1 rfl
  have hout : openerTails (expand (tag widgetIdx) (marks false s)) =
      (openers Prod.fst (marks false s)).map fun o => (expandOpener (tag widgetIdx) o).2 := by
    rw [openerTails, openers_expand hins hcolons, List.map_map]
    rfl
  have htext : openerTails (stripNewlines s) =
      (openers Prod.fst (marks false s)).map fun o => o.2.map Prod.fst := by
    rw [openerTails, ← map_fst_marks s false, openers_map, List.map_map]
    rfl
  rw [NoNewOpener, hout, htext, List.forall_mem_map, List.forall_mem_map]
  refine forall₂_congr fun o ho => ?_
  obtain ⟨hsuffix, hm⟩ := openers_suffix ho
  have hrest : ColonsOnly o.2 := by
    have hall : ColonsOnly (o.1 :: o.2) := fun m hmem => hcolons m (hsuffix.subset hmem)
    exact hall.tail
  have hflag := marks_flag_iff s false hsuffix hm
  have hpending : pendingTails false s = openerTails s := rfl
  rw [hpending] at hflag
  rw [← hflag, expandOpener]
  cases o.1.2 with
  | true => simp
  | false => simp [prefix_expand_iff hcolon hrest]

/-- What `append_sanitized` writes is safe if and only if deleting the newlines makes no new
opener. -/
theorem appendSanitized_routing_iff {widgetIdx : Nat} (hidx : widgetIdx ≤ intMax) (s : Bytes) :
    (∃ out, appendSanitized [] widgetIdx s = .ok out ∧ RoutingSafe widgetIdx out) ↔
      NoNewOpener widgetIdx s := by
  rw [appendSanitized_eq, List.nil_append, ← openers_tagged_iff]
  constructor
  · rintro ⟨out, he, hsafe⟩
    cases he
    exact hsafe.openers
  · intro h
    exact ⟨_, rfl, newline_not_mem_expand widgetIdx s false, h,
      fun c _ => parseCommand_tag hidx c⟩

/-- A text without newlines is safe. -/
theorem noNewOpener_of_no_newline (widgetIdx : Nat) {s : Bytes} (h : ch '\n' ∉ s) :
    NoNewOpener widgetIdx s := by
  have hs : stripNewlines s = s := by
    refine List.filter_eq_self.mpr fun b hb => decide_eq_true fun he => h (he ▸ hb)
  intro r hr
  rw [hs] at hr
  refine .inl ⟨r, hr, ?_⟩
  refine List.filter_eq_self.mpr fun b hb => decide_eq_true fun he => ?_
  obtain ⟨o, ho, rfl⟩ := List.mem_map.mp hr
  exact h (he ▸ (openers_suffix ho).1.subset (List.mem_cons_of_mem _ hb))

/-- An action tag in a text without newlines. -/
theorem appendSanitized_routing_action :
    ∃ out, appendSanitized [] 7 (lit "%\x7bA:play:\x7d") = .ok out ∧ RoutingSafe 7 out :=
  (appendSanitized_routing_iff (by decide) _).mpr (noNewOpener_of_no_newline 7 (by decide))

/-- A newline after the percent sign hides an opener, and a click on it goes to another widget. -/
theorem appendSanitized_forged :
    appendSanitized [] 0 (lit "%\n\x7bA:1_x:\x7d") = .ok (lit "%\x7bA:1_x:\x7d") ∧
      openerTails (lit "%\x7bA:1_x:\x7d") = [lit "1_x:\x7d"] ∧
      parseCommand (lit "1_x") = some (1, lit "x") ∧
      ¬ ∀ widgetIdx, widgetIdx ≤ intMax → ∀ s, ∃ out,
        appendSanitized [] widgetIdx s = .ok out ∧ RoutingSafe widgetIdx out := by
  have hout : appendSanitized [] 0 (lit "%\n\x7bA:1_x:\x7d") =
      .ok (lit "%\x7bA:1_x:\x7d") := by
    rw [appendSanitized_eq]
    exact congrArg Except.ok (by decide)
  have htails : openerTails (lit "%\x7bA:1_x:\x7d") = [lit "1_x:\x7d"] := by decide
  refine ⟨hout, htails, by decide, fun h => ?_⟩
  obtain ⟨out, he, hsafe⟩ := h 0 (by decide) (lit "%\n\x7bA:1_x:\x7d")
  rw [hout] at he
  cases he
  have htag := hsafe.openers (lit "1_x:\x7d") (by rw [htails]; exact List.mem_singleton_self _)
  exact absurd htag (by decide)

end Luastatus.Lemonbar

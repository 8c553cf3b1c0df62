import Luastatus.Barlib.ArrayReturn
import Luastatus.Lemonbar.Display

/-!
# Arrays of strings in the lemonbar barlib

`append_sanitized` starts anew with every string of an array, and the separator is not sanitized.
So an opener that lies in several strings, or partly in a separator, gets the index of the widget
if the strings are joined first, and does not get it if they are returned as an array; and an opener
that lies in one string may be none of the joined string, if the string before it ends with a
percent sign.

The marked text of the array (`markedParts`) and that of the joined string are compared by what
follows the marked colons (`flaggedTails`).  Both texts can be read off what is written
(`eq_of_expand`), so they are the same if and only if what is written is.
-/

namespace Luastatus.Lemonbar

open Text (Byte Bytes ch lit)
open Lua Join Barlib

/-! ## Reading the marks off the output -/

section Expand

variable {ins : Bytes} {ms ms' : List Mark}

/-- The output agrees with the text up to the first colon. -/
theorem takeWhile_expand (ins : Bytes) (h : ColonsOnly ms) :
    (expand ins ms).takeWhile (· ≠ ch ':') = (ms.map Prod.fst).takeWhile (· ≠ ch ':') := by
  induction ms with
  | nil => rfl
  | cons m ms ih =>
      by_cases hcolon : m.1 = ch ':'
      · rw [expand_cons, List.map_cons, List.takeWhile_cons_of_neg (by simpa using hcolon),
          List.takeWhile_cons_of_neg (by simpa using hcolon)]
      · rw [expand_cons_of_ne h hcolon, List.map_cons,
          List.takeWhile_cons_of_pos (by simpa using hcolon),
          List.takeWhile_cons_of_pos (by simpa using hcolon), ih h.tail]

/-- The insertions bring no colon. -/
theorem count_expand (hins : ch ':' ∉ ins) (ms : List Mark) :
    (expand ins ms).count (ch ':') = (ms.map Prod.fst).count (ch ':') := by
  induction ms with
  | nil => rfl
  | cons m ms ih =>
      have hflag : (if m.2 then ins else []).count (ch ':') = 0 := by
        rw [List.count_eq_zero]
        split
        · exact hins
        · exact List.not_mem_nil
      rw [expand_cons, List.map_cons, List.count_cons, List.count_cons, List.count_append, hflag,
        Nat.zero_add, ih]

/-- An insertion is longer than what stands before the next colon. -/
theorem insertion_ne (hne : ins ≠ []) (hins : ch ':' ∉ ins) (h : ColonsOnly ms)
    (h' : ColonsOnly ms') (hbase : ms.map Prod.fst = ms'.map Prod.fst) :
    ins ++ expand ins ms ≠ expand ins ms' := by
  intro he
  have hlen := congrArg (fun s => (s.takeWhile (· ≠ ch ':')).length) he
  rw [List.takeWhile_append_of_pos fun b hb => by simpa using fun he : b = ch ':' => hins (he ▸ hb),
    takeWhile_expand ins h, takeWhile_expand ins h', hbase, List.length_append] at hlen
  have := List.length_pos_iff.mpr hne
  omega

/-- The output of a text shows where the insertions are. -/
theorem expand_injective (hne : ins ≠ []) (hins : ch ':' ∉ ins) (h : ColonsOnly ms)
    (h' : ColonsOnly ms') (hbase : ms.map Prod.fst = ms'.map Prod.fst)
    (he : expand ins ms = expand ins ms') : ms = ms' := by
  induction ms generalizing ms' with
  | nil => exact (List.map_eq_nil_iff.mp hbase.symm).symm
  | cons m ms ih =>
      cases ms' with
      | nil => cases hbase
      | cons m' ms' =>
          obtain ⟨c, flag⟩ := m
          obtain ⟨c', flag'⟩ := m'
          rw [List.map_cons, List.map_cons, List.cons.injEq] at hbase
          obtain ⟨rfl, hbase⟩ := hbase
          rw [expand_cons, expand_cons, List.cons.injEq] at he
          have he := he.2
          cases flag <;> cases flag'
          · rw [ih h.tail h'.tail hbase he]
          · exact absurd he.symm (insertion_ne hne hins h'.tail h.tail hbase.symm)
          · exact absurd he (insertion_ne hne hins h.tail h'.tail hbase)
          · rw [ih h.tail h'.tail hbase (List.append_cancel_left he)]

/-- The output of a text is not that of a longer one that ends with it. -/
theorem eq_of_expand (hne : ins ≠ []) (hins : ch ':' ∉ ins) (h : ColonsOnly ms)
    (h' : ColonsOnly ms') {lost : Bytes} (hbase : ms.map Prod.fst = lost ++ ms'.map Prod.fst)
    (he : expand ins ms = expand ins ms') : lost = [] ∧ ms = ms' := by
  have hcount := congrArg (List.count (ch ':')) he
  rw [count_expand hins, count_expand hins, hbase, List.count_append] at hcount
  have hmem : ch ':' ∉ lost := List.count_eq_zero.mp (by omega)
  have hlen := congrArg (fun s => (s.takeWhile (· ≠ ch ':')).length) he
  rw [takeWhile_expand ins h, takeWhile_expand ins h', hbase,
    List.takeWhile_append_of_pos fun b hb => by simpa using fun he : b = ch ':' => hmem (he ▸ hb),
    List.length_append] at hlen
  have hlost : lost = [] := List.length_eq_zero_iff.mp (by omega)
  rw [hlost, List.nil_append] at hbase
  exact ⟨hlost, expand_injective hne hins h h' hbase he⟩

end Expand

/-! ## What follows the marks -/

/-- What follows the marked colons of a text. -/
def flaggedTails : List Mark → List Bytes
  | [] => []
  | m :: ms => (if m.2 then [ms.map Prod.fst] else []) ++ flaggedTails ms

theorem mem_flaggedTails {r : Bytes} {ms : List Mark} :
    r ∈ flaggedTails ms ↔
      ∃ m rest, m :: rest <:+ ms ∧ m.2 = true ∧ rest.map Prod.fst = r := by
  induction ms with
  | nil =>
      refine ⟨fun h => absurd h List.not_mem_nil, ?_⟩
      rintro ⟨m, rest, h, -⟩
      exact absurd (List.suffix_nil.mp h) (List.cons_ne_nil m rest)
  | cons m ms ih =>
      rw [flaggedTails, List.mem_append, ih]
      constructor
      · rintro (h | ⟨m', rest, h, hflag⟩)
        · split at h
          · exact ⟨m, ms, List.suffix_refl _, ‹_›, (List.mem_singleton.mp h).symm⟩
          · cases h
        · exact ⟨m', rest, h.trans (List.suffix_cons m ms), hflag⟩
      · rintro ⟨m', rest, h, hflag, hr⟩
        cases List.suffix_cons_iff.mp h with
        | inl he =>
            obtain ⟨rfl, rfl⟩ := List.cons.inj he
            rw [if_pos hflag]
            exact .inl (List.mem_singleton.mpr hr.symm)
        | inr h => exact .inr ⟨m', rest, h, hflag, hr⟩

theorem length_flaggedTails {r : Bytes} {ms : List Mark} (h : r ∈ flaggedTails ms) :
    r.length < ms.length := by
  obtain ⟨m, rest, hsuffix, -, rfl⟩ := mem_flaggedTails.mp h
  rw [List.length_map]
  exact hsuffix.length_le

theorem map_fst_not_mem_flaggedTails {ms ms' : List Mark}
    (h : ms.map Prod.fst = ms'.map Prod.fst) : ms.map Prod.fst ∉ flaggedTails ms' := by
  intro hmem
  have hlt := length_flaggedTails hmem
  rw [h, List.length_map] at hlt
  exact Nat.lt_irrefl _ hlt

/-- A text and what follows its marks determine the marks. -/
theorem eq_of_flaggedTails {ms ms' : List Mark} (hbase : ms.map Prod.fst = ms'.map Prod.fst)
    (h : ∀ r, r ∈ flaggedTails ms ↔ r ∈ flaggedTails ms') : ms = ms' := by
  induction ms generalizing ms' with
  | nil => exact (List.map_eq_nil_iff.mp hbase.symm).symm
  | cons m ms ih =>
      cases ms' with
      | nil => cases hbase
      | cons m' ms' =>
          obtain ⟨c, flag⟩ := m
          obtain ⟨c', flag'⟩ := m'
          rw [List.map_cons, List.map_cons, List.cons.injEq] at hbase
          obtain ⟨rfl, hbase⟩ := hbase
          have hlong : ms.map Prod.fst ∉ flaggedTails ms := map_fst_not_mem_flaggedTails rfl
          have hlong' : ms.map Prod.fst ∉ flaggedTails ms' := map_fst_not_mem_flaggedTails hbase
          simp only [flaggedTails, List.mem_append, ← hbase] at h
          -- the longest tail tells whether the first byte is marked
          have hflag : flag = flag' := by
            have := h (ms.map Prod.fst)
            cases flag <;> cases flag' <;> simp [hlong, hlong'] at this ⊢
          subst hflag
          rw [ih hbase fun r => ?_]
          by_cases hr : r = ms.map Prod.fst
          · rw [hr]
            exact iff_of_false hlong hlong'
          · have := h r
            cases flag <;> simpa [hr] using this

theorem flaggedTails_append (ms ms' : List Mark) :
    flaggedTails (ms ++ ms') =
      (flaggedTails ms).map (· ++ ms'.map Prod.fst) ++ flaggedTails ms' := by
  induction ms with
  | nil => rfl
  | cons m ms ih =>
      rw [List.cons_append, flaggedTails, ih, flaggedTails, List.map_append, List.map_append,
        List.append_assoc]
      cases m.2 <;> rfl

/-- A text without marks. -/
def plain (s : Bytes) : List Mark := s.map (·, false)

@[simp] theorem map_fst_plain (s : Bytes) : (plain s).map Prod.fst = s := by
  simp [plain, Function.comp_def]

@[simp] theorem flaggedTails_plain (s : Bytes) : flaggedTails (plain s) = [] := by
  induction s with
  | nil => rfl
  | cons c s ih => exact ih

@[simp] theorem expand_plain (ins s : Bytes) : expand ins (plain s) = s := by
  induction s with
  | nil => rfl
  | cons c s ih => exact congrArg (c :: ·) ih

theorem stripNewlines_append (a b : Bytes) :
    stripNewlines (a ++ b) = stripNewlines a ++ stripNewlines b := List.filter_append ..

theorem stripNewlines_colon (s : Bytes) :
    stripNewlines (ch ':' :: s) = ch ':' :: stripNewlines s := rfl

/-- The marked colons of a string are those of its openers. -/
theorem mem_flaggedTails_marks {s r : Bytes} :
    r ∈ flaggedTails (marks false s) ↔ ∃ r' ∈ openerTails s, stripNewlines r' = r := by
  rw [mem_flaggedTails]
  constructor
  · rintro ⟨m, rest, h, hflag, rfl⟩
    have hcolon := colonsOnly_marks s false m (h.subset List.mem_cons_self) hflag
    exact (marks_flag_iff s false h hcolon).mp hflag
  · rintro ⟨r', hr', rfl⟩
    obtain ⟨⟨c, r'⟩, ho, rfl⟩ := List.mem_map.mp hr'
    obtain ⟨⟨p, hp⟩, hc⟩ := openers_suffix ho
    have hc' : c = ch ':' := hc
    have hbase : (marks false s).map Prod.fst =
        stripNewlines p ++ ch ':' :: stripNewlines r' := by
      rw [map_fst_marks, ← hp, hc', stripNewlines_append, stripNewlines_colon]
    obtain ⟨ms, ms', hms, -, hrest⟩ := List.map_eq_append_iff.mp hbase
    obtain ⟨m, rest, rfl, hm, hrest⟩ := List.map_eq_cons_iff.mp hrest
    have hsuffix : m :: rest <:+ marks false s := ⟨ms, hms.symm⟩
    exact ⟨m, rest, hsuffix, (marks_flag_iff s false hsuffix hm).mpr ⟨r', hr', hrest.symm⟩, hrest⟩

/-! ## Joined strings -/

variable {sep : Bytes} {parts strings : List Bytes}

/-- What follows the openers that lie inside single strings, if the strings are joined. -/
def placedTails (sep : Bytes) : List Bytes → List Bytes
  | [] => []
  | p :: ps => (openerTails p).map (· ++ ps.flatMap (sep ++ ·)) ++ placedTails sep ps

/-- The openers of the joined string are those that lie inside the strings of the array. -/
def KeepsOpeners (sep : Bytes) (strings : List Bytes) : Prop :=
  ∀ r, r ∈ openerTails (joinNonempty sep strings) ↔ r ∈ placedTails sep (nonempty strings)

/-- The marked text of an array. -/
def markedParts (sep : Bytes) (parts : List Bytes) : List Mark :=
  (plain sep).intercalate (parts.map (marks false))

theorem expand_markedParts (ins sep : Bytes) (parts : List Bytes) :
    expand ins (markedParts sep parts) =
      sep.intercalate (parts.map fun s => expand ins (marks false s)) := by
  rw [markedParts, map_intercalate (f := expand ins) fun _ _ => List.flatMap_append,
    expand_plain, List.map_map]
  rfl

theorem map_fst_markedParts (sep : Bytes) (parts : List Bytes) :
    (markedParts sep parts).map Prod.fst = sep.intercalate (parts.map stripNewlines) := by
  rw [markedParts, map_intercalate fun _ _ => List.map_append, map_fst_plain, List.map_map]
  exact congrArg sep.intercalate (List.map_congr_left fun s _ => map_fst_marks s false)

theorem stripNewlines_intercalate (hsep : ch '\n' ∉ sep) (parts : List Bytes) :
    stripNewlines (sep.intercalate parts) = sep.intercalate (parts.map stripNewlines) := by
  have hkeep : stripNewlines sep = sep :=
    List.filter_eq_self.mpr fun b hb => by simpa using fun he : b = ch '\n' => hsep (he ▸ hb)
  rw [map_intercalate stripNewlines_append, hkeep]

theorem colonsOnly_markedParts (sep : Bytes) (parts : List Bytes) :
    ColonsOnly (markedParts sep parts) := by
  intro m hm hflag
  rcases mem_intercalate hm with hm | ⟨ms, hms, hm⟩
  · obtain ⟨c, -, rfl⟩ := List.mem_map.mp hm
    cases hflag
  · obtain ⟨s, -, rfl⟩ := List.mem_map.mp hms
    exact colonsOnly_marks s false m hm hflag

/-- The marked colons of an array are those of the openers inside its strings. -/
theorem mem_flaggedTails_markedParts (hsep : ch '\n' ∉ sep) {r : Bytes} :
    r ∈ flaggedTails (markedParts sep parts) ↔
      ∃ r' ∈ placedTails sep parts, stripNewlines r' = r := by
  have hbase (ps : List Bytes) : (ps.flatMap fun p => plain sep ++ marks false p).map Prod.fst =
      stripNewlines (ps.flatMap (sep ++ ·)) := by
    have := (map_fst_markedParts sep ([] :: ps)).trans (stripNewlines_intercalate hsep _).symm
    rw [markedParts, List.map_cons, intercalate_cons, intercalate_cons, List.flatMap_map] at this
    exact this
  have hcons (p : Bytes) (ps : List Bytes) (hps : r ∈ flaggedTails (ps.flatMap fun p =>
      plain sep ++ marks false p) ↔ ∃ r' ∈ placedTails sep ps, stripNewlines r' = r) :
      r ∈ flaggedTails (marks false p ++ ps.flatMap fun p => plain sep ++ marks false p) ↔
        ∃ r' ∈ placedTails sep (p :: ps), stripNewlines r' = r := by
    rw [flaggedTails_append, List.mem_append, hps, hbase, List.mem_map, placedTails]
    simp only [List.mem_append, List.mem_map, mem_flaggedTails_marks]
    constructor
    · rintro (⟨-, ⟨t, ht, rfl⟩, rfl⟩ | ⟨r', hr', he⟩)
      · exact ⟨_, .inl ⟨t, ht, rfl⟩, stripNewlines_append t _⟩
      · exact ⟨r', .inr hr', he⟩
    · rintro ⟨r', ⟨t, ht, rfl⟩ | hr', he⟩
      · exact .inl ⟨_, ⟨t, ht, rfl⟩, (stripNewlines_append t _).symm.trans he⟩
      · exact .inr ⟨r', hr', he⟩
  have hflat (ps : List Bytes) : r ∈ flaggedTails (ps.flatMap fun p =>
      plain sep ++ marks false p) ↔ ∃ r' ∈ placedTails sep ps, stripNewlines r' = r := by
    induction ps with
    | nil => simp [flaggedTails, placedTails]
    | cons p ps ih =>
        rw [List.flatMap_cons, List.append_assoc, flaggedTails_append, flaggedTails_plain]
        exact hcons p ps ih
  cases parts with
  | nil => simp [markedParts, flaggedTails, placedTails]
  | cons p ps =>
      rw [markedParts, List.map_cons, intercalate_cons, List.flatMap_map]
      exact hcons p ps (hflat ps)

/-- An opener inside a string ends with a colon of the joined string. -/
theorem placedTails_suffix {r : Bytes} (h : r ∈ placedTails sep parts) :
    ch ':' :: r <:+ sep.intercalate parts := by
  induction parts with
  | nil => cases h
  | cons p ps ih =>
      rw [intercalate_cons]
      rcases List.mem_append.mp h with h | h
      · obtain ⟨t, ht, rfl⟩ := List.mem_map.mp h
        obtain ⟨⟨c, t⟩, ho, rfl⟩ := List.mem_map.mp ht
        obtain ⟨⟨front, hp⟩, hc⟩ := openers_suffix ho
        have hc' : c = ch ':' := hc
        exact ⟨front, by rw [← hp, hc', List.append_assoc, List.cons_append]⟩
      · refine (ih h).trans ?_
        cases ps with
        | nil => cases h
        | cons q qs =>
            rw [intercalate_cons, List.flatMap_cons, List.append_assoc, ← List.append_assoc p]
            exact List.suffix_append _ _

theorem openerTails_suffix {r s : Bytes} (h : r ∈ openerTails s) : ch ':' :: r <:+ s := by
  obtain ⟨⟨c, t⟩, ho, rfl⟩ := List.mem_map.mp h
  obtain ⟨hs, hc⟩ := openers_suffix ho
  rwa [show c = ch ':' from hc] at hs

/-- What follows a colon of a text is known without its newlines. -/
theorem eq_of_stripNewlines {r r' s : Bytes} (h : ch ':' :: r <:+ s) (h' : ch ':' :: r' <:+ s)
    (he : stripNewlines r = stripNewlines r') : r = r' := by
  have hshort {r r' : Bytes} (h : ch ':' :: r <:+ ch ':' :: r')
      (he : stripNewlines r = stripNewlines r') : r = r' := by
    cases List.suffix_cons_iff.mp h with
    | inl h => exact List.tail_eq_of_cons_eq h
    | inr h =>
        obtain ⟨front, rfl⟩ := h
        have hlen := congrArg List.length he
        rw [stripNewlines_append, stripNewlines_colon, List.length_append, List.length_cons] at hlen
        omega
  rcases List.suffix_or_suffix_of_suffix h h' with h | h
  · exact hshort h he
  · exact (hshort h he.symm).symm

/-- The strings are marked alike, joined and as an array, if and only if the openers are kept. -/
theorem marks_eq_markedParts_iff (hsep : ch '\n' ∉ sep) :
    marks false (joinNonempty sep strings) = markedParts sep (nonempty strings) ↔
      KeepsOpeners sep strings := by
  have hjoined {r : Bytes} (h : r ∈ openerTails (joinNonempty sep strings)) :=
    openerTails_suffix h
  have hplaced {r : Bytes} (h : r ∈ placedTails sep (nonempty strings)) :
      ch ':' :: r <:+ joinNonempty sep strings := placedTails_suffix h
  constructor
  · intro he r
    have htails (r : Bytes) := (mem_flaggedTails_marks (r := r)).symm.trans
      ((iff_of_eq (congrArg (r ∈ flaggedTails ·) he)).trans (mem_flaggedTails_markedParts hsep))
    constructor
    · intro hr
      obtain ⟨r', hr', hstrip⟩ := (htails (stripNewlines r)).mp ⟨r, hr, rfl⟩
      exact eq_of_stripNewlines (hplaced hr') (hjoined hr) hstrip ▸ hr'
    · intro hr
      obtain ⟨r', hr', hstrip⟩ := (htails (stripNewlines r)).mpr ⟨r, hr, rfl⟩
      exact eq_of_stripNewlines (hjoined hr') (hplaced hr) hstrip ▸ hr'
  · intro hkeeps
    refine eq_of_flaggedTails ?_ fun r => ?_
    · rw [map_fst_marks, map_fst_markedParts]
      exact stripNewlines_intercalate hsep _
    · rw [mem_flaggedTails_marks, mem_flaggedTails_markedParts hsep]
      exact exists_congr fun r' => and_congr_left' (hkeeps r')

/-! ## The two texts -/

theorem marks_eq_nil_iff (s : Bytes) : marks false s = [] ↔ Blank s := by
  rw [← List.map_eq_nil_iff (f := Prod.fst), map_fst_marks, stripNewlines, List.filter_eq_nil_iff,
    Blank]
  simp

theorem sanitized_eq_nil_iff (widgetIdx : Nat) (s : Bytes) :
    sanitized widgetIdx s = [] ↔ Blank s := by
  rw [← marks_eq_nil_iff, sanitized]
  cases marks false s with
  | nil => simp [expand]
  | cons m ms => simp [expand_cons]

/-- The blank strings in front bring separators and no marks. -/
theorem markedParts_nonempty (sep : Bytes) (strings : List Bytes) :
    markedParts sep (nonempty strings) =
      plain (lostSeparators sep strings) ++ markedParts sep (visible strings) := by
  rw [markedParts, intercalate_blanks fun s => (marks_eq_nil_iff s).mpr, lostSeparators,
    markedParts]
  simp [plain, List.map_flatten]

/-- The array and the joined string give the same text if and only if no separator is lost and the
openers are kept. -/
theorem joinStrings_sanitized_iff (hsep : ch '\n' ∉ sep) (widgetIdx : Nat) :
    joinStrings (sanitized widgetIdx) sep [] strings =
        sanitized widgetIdx (joinNonempty sep strings) ↔
      KeepsSeparators sep strings ∧ KeepsOpeners sep strings := by
  have harray : joinStrings (sanitized widgetIdx) sep [] strings =
      expand (tag widgetIdx) (markedParts sep (visible strings)) :=
    (joinStrings_eq (sanitized_eq_nil_iff widgetIdx) strings).trans (expand_markedParts _ _ _).symm
  rw [harray, sanitized, ← lostSeparators_eq_nil_iff, ← marks_eq_markedParts_iff hsep,
    markedParts_nonempty]
  constructor
  · intro he
    have hne : tag widgetIdx ≠ [] := by simp [tag]
    have hins : ch ':' ∉ tag widgetIdx := fun h => (mem_tag h).2.1 rfl
    have hbase : (marks false (joinNonempty sep strings)).map Prod.fst =
        lostSeparators sep strings ++ (markedParts sep (visible strings)).map Prod.fst := by
      have hall : (marks false (joinNonempty sep strings)).map Prod.fst =
          (markedParts sep (nonempty strings)).map Prod.fst := by
        rw [map_fst_marks, map_fst_markedParts]
        exact stripNewlines_intercalate hsep _
      rw [hall, markedParts_nonempty, List.map_append, map_fst_plain]
    obtain ⟨hlost, hmarks⟩ := eq_of_expand hne hins (colonsOnly_marks _ false)
      (colonsOnly_markedParts sep _) hbase he.symm
    rw [hlost]
    exact ⟨rfl, hmarks⟩
  · rintro ⟨hlost, hmarks⟩
    rw [hmarks, hlost]
    rfl

end Luastatus.Lemonbar

import Luastatus.I3.Segment
import Luastatus.Lib.JsonText

/-!
# The output of the i3 barlib is JSON

`SegmentObject` says which JSON object a segment is to become.  A widget's buffer holds the objects
of its segments (`dataText_text`, `Holds.itemsText`), and a redraw writes the array of all of them
(`redraw_text`).  That `%.20g` writes finite numbers as JSON numbers is a hypothesis.
-/

namespace Luastatus.I3

open Text (Byte Bytes ch lit decimal)
open LibLs Lua Join Barlib Json

variable {F : Type} {n : Nat}

/-! ## Strings -/

theorem hexValue_hexDigit : ∀ d < 16, hexValue (hexDigit d) = some d := by decide

/-- An escaped byte is decoded to the byte. -/
theorem unescape_jsonEscapeByte (c : Byte) (t : Bytes) :
    unescape (jsonEscapeByte c ++ t) = (unescape t).map (c :: ·) := by
  rw [jsonEscapeByte]
  by_cases hesc : NeedsEscape c
  · have hlt : c.toNat < 128 := by
      rcases hesc with h | rfl | rfl | rfl
      · have : c.toNat < 32 := UInt8.lt_iff_toNat_lt.mp h
        omega
      · decide
      · decide
      · decide
    rw [if_pos hesc]
    exact unescape_byte hlt (hexValue_hexDigit _ (by omega)) (hexValue_hexDigit _ (by omega)) t
  · rw [if_neg hesc, List.singleton_append]
    simp only [NeedsEscape, not_or] at hesc
    exact unescape_plain hesc.1 hesc.2.2.1 hesc.2.1 t

theorem unescape_jsonEscape (s : Bytes) : unescape (jsonEscape s) = some s := by
  induction s with
  | nil => rfl
  | cons c cs ih =>
      rw [jsonEscape, List.flatMap_cons, unescape_jsonEscapeByte]
      rw [jsonEscape] at ih
      rw [ih, Option.map_some]

/-- What the barlib writes for a string is a JSON text of it. -/
theorem quoted_text (s : Bytes) : StringText s (quoted s) := .mk (unescape_jsonEscape s)

/-! ## What is to be written -/

/-- The JSON value of an entry's value. -/
def entryValue (fmt : NumFormat F) : Arg F → Option (Value Bytes)
  | .number x => if fmt.isFinite x then some (.number (fmt.g20 x)) else none
  | .string s => some (.string s)
  | .boolean b => some (.boolean b)
  | .nil => some .null
  | _ => none

/-- The member of the object that carries an entry. -/
def EntryMember (fmt : NumFormat F) (e : ArgKey × Arg F) (m : Bytes × Value Bytes) : Prop :=
  e.1 = .str m.1 ∧ entryValue fmt e.2 = some m.2

/-- The object of a segment: the widget's index as the name, the entries other than `name` in their
order, and that there is no separator, if the option says so and the segment does not speak of
it. -/
inductive SegmentObject (o : Options F) (widgetIdx : Nat) (entries : Entries F) :
    Value Bytes → Prop where
  | mk : List.Forall₂ (EntryMember o.fmt) (entries.filter (·.1 ≠ .str (lit "name"))) ms →
      SegmentObject o widgetIdx entries (.object
        ((lit "name", .string (decimal widgetIdx)) :: ms ++
          if o.noseps = true ∧ ∀ e ∈ entries, e.1 ≠ .str (lit "separator") then
            [(lit "separator", .boolean false)]
          else []))

/-- The segments among the values of an array. -/
def tablesIn : List (Arg F) → List (Entries F)
  | [] => []
  | .table _ entries :: values => entries :: tablesIn values
  | _ :: values => tablesIn values

/-- The segments of a widget's result. -/
def segmentsOf : Arg F → List (Entries F)
  | .table len entries =>
      match classifyTable entries with
      | .empty => []
      | .dict => [entries]
      | .array => tablesIn (arrayValues len entries)
  | _ => []

/-- The entries of a segment that `append_segment` accepts. -/
def ValidSegment (fmt : NumFormat F) (entries : Entries F) : Prop :=
  ∀ e ∈ entries, ∃ s, e.1 = .str s ∧ (entryValue fmt e.2).isSome

/-- A value of an array that `set()` accepts. -/
def ValidItem (fmt : NumFormat F) : Arg F → Prop
  | .nil => True
  | .table _ entries => ValidSegment fmt entries
  | _ => False

/-- The data that `set()` accepts. -/
def ValidData (fmt : NumFormat F) : Arg F → Prop
  | .nil => True
  | .table len entries =>
      match classifyTable entries with
      | .empty => True
      | .dict => ValidSegment fmt entries
      | .array => ∀ value ∈ arrayValues len entries, ValidItem fmt value
  | _ => False

/-- No key has a NUL in it. -/
def NulFreeKeys (entries : Entries F) : Prop := ∀ e ∈ entries, ∀ s, e.1 = .str s → 0 ∉ s

/-- The object has one member `name`, and it is the widget's index. -/
def OneName (widgetIdx : Nat) : Value Bytes → Prop
  | .object ms =>
      ms.filter (·.1 = lit "name") = [(lit "name", .string (decimal widgetIdx))]
  | _ => False

/-- The object that stands for an error. -/
def errorObject (noseps : Bool) : Value Bytes :=
  .object ([(lit "full_text", .string (lit "(Error)")), (lit "color", .string (lit "#ff0000")),
    (lit "background", .string (lit "#000000"))] ++
      if noseps then [(lit "separator", .boolean false)] else [])

/-! ## The text of a segment -/

section Segment

variable {fmt : NumFormat F} {o : Options F} {widgetIdx : Nat}

/-- A member and the text of its value. -/
def MemberTexts (m : Bytes × Value Bytes) (t : Bytes × Bytes) : Prop := m.1 = t.1 ∧ Text m.2 t.2

theorem MemberTexts.member {m : Bytes × Value Bytes} {t : Bytes × Bytes}
    (h : MemberTexts m t) : MemberText m (memberText t) :=
  ⟨quoted t.1, t.2, h.1 ▸ quoted_text m.1, h.2, rfl⟩

theorem objectText_text {ms : List (Bytes × Value Bytes)} {ts : List (Bytes × Bytes)}
    (h : List.Forall₂ MemberTexts ms ts) : Text (.object ms) (objectText ts) :=
  .object (.intercalate (List.forall₂_map_right_iff.mpr (h.imp fun _ _ => MemberTexts.member)))

theorem valueText_text (hnum : ∀ x, fmt.isFinite x = true → IsNumber (fmt.g20 x)) {value : Arg F}
    {t : Bytes} (h : valueText fmt value = some t) :
    ∃ v, entryValue fmt value = some v ∧ Text v t := by
  cases value with
  | number x =>
      rw [valueText] at h
      split at h
      · rename_i hfin
        cases h
        exact ⟨_, if_pos hfin, .number (hnum x hfin)⟩
      · cases h
  | string s =>
      cases h
      exact ⟨_, rfl, .string (quoted_text s)⟩
  | boolean b =>
      cases h
      exact ⟨_, rfl, .boolean⟩
  | nil =>
      cases h
      exact ⟨_, rfl, .null⟩
  | table len entries => cases h
  | other => cases h

/-- The texts of the entries are the texts of the members that carry them. -/
theorem entryTexts_text (hnum : ∀ x, fmt.isFinite x = true → IsNumber (fmt.g20 x)) :
    ∀ (entries : Entries F) (ts : List (Bytes × Bytes)), NulFreeKeys entries →
      entryTexts fmt entries = some ts → ∃ ms : List (Bytes × Value Bytes),
        List.Forall₂ (EntryMember fmt) (entries.filter (·.1 ≠ .str (lit "name"))) ms ∧
          List.Forall₂ MemberTexts ms ts
  | [], ts, _, h => by
      cases h
      exact ⟨[], .nil, .nil⟩
  | (k, value) :: entries, ts, hnul, h => by
      obtain ⟨hk, hrest⟩ := List.forall_mem_cons.mp hnul
      cases k with
      | str s =>
          rw [entryTexts, cstr_eq (hk s rfl)] at h
          by_cases hname : s = lit "name"
          · rw [if_pos hname] at h
            rw [List.filter_cons_of_neg (by simp [hname])]
            exact entryTexts_text hnum entries ts hrest h
          · rw [if_neg hname] at h
            obtain ⟨t, ht, h⟩ := Option.bind_eq_some_iff.mp h
            obtain ⟨ts, hts, h⟩ := Option.bind_eq_some_iff.mp h
            cases h
            obtain ⟨v, hv, htext⟩ := valueText_text hnum ht
            obtain ⟨ms, hms, htexts⟩ := entryTexts_text hnum entries ts hrest hts
            rw [List.filter_cons_of_pos (by simp [hname])]
            exact ⟨(s, v) :: ms, .cons ⟨rfl, hv⟩ hms, .cons ⟨rfl, htext⟩ htexts⟩
      | index i => cases h
      | number => cases h
      | other => cases h

theorem hasSeparator_iff : ∀ (entries : Entries F) (ts : List (Bytes × Bytes)),
    NulFreeKeys entries → entryTexts fmt entries = some ts →
      (hasSeparator ts = false ↔ ∀ e ∈ entries, e.1 ≠ .str (lit "separator"))
  | [], ts, _, h => by
      cases h
      simp [hasSeparator]
  | (k, value) :: entries, ts, hnul, h => by
      obtain ⟨hk, hrest⟩ := List.forall_mem_cons.mp hnul
      cases k with
      | str s =>
          rw [entryTexts, cstr_eq (hk s rfl)] at h
          rw [List.forall_mem_cons]
          by_cases hname : s = lit "name"
          · rw [if_pos hname] at h
            have hne : s ≠ lit "separator" := by
              rw [hname]
              decide
            simpa [hne] using hasSeparator_iff entries ts hrest h
          · rw [if_neg hname] at h
            obtain ⟨t, ht, h⟩ := Option.bind_eq_some_iff.mp h
            obtain ⟨ts, hts, h⟩ := Option.bind_eq_some_iff.mp h
            cases h
            rw [← hasSeparator_iff entries ts hrest hts]
            simp [hasSeparator]
      | index i => cases h
      | number => cases h
      | other => cases h

/-- A segment's text is a text of its object. -/
theorem segmentText_text (hnum : ∀ x, o.fmt.isFinite x = true → IsNumber (o.fmt.g20 x))
    {entries : Entries F} {t : Bytes} (hnul : NulFreeKeys entries)
    (h : segmentText o widgetIdx entries = some t) :
    ∃ v, SegmentObject o widgetIdx entries v ∧ Text v t := by
  obtain ⟨ts, hts, rfl⟩ := Option.map_eq_some_iff.mp h
  obtain ⟨ms, hms, htexts⟩ := entryTexts_text hnum entries ts hnul hts
  refine ⟨_, .mk hms, objectText_text ?_⟩
  refine List.rel_append (.cons ⟨rfl, .string (quoted_text _)⟩ htexts) ?_
  have hsep := hasSeparator_iff entries ts hnul hts
  by_cases hadded : o.noseps = true ∧ ∀ e ∈ entries, e.1 ≠ .str (lit "separator")
  · have : (o.noseps && !hasSeparator ts) = true := by simp [hadded.1, hsep.mpr hadded.2]
    rw [if_pos hadded, if_pos this]
    exact .cons ⟨rfl, .boolean⟩ .nil
  · have : ¬ (o.noseps && !hasSeparator ts) = true := by
      simpa [hsep, -not_and] using hadded
    rw [if_neg hadded, if_neg this]
    exact .nil

theorem segmentTexts_text (hnum : ∀ x, o.fmt.isFinite x = true → IsNumber (o.fmt.g20 x)) :
    ∀ (values : List (Arg F)) (ts : List Bytes),
      (∀ entries ∈ tablesIn values, NulFreeKeys entries) →
        segmentTexts o widgetIdx values = some ts → ∃ vs,
          List.Forall₂ (SegmentObject o widgetIdx) (tablesIn values) vs ∧ List.Forall₂ Text vs ts
  | [], ts, _, h => by
      cases h
      exact ⟨[], .nil, .nil⟩
  | value :: values, ts, hnul, h => by
      cases value with
      | nil => exact segmentTexts_text hnum values ts hnul h
      | table len entries =>
          obtain ⟨t, ht, h⟩ := Option.bind_eq_some_iff.mp h
          obtain ⟨ts, hts, h⟩ := Option.bind_eq_some_iff.mp h
          cases h
          obtain ⟨hentries, hrest⟩ := List.forall_mem_cons.mp hnul
          obtain ⟨v, hv, htext⟩ := segmentText_text hnum hentries ht
          obtain ⟨vs, hvs, htexts⟩ := segmentTexts_text hnum values ts hrest hts
          exact ⟨v :: vs, .cons hv hvs, .cons htext htexts⟩
      | boolean b => cases h
      | number x => cases h
      | string s => cases h
      | other => cases h

/-- The text of the data is made of the texts of the segments' objects. -/
theorem dataText_text (hnum : ∀ x, o.fmt.isFinite x = true → IsNumber (o.fmt.g20 x))
    {data : Arg F} {t : Bytes} (hnul : ∀ entries ∈ segmentsOf data, NulFreeKeys entries)
    (h : dataText o widgetIdx data = some t) :
    ∃ vs, List.Forall₂ (SegmentObject o widgetIdx) (segmentsOf data) vs ∧ ItemsText vs t := by
  obtain ⟨ts, hts, rfl⟩ := Option.map_eq_some_iff.mp h
  suffices ∃ vs, List.Forall₂ (SegmentObject o widgetIdx) (segmentsOf data) vs ∧
      List.Forall₂ Text vs ts by
    obtain ⟨vs, hvs, htexts⟩ := this
    exact ⟨vs, hvs, .intercalate htexts⟩
  cases data with
  | nil =>
      cases hts
      exact ⟨[], .nil, .nil⟩
  | table len entries =>
      simp only [dataTexts] at hts
      simp only [segmentsOf] at hnul ⊢
      cases hclass : classifyTable entries with
      | empty =>
          rw [hclass] at hts
          cases hts
          exact ⟨[], .nil, .nil⟩
      | dict =>
          rw [hclass] at hts hnul
          obtain ⟨t, ht, rfl⟩ := Option.map_eq_some_iff.mp hts
          obtain ⟨v, hv, htext⟩ :=
            segmentText_text hnum (hnul entries (List.mem_singleton_self _)) ht
          exact ⟨[v], .cons hv .nil, .cons htext .nil⟩
      | array =>
          rw [hclass] at hts hnul
          exact segmentTexts_text hnum _ ts hnul hts
  | boolean b => cases hts
  | number x => cases hts
  | string s => cases hts
  | other => cases hts

theorem valueText_of_isSome {value : Arg F} (h : (entryValue fmt value).isSome) :
    ∃ t, valueText fmt value = some t := by
  cases value with
  | number x =>
      rw [entryValue] at h
      split at h
      · rename_i hfin
        exact ⟨_, if_pos hfin⟩
      · cases h
  | string s => exact ⟨_, rfl⟩
  | boolean b => exact ⟨_, rfl⟩
  | nil => exact ⟨_, rfl⟩
  | table len entries => cases h
  | other => cases h

theorem entryTexts_of_valid : ∀ entries : Entries F, ValidSegment fmt entries →
    ∃ ts, entryTexts fmt entries = some ts
  | [], _ => ⟨[], rfl⟩
  | (k, value) :: entries, h => by
      obtain ⟨⟨s, hkey, hvalue⟩, hrest⟩ := List.forall_mem_cons.mp h
      obtain ⟨t, ht⟩ := valueText_of_isSome hvalue
      obtain ⟨ts, hts⟩ := entryTexts_of_valid entries hrest
      rw [show k = .str s from hkey, entryTexts, ht, hts]
      split
      · exact ⟨ts, rfl⟩
      · exact ⟨_, rfl⟩

theorem segmentText_of_valid (widgetIdx : Nat) {entries : Entries F}
    (h : ValidSegment o.fmt entries) : ∃ t, segmentText o widgetIdx entries = some t := by
  obtain ⟨ts, hts⟩ := entryTexts_of_valid entries h
  exact ⟨_, by rw [segmentText, hts, Option.map_some]⟩

theorem segmentTexts_of_valid : ∀ values : List (Arg F),
    (∀ value ∈ values, ValidItem o.fmt value) →
      ∃ ts, segmentTexts o widgetIdx values = some ts
  | [], _ => ⟨[], rfl⟩
  | value :: values, h => by
      obtain ⟨hvalue, hrest⟩ := List.forall_mem_cons.mp h
      obtain ⟨ts, hts⟩ := segmentTexts_of_valid values hrest
      cases value with
      | nil => exact ⟨ts, hts⟩
      | table len entries =>
          obtain ⟨t, ht⟩ := segmentText_of_valid widgetIdx hvalue
          exact ⟨t :: ts, by rw [segmentTexts, ht, hts]; rfl⟩
      | boolean b => exact hvalue.elim
      | number x => exact hvalue.elim
      | string s => exact hvalue.elim
      | other => exact hvalue.elim

theorem dataText_of_validData (widgetIdx : Nat) {data : Arg F} (h : ValidData o.fmt data) :
    ∃ t, dataText o widgetIdx data = some t := by
  suffices ∃ ts, dataTexts o widgetIdx data = some ts by
    obtain ⟨ts, hts⟩ := this
    exact ⟨_, by rw [dataText, hts, Option.map_some]⟩
  cases data with
  | nil => exact ⟨[], rfl⟩
  | table len entries =>
      simp only [ValidData] at h
      simp only [dataTexts]
      cases hclass : classifyTable entries with
      | empty => exact ⟨[], rfl⟩
      | dict =>
          rw [hclass] at h
          obtain ⟨t, ht⟩ := segmentText_of_valid widgetIdx h
          exact ⟨[t], by simp only [ht, Option.map_some]⟩
      | array =>
          rw [hclass] at h
          exact segmentTexts_of_valid _ h
  | boolean b => exact h.elim
  | number x => exact h.elim
  | string s => exact h.elim
  | other => exact h.elim

/-- The text of an error is a text of its object. -/
theorem errorText_text (noseps : Bool) : Text (errorObject noseps) (errorText noseps) := by
  have htexts : List.Forall₂ MemberTexts
      ([(lit "full_text", .string (lit "(Error)")), (lit "color", .string (lit "#ff0000")),
        (lit "background", .string (lit "#000000"))] ++
          if noseps then [(lit "separator", .boolean false)] else [])
      ([(lit "full_text", lit "\"(Error)\""), (lit "color", lit "\"#ff0000\""),
        (lit "background", lit "\"#000000\"")] ++
          if noseps then [(lit "separator", lit "false")] else []) := by
    refine List.rel_append (.cons ⟨rfl, .string (quoted_text _)⟩
      (.cons ⟨rfl, .string (quoted_text _)⟩ (.cons ⟨rfl, .string (quoted_text _)⟩ .nil))) ?_
    cases noseps with
    | false => exact .nil
    | true => exact .cons ⟨rfl, .boolean⟩ .nil
  have heq : errorText noseps = objectText
      ([(lit "full_text", lit "\"(Error)\""), (lit "color", lit "\"#ff0000\""),
        (lit "background", lit "\"#000000\"")] ++
          if noseps then [(lit "separator", lit "false")] else []) := by
    cases noseps <;> decide
  rw [heq]
  exact objectText_text htexts

end Segment

/-! ## Buffers and lines -/

/-- How a widget's buffer came about, and the objects it is to hold. -/
inductive Holds (o : Options F) (w : Fin n) : Bytes → List (Value Bytes) → Prop where
  /-- Nothing has been set. -/
  | fresh : Holds o w [] []
  | set : set o written p w data = .ok (q, .ok) →
      (∀ entries ∈ segmentsOf data, NulFreeKeys entries) →
      List.Forall₂ (SegmentObject o w) (segmentsOf data) vs → Holds o w (q.bufs w) vs
  /-- The data were found invalid. -/
  | invalid : set o written p w data = .ok (q, .nonfatalErr) → Holds o w (q.bufs w) []
  | error : setError o written p w = (q, .ok) → Holds o w (q.bufs w) [errorObject o.noseps]

section Output

variable {o : Options F} {w : Fin n}

/-- A segment has one object. -/
theorem SegmentObject.unique {widgetIdx : Nat} {entries : Entries F} {v v' : Value Bytes}
    (h : SegmentObject o widgetIdx entries v) (h' : SegmentObject o widgetIdx entries v') :
    v = v' := by
  cases h with
  | mk hms =>
    cases h' with
    | mk hms' =>
      rw [List.right_unique_forall₂' ?_ hms hms']
      rintro e m m' ⟨hkey, hvalue⟩ ⟨hkey', hvalue'⟩
      rw [hkey] at hkey'
      rw [hvalue] at hvalue'
      exact Prod.ext (ArgKey.str.inj hkey') (Option.some.inj hvalue')

/-- What holds of every partner holds of every element. -/
theorem forall_mem_of_forall₂ {α β : Type} {R : α → β → Prop} {Q : β → Prop} {l : List α}
    {m : List β} (h : List.Forall₂ R l m) (hQ : ∀ a ∈ l, ∀ b, R a b → Q b) : ∀ b ∈ m, Q b := by
  induction h with
  | nil => nofun
  | cons hab _ ih =>
      obtain ⟨hfirst, hrest⟩ := List.forall_mem_cons.mp hQ
      exact List.forall_mem_cons.mpr ⟨hfirst _ hab, ih hrest⟩

theorem SegmentObject.oneName {widgetIdx : Nat} {entries : Entries F} {v : Value Bytes}
    (h : SegmentObject o widgetIdx entries v) : OneName widgetIdx v := by
  cases h with
  | @mk ms hms =>
    have hother : ms.filter (·.1 = lit "name") = [] := by
      rw [List.filter_eq_nil_iff]
      refine forall_mem_of_forall₂ hms fun e he m hm hname => ?_
      have hkey : e.1 = .str (lit "name") := by rw [hm.1, of_decide_eq_true hname]
      simpa [hkey] using (List.mem_filter.mp he).2
    have hsep : ¬ (lit "separator" = lit "name") := by decide
    rw [OneName, List.cons_append, List.filter_cons_of_pos (by simp), List.filter_append, hother]
    split
    · rw [List.filter_cons_of_neg (by simpa using hsep)]
      rfl
    · rfl

theorem segmentObjects_unique {widgetIdx : Nat} {segments : List (Entries F)}
    {vs vs' : List (Value Bytes)} (h : List.Forall₂ (SegmentObject o widgetIdx) segments vs)
    (h' : List.Forall₂ (SegmentObject o widgetIdx) segments vs') : vs = vs' :=
  List.right_unique_forall₂' (fun _ _ _ h h' => h.unique h') h h'

/-- A buffer that `set()` or `set_error()` produced is a text of the objects it is to hold. -/
theorem Holds.itemsText (hnum : ∀ x, o.fmt.isFinite x = true → IsNumber (o.fmt.g20 x)) {t : Bytes}
    {vs : List (Value Bytes)} (h : Holds o w t vs) : ItemsText vs t := by
  cases h with
  | fresh => exact .nil
  | set hset hnul hvs =>
      obtain ⟨t, ht, hbuf⟩ := set_bufs_of_ok (renders o) hset
      obtain ⟨vs', hvs', htext⟩ := dataText_text hnum hnul ht
      rw [hbuf, Function.update_self, segmentObjects_unique hvs hvs']
      exact htext
  | invalid hset =>
      rw [set_bufs_of_nonfatalErr (renders o) hset, Function.update_self]
      exact .nil
  | error hset =>
      rw [setError_bufs_of_ok hset, Function.update_self]
      exact .one (errorText_text o.noseps)

/-- `set()` accepts valid data. -/
theorem set_of_validData {data : Arg F} (h : ValidData o.fmt data) (p : Priv n) :
    ∃ q, set o true p w data = .ok (q, .ok) := by
  obtain ⟨t, ht⟩ := dataText_of_validData w h
  have heq := set_eq_of_some (renders o) true p (w := w) ht
  split at heq
  · exact ⟨_, heq⟩
  · exact ⟨_, heq⟩

/-- A redraw writes the array of the objects that the buffers hold. -/
theorem redraw_text (hnum : ∀ x, o.fmt.isFinite x = true → IsNumber (o.fmt.g20 x)) (p : Priv n)
    {vs : Fin n → List (Value Bytes)} (h : ∀ w, Holds o w (p.bufs w) (vs w)) :
    ∃ t, (redraw true p).1.emitted = (t ++ lit ",\n") :: p.emitted ∧
      Text (.array (List.ofFn vs).flatten) t := by
  have hitems : List.Forall₂ ItemsText (List.ofFn vs) (List.ofFn p.bufs) := by
    rw [List.ofFn_eq_map, List.ofFn_eq_map, List.forall₂_map_left_iff, List.forall₂_map_right_iff,
      List.forall₂_same]
    exact fun w _ => (h w).itemsText hnum
  refine ⟨ch '[' :: joinNonempty [ch ','] (List.ofFn p.bufs) ++ [ch ']'], ?_,
    .array (.joinNonempty hitems)⟩
  have heq : line (List.ofFn p.bufs) =
      (ch '[' :: joinNonempty [ch ','] (List.ofFn p.bufs) ++ [ch ']']) ++ lit ",\n" := by
    rw [line_eq, show lit "],\n" = [ch ']'] ++ lit ",\n" from rfl, List.append_assoc]
  rw [← heq]
  rfl

end Output

/-- `set()` accepts valid data, and what it accepts it writes as the objects of the segments, each
with the one name; a redraw of buffers that `set()` and `set_error()` produced writes a JSON text of
the array of all the objects, free of control characters, a comma and a newline. -/
theorem output_json (o : Options F)
    (hnum : ∀ x, o.fmt.isFinite x = true → IsNumber (o.fmt.g20 x)) :
    (∀ (p : Priv n) w data, (∀ entries ∈ segmentsOf data, NulFreeKeys entries) →
      (ValidData o.fmt data → ∃ q, set o true p w data = .ok (q, .ok)) ∧
      ∀ written q, set o written p w data = .ok (q, .ok) →
        ∃ vs, List.Forall₂ (SegmentObject o w) (segmentsOf data) vs ∧
          (∀ v ∈ vs, OneName w v) ∧ ItemsText vs (q.bufs w)) ∧
    ∀ (p : Priv n) (vs : Fin n → List (Value Bytes)), (∀ w, Holds o w (p.bufs w) (vs w)) →
      ∃ t, (redraw true p).1.emitted = (t ++ lit ",\n") :: p.emitted ∧
        Text (.array (List.ofFn vs).flatten) t ∧ Printable t := by
  refine ⟨fun p w data hnul => ⟨fun h => set_of_validData h p, fun written q hset => ?_⟩,
    fun p vs h => ?_⟩
  · obtain ⟨t, ht, hbufs⟩ := set_bufs_of_ok (renders o) hset
    obtain ⟨vs, hvs, htext⟩ := dataText_text hnum hnul ht
    rw [hbufs, Function.update_self]
    exact ⟨vs, hvs, forall_mem_of_forall₂ hvs fun _ _ _ h => h.oneName, htext⟩
  · obtain ⟨t, ht, htext⟩ := redraw_text hnum p h
    exact ⟨t, ht, htext, htext.printable⟩

/-- The digits as numbers, and a widget whose segment has one entry. -/
theorem output_json_digit :
    let o : Options (Fin 10) := ⟨⟨fun _ => true, fun x => [Text.digitByte x]⟩, true⟩
    ∃ q vs t, set o true (init (n := 1)) 0 (.table 0 [(.str (lit "min_width"), .number 7)]) =
        .ok (q, .ok) ∧ ItemsText vs (q.bufs 0) ∧
      (redraw true q).1.emitted = (t ++ lit ",\n") :: q.emitted ∧ Text (.array vs) t := by
  intro o
  have hnum (x : Fin 10) : IsNumber [Text.digitByte x] := by
    have hdigit : ∀ x : Fin 10, 48 ≤ Text.digitByte x ∧ Text.digitByte x ≤ 57 := by decide
    exact .mk (s := []) (i := [Text.digitByte x]) (f := []) (e := []) (.inl rfl)
      ⟨List.cons_ne_nil _ _, List.forall_mem_singleton.mpr (hdigit x)⟩ (fun _ => rfl) .none .none
  have hnul : ∀ entries ∈ segmentsOf
      (.table 0 [(.str (lit "min_width"), (.number 7 : Arg (Fin 10)))]), NulFreeKeys entries := by
    refine List.forall_mem_singleton.mpr (List.forall_mem_singleton.mpr fun s hs => ?_)
    rw [← ArgKey.str.inj hs]
    decide
  obtain ⟨hset, hredraw⟩ := output_json (n := 1) o fun x _ => hnum x
  obtain ⟨haccept, htext⟩ := hset init 0 _ hnul
  obtain ⟨q, hq⟩ := haccept (List.forall_mem_singleton.mpr ⟨_, rfl, rfl⟩)
  obtain ⟨vs, hvs, -, hitems⟩ := htext true q hq
  obtain ⟨t, ht, htext, -⟩ := hredraw q (fun _ => vs) fun w => by
    rw [Subsingleton.elim w 0]
    exact .set hq hnul hvs
  exact ⟨q, vs, t, hq, hitems, ht, by simpa using htext⟩

end Luastatus.I3

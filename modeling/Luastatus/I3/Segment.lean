import Luastatus.I3.Escape
import Luastatus.Barlib.Display

/-!
# The i3 barlib

A widget's result is a segment or an array of segments.  `append_segment` writes a segment as a JSON
object: the widget's index as the name, the entries of the table, and `"separator":false` if the
option `no_separators` is set and the table does not speak of the separator.  `redraw()` writes the
objects of all widgets as one JSON array.

`dataText` is the text that the temporary buffer gets, if the data are valid.
-/

namespace Luastatus.I3

open Text (Byte Bytes ch lit decimal)
open LibLs Lua Join Barlib

variable {F : Type} {n : Nat}

/-- The options that `set()` and `set_error()` use, and how numbers are written. -/
structure Options (F : Type) where
  fmt : NumFormat F
  noseps : Bool := false

/-! ## Segments -/

/-- `append_json_number`: the buffer after it, and whether the number is finite. -/
def appendJsonNumber (fmt : NumFormat F) (s : Bytes) (value : F) : Bytes × Bool :=
  if fmt.isFinite value then (s ++ fmt.g20 value, true) else (s, false)

/-- The switch over the type of an entry's value in `append_segment`. -/
def appendEntryValue (fmt : NumFormat F) (dst : Bytes) (value : Arg F) :
    Except AssertFailure (Bytes × Bool) :=
  match value with
  | .number x => return appendJsonNumber fmt dst x
  | .string s => do
      let dst ← appendJsonEscapedStr dst s
      return (dst, true)
  | .boolean b => return (dst ++ if b then lit "true" else lit "false", true)
  | .nil => return (dst ++ lit "null", true)
  | _ => return (dst, false)

/-- The loop over the entries in `append_segment`: the buffer after it, `has_separator_key`, and
whether all entries are valid. -/
def appendEntries (fmt : NumFormat F) :
    Entries F → Bytes → Bool → Except AssertFailure (Bytes × Bool × Bool)
  | [], dst, hasSeparatorKey => return (dst, hasSeparatorKey, true)
  | (k, value) :: entries, dst, hasSeparatorKey =>
      match k with
      | .str s => do
          let key := cstr s
          if key = lit "name" then appendEntries fmt entries dst hasSeparatorKey
          else
            let hasSeparatorKey := hasSeparatorKey || key = lit "separator"
            let dst ← appendJsonEscapedStr (dst ++ [ch ',']) key
            let (dst, valid) ← appendEntryValue fmt (dst ++ [ch ':']) value
            if valid then appendEntries fmt entries dst hasSeparatorKey
            else return (dst, hasSeparatorKey, false)
      | _ => return (dst, hasSeparatorKey, false)

/-- `append_segment`: the temporary buffer after it, and whether the segment is valid. -/
def appendSegment (o : Options F) (widgetIdx : Nat) (entries : Entries F) (dst : Bytes) :
    Except AssertFailure (Bytes × Bool) := do
  let dst := appendSep [ch ','] dst
  let dst := dst ++ lit "\x7b\"name\":\"" ++ decimal widgetIdx ++ lit "\""
  let (dst, hasSeparatorKey, valid) ← appendEntries o.fmt entries dst false
  if valid then
    let dst := if o.noseps && !hasSeparatorKey then dst ++ lit ",\"separator\":false" else dst
    return (dst ++ lit "\x7d", true)
  else return (dst, false)

/-- `TableClass`. -/
inductive TableClass where
  | empty
  | array
  | dict
deriving DecidableEq, Repr

/-- `classify_table`: the first key decides. -/
def classifyTable (entries : Entries F) : TableClass :=
  match entries with
  | [] => .empty
  | (.index _, _) :: _ => .array
  | (.number, _) :: _ => .array
  | (_, _) :: _ => .dict

/-- The loop over the values of an array in `set()`. -/
def fillArray (o : Options F) (widgetIdx : Nat) :
    List (Arg F) → Bytes → Except AssertFailure (Bytes × Bool)
  | [], dst => return (dst, true)
  | value :: values, dst =>
      match value with
      | .table _ entries => do
          let (dst, valid) ← appendSegment o widgetIdx entries dst
          if valid then fillArray o widgetIdx values dst else return (dst, false)
      | .nil => fillArray o widgetIdx values dst
      | _ => return (dst, false)

/-- The switch over the data in `set()`. -/
def fill (o : Options F) (widgetIdx : Nat) (data : Arg F) (dst : Bytes) :
    Except AssertFailure (Bytes × Bool) :=
  match data with
  | .nil => return (dst, true)
  | .table len entries =>
      match classifyTable entries with
      | .empty => return (dst, true)
      | .dict => appendSegment o widgetIdx entries dst
      | .array => fillArray o widgetIdx (arrayValues len entries) dst
  | _ => return (dst, false)

/-- What `set_error()` puts into a buffer. -/
def errorText (noseps : Bool) : Bytes :=
  lit "\x7b\"full_text\":\"(Error)\",\"color\":\"#ff0000\",\"background\":\"#000000\"" ++
    (if noseps then lit ",\"separator\":false" else []) ++ lit "\x7d"

/-! ## Drawing -/

/-- The line that `redraw()` writes. -/
def line (bufs : List Bytes) : Bytes := joinFirst [ch ','] true [ch '['] bufs ++ lit "],\n"

/-- `redraw()`. -/
def redraw : Bool → Priv n → Priv n × Bool := Barlib.redraw line

/-- What the barlib brings along. -/
def drawing (o : Options F) : Drawing F where
  fill := fill o
  errorText := errorText o.noseps
  line := line

/-- `set()`. -/
def set (o : Options F) :
    Bool → Priv n → Fin n → Arg F → Except AssertFailure (Priv n × Status) :=
  (drawing o).set

/-- `set_error()`. -/
def setError (o : Options F) : Bool → Priv n → Fin n → Priv n × Status :=
  Barlib.setError line (errorText o.noseps)

/-- The state that `init()` leaves.  The header it writes is not a line of segments. -/
def init : Priv n := ⟨fun _ => [], [], []⟩

theorem line_eq (bufs : List Bytes) :
    line bufs = ch '[' :: joinNonempty [ch ','] bufs ++ lit "],\n" := by
  rw [line, joinFirst_true, List.singleton_append]

/-! ## The text of the data -/

/-- A JSON string. -/
def quoted (s : Bytes) : Bytes := ch '"' :: jsonEscape s ++ [ch '"']

/-- A member of an object, of its key and the text of its value. -/
def memberText (m : Bytes × Bytes) : Bytes := quoted m.1 ++ ch ':' :: m.2

/-- The text of an entry's value. -/
def valueText (fmt : NumFormat F) : Arg F → Option Bytes
  | .number x => if fmt.isFinite x then some (fmt.g20 x) else none
  | .string s => some (quoted s)
  | .boolean b => some (if b then lit "true" else lit "false")
  | .nil => some (lit "null")
  | _ => none

/-- The members that the entries of a table make, those named `name` left out. -/
def entryTexts (fmt : NumFormat F) : Entries F → Option (List (Bytes × Bytes))
  | [] => some []
  | (.str s, value) :: entries =>
      if cstr s = lit "name" then entryTexts fmt entries
      else do
        let t ← valueText fmt value
        let ts ← entryTexts fmt entries
        return (cstr s, t) :: ts
  | _ :: _ => none

/-- Whether a member speaks of the separator. -/
def hasSeparator (ms : List (Bytes × Bytes)) : Bool := ms.any (·.1 = lit "separator")

/-- The members of a segment. -/
def segmentMembers (noseps : Bool) (widgetIdx : Nat) (ms : List (Bytes × Bytes)) :
    List (Bytes × Bytes) :=
  (lit "name", quoted (decimal widgetIdx)) :: ms ++
    if noseps && !hasSeparator ms then [(lit "separator", lit "false")] else []

/-- The object that some members make. -/
def objectText (ms : List (Bytes × Bytes)) : Bytes :=
  ch '\x7b' :: [ch ','].intercalate (ms.map memberText) ++ [ch '\x7d']

/-- The text of a segment. -/
def segmentText (o : Options F) (widgetIdx : Nat) (entries : Entries F) : Option Bytes :=
  (entryTexts o.fmt entries).map fun ms => objectText (segmentMembers o.noseps widgetIdx ms)

/-- The texts of the segments of an array. -/
def segmentTexts (o : Options F) (widgetIdx : Nat) : List (Arg F) → Option (List Bytes)
  | [] => some []
  | .nil :: values => segmentTexts o widgetIdx values
  | .table _ entries :: values => do
      let t ← segmentText o widgetIdx entries
      let ts ← segmentTexts o widgetIdx values
      return t :: ts
  | _ :: _ => none

/-- The texts of the segments of a widget's result. -/
def dataTexts (o : Options F) (widgetIdx : Nat) : Arg F → Option (List Bytes)
  | .nil => some []
  | .table len entries =>
      match classifyTable entries with
      | .empty => some []
      | .dict => (segmentText o widgetIdx entries).map ([·])
      | .array => segmentTexts o widgetIdx (arrayValues len entries)
  | _ => none

/-- What the temporary buffer gets: the segments, joined with commas. -/
def dataText (o : Options F) (widgetIdx : Nat) (data : Arg F) : Option Bytes :=
  (dataTexts o widgetIdx data).map [ch ','].intercalate

/-! ## What `set()` writes -/

theorem jsonEscape_of_plain {v : Bytes} (h : ∀ b ∈ v, ¬ NeedsEscape b) : jsonEscape v = v := by
  induction v with
  | nil => rfl
  | cons c cs ih =>
      have hcs := ih fun b hb => h b (List.mem_cons_of_mem c hb)
      rw [jsonEscape, List.flatMap_cons, jsonEscapeByte, if_neg (h c List.mem_cons_self)]
      rw [jsonEscape] at hcs
      rw [hcs, List.singleton_append]

/-- A decimal number needs no escapes. -/
theorem quoted_decimal (k : Nat) : quoted (decimal k) = ch '"' :: decimal k ++ [ch '"'] := by
  rw [quoted, jsonEscape_of_plain]
  intro b hb hesc
  have hdigit := Text.mem_decimal hb
  rcases hesc with h | h | h | h
  · have : b.toNat < 32 := UInt8.lt_iff_toNat_lt.mp h
    omega
  · rw [h] at hdigit
    exact absurd hdigit (by decide)
  · rw [h] at hdigit
    exact absurd hdigit (by decide)
  · rw [h] at hdigit
    exact absurd hdigit (by decide)

section Fill

variable {fmt : NumFormat F} {o : Options F} {widgetIdx : Nat}

theorem appendEntryValue_of_some {value : Arg F} {t : Bytes} (h : valueText fmt value = some t)
    (dst : Bytes) : appendEntryValue fmt dst value = .ok (dst ++ t, true) := by
  cases value with
  | number x =>
      rw [valueText] at h
      split at h
      · rename_i hfin
        cases h
        simp [appendEntryValue, appendJsonNumber, hfin, pure, Except.pure]
      · cases h
  | string s =>
      cases h
      rw [appendEntryValue, appendJsonEscapedStr_eq, ok_bind]
      rfl
  | boolean b =>
      cases h
      rfl
  | nil =>
      cases h
      rfl
  | table len entries => cases h
  | other => cases h

theorem appendEntryValue_of_none {value : Arg F} (h : valueText fmt value = none) (dst : Bytes) :
    appendEntryValue fmt dst value = .ok (dst, false) := by
  cases value with
  | number x =>
      rw [valueText] at h
      split at h
      · cases h
      · rename_i hfin
        simp [appendEntryValue, appendJsonNumber, hfin, pure, Except.pure]
  | string s => cases h
  | boolean b => cases h
  | nil => cases h
  | table len entries => rfl
  | other => rfl

/-- The loop writes a comma and the member for each entry. -/
theorem appendEntries_of_some : ∀ (entries : Entries F) (ms : List (Bytes × Bytes)) (dst : Bytes)
    (hasSeparatorKey : Bool), entryTexts fmt entries = some ms →
      appendEntries fmt entries dst hasSeparatorKey =
        .ok (dst ++ ms.flatMap (fun m => ch ',' :: memberText m),
          hasSeparatorKey || hasSeparator ms, true)
  | [], ms, dst, hasSeparatorKey, h => by
      cases h
      simp [appendEntries, hasSeparator, pure, Except.pure]
  | (k, value) :: entries, ms, dst, hasSeparatorKey, h => by
      cases k with
      | str s =>
          rw [entryTexts] at h
          rw [appendEntries]
          by_cases hname : cstr s = lit "name"
          · rw [if_pos hname] at h
            simp only [if_pos hname]
            exact appendEntries_of_some entries ms dst hasSeparatorKey h
          · rw [if_neg hname] at h
            obtain ⟨t, ht, h⟩ := Option.bind_eq_some_iff.mp h
            obtain ⟨ts, hts, h⟩ := Option.bind_eq_some_iff.mp h
            cases h
            simp only [if_neg hname, appendJsonEscapedStr_eq, ok_bind, ↓reduceIte,
              appendEntryValue_of_some ht, appendEntries_of_some entries ts _ _ hts]
            simp [memberText, quoted, hasSeparator, Bool.or_assoc]
      | index i => cases h
      | number => cases h
      | other => cases h

theorem appendEntries_of_none : ∀ (entries : Entries F) (dst : Bytes) (hasSeparatorKey : Bool),
    entryTexts fmt entries = none →
      ∃ junk b, appendEntries fmt entries dst hasSeparatorKey = .ok (junk, b, false)
  | [], _, _, h => by cases h
  | (k, value) :: entries, dst, hasSeparatorKey, h => by
      cases k with
      | str s =>
          rw [entryTexts] at h
          rw [appendEntries]
          by_cases hname : cstr s = lit "name"
          · rw [if_pos hname] at h
            simp only [if_pos hname]
            exact appendEntries_of_none entries dst hasSeparatorKey h
          · rw [if_neg hname] at h
            simp only [if_neg hname, appendJsonEscapedStr_eq, ok_bind]
            rcases ht : valueText fmt value with _ | t
            · simp only [appendEntryValue_of_none ht, ok_bind]
              exact ⟨_, _, rfl⟩
            · simp only [appendEntryValue_of_some ht, ok_bind, ↓reduceIte]
              refine appendEntries_of_none entries _ _ ?_
              rcases hts : entryTexts fmt entries with _ | ts
              · rfl
              · rw [ht, hts] at h
                cases h
      | index i => exact ⟨dst, hasSeparatorKey, rfl⟩
      | number => exact ⟨dst, hasSeparatorKey, rfl⟩
      | other => exact ⟨dst, hasSeparatorKey, rfl⟩

/-- `append_segment` puts the object behind what is there, with a comma if there is something. -/
theorem appendSegment_of_some {entries : Entries F} {t : Bytes}
    (h : segmentText o widgetIdx entries = some t) (dst : Bytes) :
    appendSegment o widgetIdx entries dst = .ok (appendSep [ch ','] dst ++ t, true) := by
  obtain ⟨ms, hms, rfl⟩ := Option.map_eq_some_iff.mp h
  have hobject : objectText (segmentMembers o.noseps widgetIdx ms) =
      lit "\x7b\"name\":\"" ++ decimal widgetIdx ++ lit "\"" ++
        ms.flatMap (fun m => ch ',' :: memberText m) ++
        (if o.noseps && !hasSeparator ms then lit ",\"separator\":false" else []) ++
        lit "\x7d" := by
    simp only [objectText, segmentMembers, List.cons_append, List.map_cons, intercalate_cons]
    rw [memberText, quoted_decimal]
    cases o.noseps && !hasSeparator ms <;>
      simp [lit, ch, quoted, jsonEscape, jsonEscapeByte, NeedsEscape, memberText, List.flatMap_map]
  rw [appendSegment, appendEntries_of_some _ _ _ _ hms, ok_bind, hobject]
  simp only [Bool.false_or, ↓reduceIte]
  split <;> simp [pure, Except.pure]

theorem appendSegment_of_none {entries : Entries F} (h : segmentText o widgetIdx entries = none)
    (dst : Bytes) : ∃ junk, appendSegment o widgetIdx entries dst = .ok (junk, false) := by
  obtain ⟨junk, b, hjunk⟩ := appendEntries_of_none entries (appendSep [ch ','] dst ++
    lit "\x7b\"name\":\"" ++ decimal widgetIdx ++ lit "\"") false (Option.map_eq_none_iff.mp h)
  exact ⟨junk, by rw [appendSegment, hjunk, ok_bind]; rfl⟩

theorem fillArray_of_some : ∀ (values : List (Arg F)) (ts : List Bytes) (dst : Bytes),
    segmentTexts o widgetIdx values = some ts →
      fillArray o widgetIdx values dst = .ok (joinOnto [ch ','] dst ts, true)
  | [], ts, dst, h => by
      cases h
      rfl
  | value :: values, ts, dst, h => by
      cases value with
      | nil => exact fillArray_of_some values ts dst h
      | table len entries =>
          obtain ⟨t, ht, h⟩ := Option.bind_eq_some_iff.mp h
          obtain ⟨ts, hts, h⟩ := Option.bind_eq_some_iff.mp h
          cases h
          simp only [fillArray, appendSegment_of_some ht, ok_bind, ↓reduceIte]
          exact fillArray_of_some values ts _ hts
      | boolean b => cases h
      | number x => cases h
      | string s => cases h
      | other => cases h

theorem fillArray_of_none : ∀ (values : List (Arg F)) (dst : Bytes),
    segmentTexts o widgetIdx values = none →
      ∃ junk, fillArray o widgetIdx values dst = .ok (junk, false)
  | [], _, h => by cases h
  | value :: values, dst, h => by
      cases value with
      | nil => exact fillArray_of_none values dst h
      | table len entries =>
          rcases ht : segmentText o widgetIdx entries with _ | t
          · obtain ⟨junk, hjunk⟩ := appendSegment_of_none ht dst
            simp only [fillArray, hjunk, ok_bind]
            exact ⟨junk, rfl⟩
          · simp only [fillArray, appendSegment_of_some ht, ok_bind, ↓reduceIte]
            refine fillArray_of_none values _ ?_
            rcases hts : segmentTexts o widgetIdx values with _ | ts
            · rfl
            · rw [segmentTexts, ht, hts] at h
              cases h
      | boolean b => exact ⟨dst, rfl⟩
      | number x => exact ⟨dst, rfl⟩
      | string s => exact ⟨dst, rfl⟩
      | other => exact ⟨dst, rfl⟩

theorem segmentText_ne_nil {entries : Entries F} {t : Bytes}
    (h : segmentText o widgetIdx entries = some t) : t ≠ [] := by
  obtain ⟨ms, -, rfl⟩ := Option.map_eq_some_iff.mp h
  exact List.cons_ne_nil _ _

theorem segmentTexts_ne_nil : ∀ (values : List (Arg F)) (ts : List Bytes),
    segmentTexts o widgetIdx values = some ts → ∀ t ∈ ts, t ≠ []
  | [], ts, h => by
      cases h
      nofun
  | value :: values, ts, h => by
      cases value with
      | nil => exact segmentTexts_ne_nil values ts h
      | table len entries =>
          obtain ⟨t, ht, h⟩ := Option.bind_eq_some_iff.mp h
          obtain ⟨ts, hts, h⟩ := Option.bind_eq_some_iff.mp h
          cases h
          exact List.forall_mem_cons.mpr
            ⟨segmentText_ne_nil ht, segmentTexts_ne_nil values ts hts⟩
      | boolean b => cases h
      | number x => cases h
      | string s => cases h
      | other => cases h

/-- The barlib renders `dataText`. -/
theorem renders (o : Options F) : (drawing o).Renders ⟨dataText o, errorText o.noseps⟩ where
  fill_of_some widgetIdx data t h := by
    obtain ⟨ts, hts, rfl⟩ := Option.map_eq_some_iff.mp h
    cases data with
    | nil =>
        cases hts
        rfl
    | table len entries =>
        simp only [dataTexts] at hts
        simp only [drawing, fill]
        cases hclass : classifyTable entries with
        | empty =>
            rw [hclass] at hts
            cases hts
            rfl
        | dict =>
            rw [hclass] at hts
            obtain ⟨t, ht, rfl⟩ := Option.map_eq_some_iff.mp hts
            rw [List.intercalate_singleton]
            exact appendSegment_of_some ht []
        | array =>
            rw [hclass] at hts
            rw [← joinOnto_nil (segmentTexts_ne_nil _ _ hts)]
            exact fillArray_of_some _ ts [] hts
    | boolean b => cases hts
    | number x => cases hts
    | string s => cases hts
    | other => cases hts
  fill_of_none widgetIdx data h := by
    have h := Option.map_eq_none_iff.mp h
    cases data with
    | nil => cases h
    | table len entries =>
        simp only [dataTexts] at h
        simp only [drawing, fill]
        cases hclass : classifyTable entries with
        | empty =>
            rw [hclass] at h
            cases h
        | dict =>
            rw [hclass] at h
            exact appendSegment_of_none (Option.map_eq_none_iff.mp h) []
        | array =>
            rw [hclass] at h
            exact fillArray_of_none _ [] h
    | boolean b => exact ⟨[], rfl⟩
    | number x => exact ⟨[], rfl⟩
    | string s => exact ⟨[], rfl⟩
    | other => exact ⟨[], rfl⟩
  errorText := rfl

end Fill

end Luastatus.I3

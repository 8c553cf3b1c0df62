import Luastatus.Lib.Bytes
import Luastatus.Lib.Lines

/-!
# The names of the keyboard layout

The `wrongly` backend of the xkb plugin reads the property `_XKB_RULES_NAMES` of the root window.
Its value is a sequence of fields, each with a NUL byte after it, and any client can set it.

Xlib puts a NUL byte behind the value, so a value of `n` bytes can be read at the indices from 0
to `n`.  A read beyond them is the failure of a computation in `Option`.

`dup_and_advance` steps over a field and the NUL byte behind it, and takes the end of the value for
the end of the fields.  If the last field has no NUL byte in the value itself, the cursor is then
one beyond the end, and the next call reads there.  `wronglyFetch_iff` says exactly when this does
not happen.
-/

namespace Luastatus.Xkb

open Text (Byte Bytes)
open Lines (lines delim_induction)

/-! ## Reading the property -/

/-- What a call of `XGetWindowProperty` returns. -/
structure Reply where
  /-- It is `Success`. -/
  success : Bool
  /-- `actual_type` is `XA_STRING`. -/
  isString : Bool
  fmt : Int
  bytesAfter : Nat
  /-- The `ndata` bytes. -/
  data : Bytes

/-- `LONG_MAX`. -/
def longMax : Nat := 2 ^ 63 - 1

/-- The loop of `wrongly_fetch`: the value of the property, unless it fails.  The calls are made one
after the other, with `maxlen` for the first one. -/
def getProperty (maxlen : Nat) : List Reply → Option Bytes
  | [] => none
  | r :: rs =>
      if r.success = false then none
      else if r.isString = false then none
      else if r.fmt ≠ 8 then none
      else if r.bytesAfter = 0 then some r.data
      else if longMax / 2 < maxlen then none
      else getProperty (maxlen * 2) rs

/-- An `Atom`; `None` is `0`. -/
abbrev Atom := Nat

/-- The first part of `wrongly_fetch`: nothing if it fails.  `rulesAtom` is what `XInternAtom`
returns. -/
def fetchProperty (rulesAtom : Atom) (replies : List Reply) : Option Bytes :=
  if rulesAtom = 0 then none else getProperty 1024 replies

/-! ## Splitting the value -/

/-- `strlen`, unless it reads beyond the memory. -/
def strlen : Bytes → Option Nat
  | [] => none
  | b :: bs => if b = 0 then some 0 else (strlen bs).map (· + 1)

/-- `dup_and_advance`: the string, or nothing for `NULL`, and the cursor.  The memory holds the
value and a NUL byte. -/
def dupAndAdvance (mem : Bytes) (end_ cur : Nat) : Option (Option Bytes × Nat) :=
  if cur = end_ then some (none, cur)
  else do
    let n ← strlen (mem.drop cur)
    return (some ((mem.drop cur).take n), cur + (n + 1))

/-- `WronglyResult`. -/
structure WronglyResult where
  rules : Option Bytes
  model : Option Bytes
  layout : Option Bytes
  options : Option Bytes
deriving DecidableEq, Repr

/-- The four calls of `dup_and_advance` in `wrongly_fetch`. -/
def splitNames (data : Bytes) : Option WronglyResult := do
  let mem := data ++ [0]
  let (rules, cur) ← dupAndAdvance mem data.length 0
  let (model, cur) ← dupAndAdvance mem data.length cur
  let (layout, cur) ← dupAndAdvance mem data.length cur
  let (options, _) ← dupAndAdvance mem data.length cur
  return ⟨rules, model, layout, options⟩

/-- How a call of `wrongly_fetch` ends. -/
inductive Fetched where
  /-- It returns false. -/
  | failed
  /-- It reads beyond the value and the NUL byte behind it. -/
  | outOfBounds
  | ok (out : WronglyResult)
deriving DecidableEq, Repr

/-- `wrongly_fetch` -/
def wronglyFetch (rulesAtom : Atom) (replies : List Reply) : Fetched :=
  match fetchProperty rulesAtom replies with
  | none => .failed
  | some data =>
      match splitNames data with
      | none => .outOfBounds
      | some out => .ok out

/-! ## The fields of the value -/

/-- The first four fields. -/
def namesOf (data : Bytes) : WronglyResult :=
  ⟨(lines 0 data)[0]?, (lines 0 data)[1]?, (lines 0 data)[2]?, (lines 0 data)[3]?⟩

/-- A number of calls of `dup_and_advance`, one after the other. -/
def dupFields (mem : Bytes) (end_ : Nat) : Nat → Nat → Option (List (Option Bytes))
  | 0, _ => some []
  | k + 1, cur => do
      let (field, cur) ← dupAndAdvance mem end_ cur
      let fields ← dupFields mem end_ k cur
      return field :: fields

/-- The value has no field, or its last one has a NUL byte behind it, or there are enough others
before it. -/
def Terminated (k : Nat) (s : Bytes) : Prop := s = [] ∨ s.getLast? = some 0 ∨ k ≤ s.count 0 + 1

instance (k : Nat) (s : Bytes) : Decidable (Terminated k s) := inferInstanceAs (Decidable (_ ∨ _))

theorem strlen_append_cons {l : Bytes} (h : (0 : Byte) ∉ l) (r : Bytes) :
    strlen (l ++ 0 :: r) = some l.length := by
  induction l with
  | nil => rfl
  | cons b l ih =>
      have hb : b ≠ 0 := fun he => h (he ▸ List.mem_cons_self)
      rw [List.cons_append, strlen, if_neg hb, ih fun hm => h (List.mem_cons_of_mem b hm)]
      rfl

/-- A field with a NUL byte behind it, in the value or not. -/
theorem dupAndAdvance_append_cons {pre l r : Bytes} {end_ : Nat} (h : (0 : Byte) ∉ l)
    (hne : pre.length ≠ end_) :
    dupAndAdvance (pre ++ (l ++ 0 :: r)) end_ pre.length =
      some (some l, pre.length + (l.length + 1)) := by
  rw [dupAndAdvance, if_neg hne, List.drop_left, strlen_append_cons h]
  simp

theorem dupAndAdvance_end (mem : Bytes) (end_ : Nat) :
    dupAndAdvance mem end_ end_ = some (none, end_) := if_pos rfl

theorem dupAndAdvance_beyond (data : Bytes) :
    dupAndAdvance (data ++ [0]) data.length (data.length + 1) = none := by
  rw [dupAndAdvance, if_neg (by omega), List.drop_of_length_le (by simp)]
  rfl

theorem dupFields_end (mem : Bytes) (end_ k : Nat) :
    dupFields mem end_ k end_ = some (List.replicate k none) := by
  induction k with
  | zero => rfl
  | succ k ih =>
      rw [dupFields, dupAndAdvance_end]
      simp [ih, List.replicate_succ]

theorem getLast?_append_cons (l r : Bytes) :
    (l ++ 0 :: r).getLast? = some 0 ↔ r = [] ∨ r.getLast? = some 0 := by
  rw [List.getLast?_append_cons]
  cases r with
  | nil => simp
  | cons b r => simp [List.getLast?_cons_cons]

/-- The first `k` fields, the missing ones being nothing. -/
def firstFields (k : Nat) (s : Bytes) : List (Option Bytes) :=
  (List.range k).map fun i => (lines 0 s)[i]?

theorem firstFields_nil (k : Nat) : firstFields k [] = List.replicate k none := by
  rw [firstFields, List.eq_replicate_iff]
  simp [Lines.lines_of_not_mem]

theorem firstFields_succ {l : Bytes} {ls : List Bytes} {s : Bytes} (h : lines 0 s = l :: ls)
    (k : Nat) : firstFields (k + 1) s = some l :: (List.range k).map (ls[·]?) := by
  rw [firstFields, h, List.range_succ_eq_map, List.map_cons, List.map_map]
  rfl

theorem terminated_append_cons {l : Bytes} (hl : (0 : Byte) ∉ l) (k : Nat) (r : Bytes) :
    Terminated (k + 1) (l ++ 0 :: r) ↔ Terminated k r := by
  have hcount : (l ++ 0 :: r).count 0 = r.count 0 + 1 := by
    rw [List.count_append, List.count_eq_zero.mpr hl, List.count_cons_self, Nat.zero_add]
  rw [Terminated, getLast?_append_cons, Terminated, hcount]
  constructor
  · rintro (h | (h | h) | h)
    · exact absurd h (by simp)
    · exact .inl h
    · exact .inr (.inl h)
    · exact .inr (.inr (by omega))
  · rintro (h | h | h)
    · exact .inr (.inl (.inl h))
    · exact .inr (.inl (.inr h))
    · exact .inr (.inr (by omega))

/-- A last field without a NUL byte is the last one that can be asked for. -/
theorem terminated_of_not_mem {s : Bytes} (hs : s ≠ []) (h : (0 : Byte) ∉ s) (k : Nat) :
    Terminated (k + 1) s ↔ k = 0 := by
  rw [Terminated, List.count_eq_zero.mpr h]
  constructor
  · rintro (hnil | hlast | hk)
    · exact absurd hnil hs
    · exact absurd (List.mem_of_getLast? hlast) h
    · omega
  · rintro rfl
    exact .inr (.inr (Nat.le_refl _))

/-- The calls from the beginning of a field on, by induction on their number.  What has been read is
`pre`. -/
theorem dupFields_eq (k : Nat) (pre s : Bytes) :
    dupFields (pre ++ (s ++ [0])) (pre.length + s.length) k pre.length =
      if Terminated k s then some (firstFields k s) else none := by
  induction k generalizing pre s with
  | zero =>
      rw [if_pos (.inr (.inr (Nat.zero_le _)))]
      rfl
  | succ k ih =>
      by_cases hmem : (0 : Byte) ∈ s
      · obtain ⟨l, r, rfl, hl⟩ := List.eq_append_cons_of_mem hmem
        have hne : pre.length ≠ pre.length + (l ++ 0 :: r).length := by simp
        have hrest := ih (pre ++ (l ++ [0])) r
        have hmem : pre ++ (l ++ [0]) ++ (r ++ [0]) = pre ++ (l ++ 0 :: (r ++ [0])) := by simp
        have hend : (pre ++ (l ++ [0])).length + r.length =
            pre.length + (l ++ 0 :: r).length := by simp; omega
        have hcur : (pre ++ (l ++ [0])).length = pre.length + (l.length + 1) := by simp
        rw [hmem, hend, hcur] at hrest
        rw [dupFields, List.append_assoc, List.cons_append, dupAndAdvance_append_cons hl hne]
        simp only [Option.bind_eq_bind, Option.bind_some, hrest, terminated_append_cons hl,
          firstFields_succ (Lines.lines_append_cons hl r)]
        split <;> rfl
      · by_cases hs : s = []
        · subst hs
          rw [if_pos (.inl rfl), firstFields_nil]
          exact dupFields_end _ _ _
        · have hlen := List.length_pos_iff.mpr hs
          have hne : pre.length ≠ pre.length + s.length := by omega
          rw [dupFields, dupAndAdvance_append_cons hmem hne]
          simp only [Option.bind_eq_bind, Option.bind_some, terminated_of_not_mem hs hmem]
          cases k with
          | zero =>
              rw [if_pos rfl, firstFields, Lines.lines_of_not_mem hmem, if_neg hs]
              rfl
          | succ k =>
              have hbeyond := dupAndAdvance_beyond (pre ++ s)
              rw [List.append_assoc, List.length_append, Nat.add_assoc] at hbeyond
              rw [dupFields, hbeyond, if_neg (Nat.succ_ne_zero k)]
              rfl

/-! ## The result -/

theorem splitNames_eq_dupFields (data : Bytes) :
    splitNames data =
      (dupFields (data ++ [0]) data.length 4 0).map fun fields =>
        ⟨fields[0]?.join, fields[1]?.join, fields[2]?.join, fields[3]?.join⟩ := by
  simp [splitNames, dupFields, Option.map_bind, Option.bind_assoc]

/-- Splitting the value stays within it and the NUL byte behind it if and only if its last field has
a NUL byte in the value, or there are three before it.  The names are then the first four fields. -/
theorem splitNames_eq (data : Bytes) :
    splitNames data = if Terminated 4 data then some (namesOf data) else none := by
  have h := dupFields_eq 4 [] data
  rw [List.nil_append, List.length_nil, Nat.zero_add] at h
  rw [splitNames_eq_dupFields, h]
  split <;> rfl

/-- What `wrongly_fetch` does with the value of the property. -/
theorem wronglyFetch_iff {rulesAtom : Atom} {replies : List Reply} {data : Bytes}
    (h : fetchProperty rulesAtom replies = some data) :
    wronglyFetch rulesAtom replies = .ok (namesOf data) ↔
      data = [] ∨ data.getLast? = some 0 ∨ 3 ≤ data.count 0 := by
  have hterm : Terminated 4 data ↔ data = [] ∨ data.getLast? = some 0 ∨ 3 ≤ data.count 0 := by
    rw [Terminated, Nat.succ_le_succ_iff]
  rw [wronglyFetch, h, ← hterm]
  dsimp only
  rw [splitNames_eq]
  by_cases hdata : Terminated 4 data
  · rw [if_pos hdata]
    exact iff_of_true rfl hdata
  · rw [if_neg hdata]
    exact iff_of_false nofun hdata

/-- A value with two fields, both with a NUL byte, which comes with the second call. -/
theorem wronglyFetch_iff_evdev :
    wronglyFetch 1 [⟨true, true, 8, 8, []⟩, ⟨true, true, 8, 0, Text.lit "evdev" ++ [0, 112, 0]⟩] =
        .ok ⟨some (Text.lit "evdev"), some [112], none, none⟩ := by
  have hget : fetchProperty 1 [⟨true, true, 8, 8, []⟩,
      ⟨true, true, 8, 0, Text.lit "evdev" ++ [0, 112, 0]⟩] =
        some (Text.lit "evdev" ++ [0, 112, 0]) := rfl
  rw [(wronglyFetch_iff hget).mpr (.inr (.inl rfl))]
  decide

/-- A value of one byte, without a NUL byte. -/
theorem wronglyFetch_beyond :
    wronglyFetch 1 [⟨true, true, 8, 0, [97]⟩] = .outOfBounds ∧
      wronglyFetch 1 [⟨true, true, 8, 0, [97]⟩] ≠ .ok (namesOf [97]) := by
  decide

end Luastatus.Xkb

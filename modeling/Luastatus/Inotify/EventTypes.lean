import Luastatus.Lua.Arg
import Luastatus.Lua.Number

/-!
# The events of inotify, by their names

A widget names the events that it is interested in, and the events that it gets have names as well.
Both are looked up in `EVENT_TYPES`.
-/

namespace Luastatus.Inotify

open Text (Bytes lit)
open Lua

/-- `EventType` -/
structure EventType where
  mask : BitVec 32
  in_ : Bool
  out : Bool
  name : Bytes
deriving DecidableEq, Repr

/-- `EVENT_TYPES`, with the constants of Linux. -/
def eventTypes : List EventType :=
  [⟨0x00000001, true, true, lit "access"⟩,
    ⟨0x00000004, true, true, lit "attrib"⟩,
    ⟨0x00000008, true, true, lit "close_write"⟩,
    ⟨0x00000010, true, true, lit "close_nowrite"⟩,
    ⟨0x00000100, true, true, lit "create"⟩,
    ⟨0x00000200, true, true, lit "delete"⟩,
    ⟨0x00000400, true, true, lit "delete_self"⟩,
    ⟨0x00000002, true, true, lit "modify"⟩,
    ⟨0x00000800, true, true, lit "move_self"⟩,
    ⟨0x00000040, true, true, lit "moved_from"⟩,
    ⟨0x00000080, true, true, lit "moved_to"⟩,
    ⟨0x00000020, true, true, lit "open"⟩,
    ⟨0x00000fff, true, false, lit "all_events"⟩,
    ⟨0x000000c0, true, false, lit "move"⟩,
    ⟨0x00000018, true, false, lit "close"⟩,
    ⟨0x02000000, true, false, lit "dont_follow"⟩,
    ⟨0x04000000, true, false, lit "excl_unlink"⟩,
    ⟨0x20000000, true, false, lit "mask_add"⟩,
    ⟨0x80000000, true, false, lit "oneshot"⟩,
    ⟨0x01000000, true, false, lit "onlydir"⟩,
    ⟨0x10000000, true, false, lit "mask_create"⟩,
    ⟨0x00008000, false, true, lit "ignored"⟩,
    ⟨0x40000000, false, true, lit "isdir"⟩,
    ⟨0x00004000, false, true, lit "q_overflow"⟩,
    ⟨0x00002000, false, true, lit "unmount"⟩]

/-! ## Names that come in -/

/-- What `moon_visit_err` writes in front of the message. -/
def evlistWhere : Bytes := lit "element of event names list: "

/-- `parse_evlist_elem`: the mask with another event in it, or the message. -/
def parseEvlistElem {F : Type} (mask : BitVec 32) : Val F → Except Bytes (BitVec 32)
  | .string s =>
      match eventTypes.find? fun et => et.in_ && et.name = cstr s with
      | some et => .ok (mask ||| et.mask)
      | none => .error (evlistWhere ++ lit "unknown input event '" ++ cstr s ++ lit "'")
  | v => .error (evlistWhere ++ lit "expected string, found " ++ v.typeName)

/-- The mask for a list of names, in the order in which they are visited. -/
def parseEvlist {F : Type} (vs : List (Val F)) : Except Bytes (BitVec 32) :=
  vs.foldlM parseEvlistElem 0

/-! ## Names that go out -/

/-- The loop in `push_event` that fills the table of names. -/
def pushMask {F : Type} (mask : BitVec 32) : Table F :=
  Table.setFields .empty
    ((eventTypes.filter fun et => et.out && mask &&& et.mask ≠ 0).map fun et =>
      (et.name, .boolean true))

/-- `struct inotify_event`, and the bytes behind it. -/
structure InotifyEvent where
  wd : BitVec 32
  mask : BitVec 32
  cookie : BitVec 32
  len : BitVec 32
  name : Bytes
deriving DecidableEq, Repr

/-- `push_event` -/
def pushEvent (event : InotifyEvent) : Table Int :=
  let t := setField .empty "what" (.string (lit "event"))
  let t := setField t "wd" (.number event.wd.toInt)
  let t := setField t "mask" (.table none (pushMask event.mask))
  let t := setField t "cookie" (.number event.cookie.toNat)
  if event.len ≠ 0 then setField t "name" (.string (cstr event.name)) else t

/-! ## What they mean -/

/-- Whether to ask for the one event is to ask for the other, which is reported. -/
def Covers (asked reported : Bytes) : Prop :=
  asked = reported ∨
    (asked = lit "close" ∧ reported ∈ [lit "close_write", lit "close_nowrite"]) ∨
    (asked = lit "move" ∧ reported ∈ [lit "moved_from", lit "moved_to"]) ∨
    (asked = lit "all_events" ∧
      reported ∉ [lit "ignored", lit "isdir", lit "q_overflow", lit "unmount"])

instance (asked reported : Bytes) : Decidable (Covers asked reported) :=
  inferInstanceAs (Decidable (_ ∨ _))

/-- Two names with common bits are of an event that is asked for and one that is reported. -/
theorem mask_and_ne_zero_iff : ∀ et ∈ eventTypes, et.in_ = true → ∀ et' ∈ eventTypes,
    et'.out = true → (et.mask &&& et'.mask ≠ 0 ↔ Covers et.name et'.name) := by
  decide +kernel

theorem name_injective : ∀ et ∈ eventTypes, ∀ et' ∈ eventTypes, et.name = et'.name → et = et' := by
  decide +kernel

section Masks

variable {F : Type} {mask m m' : BitVec 32}

/-- The same value for each of the names. -/
theorem lookup_map_const {α : Type} {v : α} (names : List Bytes) (n : Bytes) :
    (names.map fun k => (k, v)).lookup n = if n ∈ names then some v else none := by
  induction names with
  | nil => rfl
  | cons k names ih =>
      rw [List.map_cons, List.lookup_cons, ih]
      by_cases hk : n = k
      · simp [hk]
      · simp [hk, beq_false_of_ne hk]

theorem pushMask_str (n : Bytes) : (pushMask mask : Table F) (.str n) =
    if ∃ et ∈ eventTypes, et.out = true ∧ mask &&& et.mask ≠ 0 ∧ et.name = n then .boolean true
    else .nil := by
  have hmap : ∀ l : List EventType, (l.map fun et => (et.name, Val.boolean (F := F) true)) =
      (l.map EventType.name).map fun k => (k, .boolean true) := fun l => by simp
  rw [pushMask, Table.setFields_empty, Table.ofFields, ← List.map_reverse, hmap, lookup_map_const]
  have hiff : n ∈ (eventTypes.filter fun et => et.out && mask &&& et.mask ≠ 0).reverse.map
      EventType.name ↔
      ∃ et ∈ eventTypes, et.out = true ∧ mask &&& et.mask ≠ 0 ∧ et.name = n := by
    simp [and_assoc]
  by_cases h : ∃ et ∈ eventTypes, et.out = true ∧ mask &&& et.mask ≠ 0 ∧ et.name = n
  · rw [if_pos h, if_pos (hiff.mpr h)]
    rfl
  · rw [if_neg h, if_neg fun hmem => h (hiff.mp hmem)]
    rfl

/-- The table has the name of an event that is reported if the mask has its bit. -/
theorem pushMask_name {et : EventType} (hmem : et ∈ eventTypes) (hout : et.out = true) :
    (pushMask mask : Table F) (.str et.name) =
      if mask &&& et.mask ≠ 0 then .boolean true else .nil := by
  rw [pushMask_str]
  by_cases h : mask &&& et.mask ≠ 0
  · rw [if_pos h, if_pos ⟨et, hmem, hout, h, rfl⟩]
  · rw [if_neg h, if_neg]
    rintro ⟨et', hmem', -, hne, hname⟩
    cases name_injective et' hmem' et hmem hname
    exact h hne

theorem parseEvlistElem_eq_ok {v : Val F} : parseEvlistElem mask v = .ok m ↔
    ∃ s, v = .string s ∧ ∃ et ∈ eventTypes, et.in_ = true ∧ et.name = cstr s ∧
      m = mask ||| et.mask := by
  cases v with
  | string s =>
      rw [parseEvlistElem]
      cases hfind : eventTypes.find? fun et => et.in_ && et.name = cstr s with
      | none =>
          refine iff_of_false nofun ?_
          rintro ⟨_, ⟨⟩, et, hmem, hin, hname, -⟩
          have hnot := List.find?_eq_none.mp hfind et hmem
          simp [hin, hname] at hnot
      | some et =>
          have hmem := List.mem_of_find?_eq_some hfind
          have hfound := List.find?_some hfind
          simp only [Bool.and_eq_true, decide_eq_true_eq] at hfound
          constructor
          · rintro ⟨⟩
            exact ⟨s, rfl, et, hmem, hfound.1, hfound.2, rfl⟩
          · rintro ⟨_, ⟨⟩, et', hmem', -, hname', rfl⟩
            rw [name_injective et' hmem' et hmem (hname'.trans hfound.2.symm)]
  | _ => exact iff_of_false nofun (by rintro ⟨_, ⟨⟩, _⟩)

/-- A mask that comes out has the bits that were there and those of the names. -/
theorem foldlM_parseEvlistElem {vs : List (Val F)} (h : vs.foldlM parseEvlistElem mask = .ok m)
    (b : BitVec 32) : m &&& b ≠ 0 ↔ mask &&& b ≠ 0 ∨
      ∃ s, .string s ∈ vs ∧ ∃ et ∈ eventTypes, et.in_ = true ∧ et.name = cstr s ∧
        et.mask &&& b ≠ 0 := by
  induction vs generalizing mask with
  | nil =>
      cases h
      simp
  | cons v vs ih =>
      rw [List.foldlM_cons] at h
      cases hv : parseEvlistElem mask v with
      | error e =>
          rw [hv] at h
          cases h
      | ok m' =>
          rw [hv] at h
          obtain ⟨s, rfl, et, hmem, hin, hname, rfl⟩ := parseEvlistElem_eq_ok.mp hv
          rw [ih h]
          have hor : (mask ||| et.mask) &&& b ≠ 0 ↔ mask &&& b ≠ 0 ∨ et.mask &&& b ≠ 0 := by
            have hzero : (mask ||| et.mask) &&& b = 0 ↔ mask &&& b = 0 ∧ et.mask &&& b = 0 := by
              rw [BitVec.and_comm, BitVec.and_or_distrib_left, BitVec.and_comm b,
                BitVec.and_comm b]
              exact BitVec.or_eq_zero_iff
            rw [Ne, hzero]
            exact not_and_or
          rw [hor, or_assoc]
          refine or_congr_right ⟨?_, ?_⟩
          · rintro (hne | ⟨s', hs', hrest⟩)
            · exact ⟨s, List.mem_cons_self, et, hmem, hin, hname, hne⟩
            · exact ⟨s', List.mem_cons_of_mem _ hs', hrest⟩
          · rintro ⟨s', hs', et', hmem', hin', hname', hne'⟩
            rcases List.mem_cons.mp hs' with heq | hs'
            · cases heq
              cases name_injective et' hmem' et hmem (hname'.trans hname.symm)
              exact .inl hne'
            · exact .inr ⟨s', hs', et', hmem', hin', hname', hne'⟩

/-- Whether all names are accepted. -/
theorem foldlM_parseEvlistElem_isOk {vs : List (Val F)} :
    (∃ m, vs.foldlM parseEvlistElem mask = .ok m) ↔
      ∀ v ∈ vs, ∃ s, v = .string s ∧ ∃ et ∈ eventTypes, et.in_ = true ∧ et.name = cstr s := by
  induction vs generalizing mask with
  | nil => exact iff_of_true ⟨mask, rfl⟩ nofun
  | cons v vs ih =>
      rw [List.foldlM_cons, List.forall_mem_cons]
      cases hv : parseEvlistElem mask v with
      | error e =>
          refine iff_of_false (by rintro ⟨m, ⟨⟩⟩) ?_
          rintro ⟨⟨s, rfl, et, hmem, hin, hname⟩, -⟩
          rw [parseEvlistElem_eq_ok.mpr ⟨s, rfl, et, hmem, hin, hname, rfl⟩] at hv
          cases hv
      | ok m' =>
          obtain ⟨s, hs, et, hmem, hin, hname, -⟩ := parseEvlistElem_eq_ok.mp hv
          have hrest : (∃ m, vs.foldlM parseEvlistElem m' = .ok m) ↔ _ := ih
          rw [← hrest]
          exact ⟨fun h => ⟨⟨s, hs, et, hmem, hin, hname⟩, h⟩, fun h => h.2⟩

end Masks

/-- A list of names is accepted if and only if each element is the name of an event that can be
asked for.  If the kernel reports all that is asked for, then an event's table of names has the
names that are covered by those of the list, and no others. -/
theorem evlist_names {F : Type} (vs : List (Val F)) :
    ((∃ m, parseEvlist vs = .ok m) ↔
      ∀ v ∈ vs, ∃ s, v = .string s ∧ ∃ et ∈ eventTypes, et.in_ = true ∧ et.name = cstr s) ∧
    ∀ m, parseEvlist vs = .ok m → ∀ n,
      ((pushMask m : Table F) (.str n) = .boolean true ∨ (pushMask m : Table F) (.str n) = .nil) ∧
      ((pushMask m : Table F) (.str n) = .boolean true ↔
        (∃ et ∈ eventTypes, et.out = true ∧ et.name = n) ∧
          ∃ s, .string s ∈ vs ∧ Covers (cstr s) n) := by
  refine ⟨foldlM_parseEvlistElem_isOk, fun m hm n => ?_⟩
  have hiff : (∃ et ∈ eventTypes, et.out = true ∧ m &&& et.mask ≠ 0 ∧ et.name = n) ↔
      (∃ et ∈ eventTypes, et.out = true ∧ et.name = n) ∧
        ∃ s, .string s ∈ vs ∧ Covers (cstr s) n := by
    constructor
    · rintro ⟨et, hmem, hout, hne, rfl⟩
      refine ⟨⟨et, hmem, hout, rfl⟩, ?_⟩
      rcases (foldlM_parseEvlistElem hm et.mask).mp hne with hzero | h
      · exact absurd BitVec.zero_and hzero
      · obtain ⟨s, hs, et', hmem', hin', hname', hne'⟩ := h
        have hcovers := (mask_and_ne_zero_iff et' hmem' hin' et hmem hout).mp hne'
        exact ⟨s, hs, hname' ▸ hcovers⟩
    · rintro ⟨⟨et, hmem, hout, rfl⟩, s, hs, hcovers⟩
      obtain ⟨_, ⟨⟩, et', hmem', hin', hname'⟩ :=
        foldlM_parseEvlistElem_isOk.mp ⟨m, hm⟩ (.string s) hs
      rw [← hname'] at hcovers
      exact ⟨et, hmem, hout, (foldlM_parseEvlistElem hm et.mask).mpr (.inr ⟨s, hs, et', hmem',
        hin', hname', (mask_and_ne_zero_iff et' hmem' hin' et hmem hout).mpr hcovers⟩), rfl⟩
  rw [← hiff, pushMask_str]
  by_cases h : ∃ et ∈ eventTypes, et.out = true ∧ m &&& et.mask ≠ 0 ∧ et.name = n
  · rw [if_pos h]
    exact ⟨.inl rfl, iff_of_true rfl h⟩
  · rw [if_neg h]
    exact ⟨.inr rfl, iff_of_false nofun h⟩

end Luastatus.Inotify

import Luastatus.Lib.Fallible
import Luastatus.Lua.Arg
import Luastatus.Dbus.Types

/-!
# The parser of type strings

`parse_dtype` of the Lua library is a recursive descent over positions of the string, which count
from 1.  `mktype_simple` and the other constructors of the low-level library check their arguments
once more.

What a call returns lies behind the position it started at (`Parsed`), so the recursion ends.
`parseDtypeImpl_sound` and `parseDtypeImpl_spelling` are the two directions of `parseDtype_iff`: the
parser accepts the type strings of the grammar and nothing else.
-/

namespace Luastatus.Dbus

open Fallible (bind_eq_ok)
open Text (Byte Bytes ch lit)
open Lua

variable {T : Type} (G : TypeOps T)

/-! ## The constructors of the low-level library -/

/-- `VALID`. -/
def VALID : Bytes := lit "bynqiuxthdsogv"

/-- `l_mktype_simple`. -/
def mktypeSimple (s : Bytes) : Except LuaError T :=
  match s with
  | [c] =>
      if c ∈ VALID then .ok (G.new [c]) else .error (.argError 1 (lit "not a simple type name"))
  | _ => .error (.argError 1 (lit "not a simple type name"))

/-- `l_mktype_array`. -/
def mktypeArray (t : T) : T := G.newArray t

/-- `l_mktype_dict_entry`. -/
def mktypeDictEntry (tk tv : T) : Except LuaError T :=
  if G.isBasic tk then .ok (G.newDictEntry tk tv)
  else .error (.argError 1 (lit "key type is not a basic type"))

/-- `l_mktype_tuple`. -/
def mktypeTuple (items : List T) : T := G.newTuple items

/-- `l_get_type_string`. -/
def getTypeString (t : T) : Bytes := G.peekString t

/-! ## The parser -/

/-- `IS_TYPE_SIMPLE`. -/
def isTypeSimple (s : Bytes) : Prop := ∃ c ∈ lit "bynqiuxthdsogv", s = [c]

instance (s : Bytes) : Decidable (isTypeSimple s) := inferInstanceAs (Decidable (∃ _ ∈ _, _))

/-- `s:sub(i, i)`, for `i` from 1 on. -/
def sub (s : Bytes) (i : Nat) : Bytes := (s.drop (i - 1)).take 1

theorem le_length_of_sub {s : Bytes} {i : Nat} {c : Byte} (h : sub s i = [c]) : i ≤ s.length := by
  have hlen := congrArg List.length h
  simp only [sub, List.length_take, List.length_drop, List.length_singleton] at hlen
  omega

/-- What `parse_dtype_impl` returns: a value, and a position behind the one it started at. -/
structure Parsed (α : Type) (fmt : Bytes) (i : Nat) where
  value : α
  next : Nat
  lt_next : i < next
  next_le : next ≤ fmt.length + 1

mutual

/-- `parse_dtype_impl`. -/
def parseDtypeImpl (fmt : Bytes) (i : Nat) : Except LuaError (Parsed T fmt i) :=
  if hi : i ≤ fmt.length then
    let c := sub fmt i
    if isTypeSimple c then do
      let t ← mktypeSimple G c
      return ⟨t, i + 1, by omega, by omega⟩
    else if c = [ch 'a'] then do
      let elem ← parseDtypeImpl fmt (i + 1)
      return ⟨mktypeArray G elem.value, elem.next, by have := elem.lt_next; omega, elem.next_le⟩
    else if c = [ch '('] then do
      let items ← parseItems fmt (i + 1) []
      return ⟨mktypeTuple G items.value, items.next, by have := items.lt_next; omega,
        items.next_le⟩
    else if c = [ch '{'] then do
      let k ← parseDtypeImpl fmt (i + 1)
      have := k.lt_next
      have := k.next_le
      let v ← parseDtypeImpl fmt k.next
      have := v.lt_next
      if hclose : sub fmt v.next = [ch '}'] then do
        let t ← mktypeDictEntry G k.value v.value
        return ⟨t, v.next + 1, by omega, Nat.succ_le_succ (le_length_of_sub hclose)⟩
      else .error (.error (lit "invalid dict entry type fmt"))
    else .error (.error (lit "invalid type specifier \"" ++ c ++ lit "\""))
  else .error (.error (lit "fmt string terminated too early"))
termination_by (fmt.length + 1 - i, 0)

/-- The loop over the items of a tuple, with its closing parenthesis. -/
def parseItems (fmt : Bytes) (i : Nat) (items : List T) :
    Except LuaError (Parsed (List T) fmt i) :=
  if hclose : sub fmt i = [ch ')'] then
    return ⟨items, i + 1, by omega, Nat.succ_le_succ (le_length_of_sub hclose)⟩
  else do
    let item ← parseDtypeImpl fmt i
    have := item.lt_next
    have := item.next_le
    let rest ← parseItems fmt item.next (items ++ [item.value])
    return ⟨rest.value, rest.next, by have := rest.lt_next; omega, rest.next_le⟩
termination_by (fmt.length + 1 - i, 1)

end

/-- `parse_dtype`. -/
def parseDtype {F : Type} : Arg F → Except LuaError T
  | .string fmt => do
      let r ← parseDtypeImpl G fmt 1
      luaAssert (r.next = fmt.length + 1) (lit "extra data after fmt string")
      return r.value
  | _ => .error (.error (lit "fmt string must be of string type"))

/-! ## Positions -/

section Positions

variable {fmt : Bytes} {i : Nat} {c : Byte}

theorem drop_of_sub (hi : 1 ≤ i) (h : sub fmt i = [c]) :
    fmt.drop (i - 1) = c :: fmt.drop i := by
  have hlt : i - 1 < fmt.length := by have := le_length_of_sub h; omega
  rw [List.drop_eq_getElem_cons hlt, show i - 1 + 1 = i by omega]
  rw [sub, List.drop_eq_getElem_cons hlt, List.take_succ_cons, List.take_zero] at h
  rw [(List.cons.inj h).1]

theorem sub_of_drop {rest : Bytes} (h : fmt.drop (i - 1) = c :: rest) : sub fmt i = [c] := by
  rw [sub, h, List.take_succ_cons, List.take_zero]

theorem drop_succ_of_drop {rest : Bytes} (hi : 1 ≤ i) (h : fmt.drop (i - 1) = c :: rest) :
    fmt.drop i = rest := by
  have := (drop_of_sub hi (sub_of_drop h)).symm.trans h
  exact (List.cons.inj this).2

/-- Behind a prefix of what is left. -/
theorem drop_of_append {s rest : Bytes} (h : fmt.drop i = s ++ rest) :
    fmt.drop (i + s.length) = rest := by
  rw [← List.drop_drop, h, List.drop_left]

end Positions

/-! ## What is accepted is a type -/

theorem lit_simple : lit "bynqiuxthdsogv" = basicLetters ++ [ch 'v'] := rfl

/-- A simple type is a basic type or the variant. -/
theorem mktypeSimple_of_isTypeSimple {s : Bytes} (h : isTypeSimple s) :
    ∃ t : Dtype, mktypeSimple G s = .ok (t.build G) ∧ t.spelling = s := by
  obtain ⟨c, hc, rfl⟩ := h
  have hmk : mktypeSimple G [c] = .ok (G.new [c]) := if_pos hc
  rw [lit_simple] at hc
  rcases List.mem_append.mp hc with hbasic | hv
  · exact ⟨.basic ⟨c, hbasic⟩, hmk, rfl⟩
  · rw [List.mem_singleton.mp hv] at hmk ⊢
    exact ⟨.variant, hmk, rfl⟩

variable {G}

mutual

/-- A call reads the type string of the type that it returns. -/
theorem parseDtypeImpl_sound (hG : G.Lawful) {fmt : Bytes} {i : Nat} (hi : 1 ≤ i)
    {r : Parsed T fmt i} (h : parseDtypeImpl G fmt i = .ok r) :
    ∃ t : Dtype, r.value = t.build G ∧
      fmt.drop (i - 1) = t.spelling ++ fmt.drop (r.next - 1) := by
  rw [parseDtypeImpl] at h
  split at h
  · rename_i hlen
    simp only at h
    split at h
    · rename_i hsimple
      obtain ⟨t, hmk, hspell⟩ := mktypeSimple_of_isTypeSimple G hsimple
      obtain ⟨value, hvalue, h⟩ := bind_eq_ok.mp h
      cases hmk.symm.trans hvalue
      cases h
      obtain ⟨c, -, hc⟩ := hsimple
      exact ⟨t, rfl, by rw [hspell, hc]; exact drop_of_sub hi hc⟩
    · split at h
      · rename_i _ hc
        obtain ⟨elem, helem, h⟩ := bind_eq_ok.mp h
        cases h
        obtain ⟨t, hvalue, hread⟩ := parseDtypeImpl_sound hG (Nat.le_add_left 1 i) helem
        refine ⟨.array t, by rw [hvalue]; rfl, ?_⟩
        rw [drop_of_sub hi hc]
        exact congrArg (ch 'a' :: ·) hread
      · split at h
        · rename_i _ _ hc
          obtain ⟨items, hitems, h⟩ := bind_eq_ok.mp h
          cases h
          obtain ⟨ts, hvalue, hread⟩ := parseItems_sound hG (Nat.le_add_left 1 i) hitems
          refine ⟨.tuple ts, by rw [hvalue]; rfl, ?_⟩
          rw [drop_of_sub hi hc, Dtype.spelling, List.append_assoc]
          exact congrArg (ch '(' :: ·) hread
        · split at h
          · rename_i _ _ _ hc
            obtain ⟨k, hk, h⟩ := bind_eq_ok.mp h
            obtain ⟨v, hv, h⟩ := bind_eq_ok.mp h
            split at h
            · rename_i hclose
              obtain ⟨value, hmk, h⟩ := bind_eq_ok.mp h
              cases h
              obtain ⟨tk, hkvalue, hkread⟩ := parseDtypeImpl_sound hG (Nat.le_add_left 1 i) hk
              have := k.lt_next
              obtain ⟨tv, hvvalue, hvread⟩ := parseDtypeImpl_sound hG (by omega) hv
              have := v.lt_next
              rw [mktypeDictEntry] at hmk
              split at hmk
              · rename_i hbasic
                rw [hkvalue, hG.isBasic_build] at hbasic
                obtain ⟨key, rfl⟩ := hbasic
                cases hmk
                refine ⟨.dictEntry key tv, by rw [hkvalue, hvvalue]; rfl, ?_⟩
                rw [drop_of_sub (by omega) hclose] at hvread
                rw [Nat.add_sub_cancel, hvread] at hkread
                rw [drop_of_sub hi hc, hkread]
                simp [Dtype.spelling]
              · cases hmk
            · cases h
          · cases h
  · cases h
termination_by (fmt.length + 1 - i, 0)

/-- The loop reads the type strings of the items that it appends, and a closing parenthesis. -/
theorem parseItems_sound (hG : G.Lawful) {fmt : Bytes} {i : Nat} (hi : 1 ≤ i) {items : List T}
    {r : Parsed (List T) fmt i} (h : parseItems G fmt i items = .ok r) :
    ∃ ts : List Dtype, r.value = items ++ buildAll G ts ∧
      fmt.drop (i - 1) = spellings ts ++ ch ')' :: fmt.drop (r.next - 1) := by
  rw [parseItems] at h
  split at h
  · rename_i hclose
    cases h
    exact ⟨[], (List.append_nil items).symm, drop_of_sub hi hclose⟩
  · obtain ⟨item, hitem, h⟩ := bind_eq_ok.mp h
    obtain ⟨rest, hrest, h⟩ := bind_eq_ok.mp h
    cases h
    have := item.lt_next
    have := item.next_le
    obtain ⟨t, hvalue, hread⟩ := parseDtypeImpl_sound hG hi hitem
    obtain ⟨ts, hvalues, hreads⟩ := parseItems_sound hG (by omega) hrest
    refine ⟨t :: ts, ?_, ?_⟩
    · rw [hvalues, hvalue, List.append_assoc]
      rfl
    · rw [hread, hreads, spellings, List.append_assoc]
termination_by (fmt.length + 1 - i, 1)

end

/-! ## Every type is accepted -/

theorem spelling_ne_close (t : Dtype) (rest : Bytes) :
    ∃ c s, t.spelling ++ rest = c :: s ∧ c ≠ ch ')' := by
  cases t with
  | basic c =>
      refine ⟨c, rest, rfl, fun he => ?_⟩
      exact absurd (he ▸ c.2 : ch ')' ∈ basicLetters) (by decide)
  | variant => exact ⟨_, _, rfl, by decide⟩
  | array elem => exact ⟨_, _, rfl, by decide⟩
  | tuple items => exact ⟨_, _, rfl, by decide⟩
  | dictEntry key value => exact ⟨_, _, rfl, by decide⟩

theorem mktypeDictEntry_basic (hG : G.Lawful) (key : BasicLetter) (v : T) :
    mktypeDictEntry G (G.new [key]) v = .ok (G.newDictEntry (G.new [key]) v) :=
  if_pos ((hG.isBasic_build (.basic key)).mpr ⟨key, rfl⟩)

theorem mem_simple (c : BasicLetter) : c.1 ∈ lit "bynqiuxthdsogv" := by
  rw [lit_simple]
  exact List.mem_append_left _ c.2

/-- A call at a simple type. -/
theorem parseDtypeImpl_simple {fmt rest : Bytes} {i : Nat} {c : Byte}
    (hc : c ∈ lit "bynqiuxthdsogv") (h : fmt.drop (i - 1) = c :: rest) :
    ∃ r, parseDtypeImpl G fmt i = .ok r ∧ r.value = G.new [c] ∧ r.next = i + 1 := by
  have hsub := sub_of_drop h
  have hsimple : isTypeSimple (sub fmt i) := ⟨c, hc, hsub⟩
  have hmk : mktypeSimple G (sub fmt i) = .ok (G.new [c]) := by
    rw [hsub]
    exact if_pos hc
  rw [parseDtypeImpl, dif_pos (le_length_of_sub hsub)]
  simp only
  rw [if_pos hsimple, hmk]
  exact ⟨_, rfl, rfl, rfl⟩

mutual

/-- A call at the type string of a type returns its type object and the position behind it. -/
theorem parseDtypeImpl_spelling (hG : G.Lawful) : ∀ (t : Dtype) {fmt rest : Bytes} {i : Nat},
    1 ≤ i → fmt.drop (i - 1) = t.spelling ++ rest →
      ∃ r, parseDtypeImpl G fmt i = .ok r ∧ r.value = t.build G ∧
        r.next = i + t.spelling.length
  | .basic c, fmt, rest, i, _, h => parseDtypeImpl_simple (mem_simple c) h
  | .variant, fmt, rest, i, _, h => parseDtypeImpl_simple (by decide) h
  | .array elem, fmt, rest, i, hi, h => by
      have hsub := sub_of_drop h
      have hlen := le_length_of_sub hsub
      obtain ⟨r, hr, hvalue, hnext⟩ := parseDtypeImpl_spelling hG elem (Nat.le_add_left 1 i)
        (drop_succ_of_drop hi h)
      rw [parseDtypeImpl, dif_pos hlen]
      simp only [hsub]
      rw [if_neg (by decide), if_pos trivial, hr]
      refine ⟨_, rfl, congrArg G.newArray hvalue, hnext.trans ?_⟩
      rw [Dtype.spelling, List.length_cons]
      omega
  | .tuple items, fmt, rest, i, hi, h => by
      have h : fmt.drop (i - 1) = ch '(' :: (spellings items ++ ch ')' :: rest) := by
        rw [h]
        simp [Dtype.spelling]
      have hsub := sub_of_drop h
      have hlen := le_length_of_sub hsub
      obtain ⟨r, hr, hvalue, hnext⟩ := parseItems_spellings hG items [] (Nat.le_add_left 1 i)
        (drop_succ_of_drop hi h)
      rw [parseDtypeImpl, dif_pos hlen]
      simp only [hsub]
      rw [if_neg (by decide), if_neg (by decide), if_pos trivial, hr]
      refine ⟨_, rfl, congrArg G.newTuple hvalue, hnext.trans ?_⟩
      simp only [Dtype.spelling, List.length_cons, List.length_append, List.length_nil]
      omega
  | .dictEntry key value, fmt, rest, i, hi, h => by
      have h : fmt.drop (i - 1) = ch '{' :: ([key.1] ++ (value.spelling ++ ch '}' :: rest)) := by
        rw [h]
        simp [Dtype.spelling]
      have hsub := sub_of_drop h
      have hlen := le_length_of_sub hsub
      have hkey := drop_succ_of_drop hi h
      have hvalue := drop_of_append hkey
      have hclose := drop_of_append hvalue
      obtain ⟨k, hk, hkvalue, hknext⟩ :=
        parseDtypeImpl_simple (G := G) (i := i + 1) (mem_simple key) hkey
      rw [show i + [key.1].length = k.next - 1 by rw [hknext]; rfl] at hvalue
      obtain ⟨v, hv, hvvalue, hvnext⟩ := parseDtypeImpl_spelling hG value
        (by have := k.lt_next; omega) hvalue
      rw [show i + [key.1].length + value.spelling.length = v.next - 1 by
        rw [hvnext, hknext, List.length_singleton]
        omega] at hclose
      rw [parseDtypeImpl, dif_pos hlen]
      simp only [hsub]
      rw [if_neg (by decide), if_neg (by decide), if_neg (by decide), if_pos trivial, hk]
      simp only [bind, Except.bind, hv]
      rw [dif_pos (sub_of_drop hclose), hkvalue, hvvalue]
      simp only [Dtype.build, mktypeDictEntry_basic hG]
      refine ⟨_, rfl, rfl, ?_⟩
      simp only [Dtype.spelling, List.length_cons, List.length_append, List.length_nil, hvnext,
        hknext]
      omega

/-- The loop at the type strings of some items. -/
theorem parseItems_spellings (hG : G.Lawful) : ∀ (ts : List Dtype) (items : List T)
    {fmt rest : Bytes} {i : Nat}, 1 ≤ i → fmt.drop (i - 1) = spellings ts ++ ch ')' :: rest →
      ∃ r, parseItems G fmt i items = .ok r ∧ r.value = items ++ buildAll G ts ∧
        r.next = i + (spellings ts).length + 1
  | [], items, fmt, rest, i, _, h => by
      rw [parseItems, dif_pos (sub_of_drop h)]
      exact ⟨_, rfl, (List.append_nil items).symm, rfl⟩
  | t :: ts, items, fmt, rest, i, hi, h => by
      rw [spellings, List.append_assoc] at h
      have hopen : sub fmt i ≠ [ch ')'] := by
        obtain ⟨c, s, hcons, hne⟩ := spelling_ne_close t (spellings ts ++ ch ')' :: rest)
        rw [hcons] at h
        rw [sub_of_drop h]
        exact fun he => hne (List.cons.inj he).1
      obtain ⟨item, hitem, hvalue, hnext⟩ := parseDtypeImpl_spelling hG t hi h
      have hrest := drop_of_append h
      rw [show i - 1 + t.spelling.length = item.next - 1 by omega] at hrest
      obtain ⟨r, hr, hvalues, hnexts⟩ := parseItems_spellings hG ts (items ++ [item.value])
        (by have := item.lt_next; omega) hrest
      rw [parseItems, dif_neg hopen, hitem]
      simp only [bind, Except.bind, hr]
      refine ⟨_, rfl, ?_, ?_⟩
      · simp only [hvalues, hvalue, buildAll, List.append_assoc, List.singleton_append]
      · simp only [hnexts, hnext, spellings, List.length_append]
        omega

end

/-! ## The parser and the grammar -/

/-- The parser returns the type object of the type that the string spells. -/
theorem parseDtype_spelling (hG : G.Lawful) {F : Type} (t : Dtype) :
    parseDtype G (.string t.spelling : Arg F) = .ok (t.build G) := by
  obtain ⟨r, hr, hvalue, hnext⟩ := parseDtypeImpl_spelling hG t (Nat.le_refl 1)
    (List.append_nil t.spelling).symm
  rw [parseDtype, hr]
  refine bind_eq_ok.mpr ⟨r, rfl, bind_eq_ok.mpr ⟨(), luaAssert_eq_ok.mpr ?_, ?_⟩⟩
  · omega
  · rw [hvalue]
    rfl

theorem parseDtype_sound (hG : G.Lawful) {F : Type} {fmt : Bytes} {value : T}
    (h : parseDtype G (.string fmt : Arg F) = .ok value) :
    ∃ t : Dtype, t.spelling = fmt ∧ value = t.build G := by
  obtain ⟨r, hr, h⟩ := bind_eq_ok.mp h
  obtain ⟨u, hend, h⟩ := bind_eq_ok.mp h
  cases h
  obtain ⟨t, hvalue, hread⟩ := parseDtypeImpl_sound hG (Nat.le_refl 1) hr
  refine ⟨t, ?_, hvalue⟩
  rw [luaAssert_eq_ok.mp hend, Nat.add_sub_cancel, List.drop_length, List.append_nil] at hread
  exact hread.symm

/-- The parser succeeds if and only if the whole string spells a type, and then GLib reports the
string as the type string of the result. -/
theorem parseDtype_iff (hG : G.Lawful) {F : Type} (fmt : Bytes) :
    ((∃ value, parseDtype G (.string fmt : Arg F) = .ok value) ↔
      ∃ t : Dtype, t.spelling = fmt) ∧
    (∀ value, parseDtype G (.string fmt : Arg F) = .ok value → getTypeString G value = fmt) ∧
    ((∀ t : Dtype, t.spelling ≠ fmt) →
      ∃ e, parseDtype G (.string fmt : Arg F) = .error e) := by
  refine ⟨⟨?_, ?_⟩, ?_, ?_⟩
  · rintro ⟨value, h⟩
    obtain ⟨t, hspell, -⟩ := parseDtype_sound hG h
    exact ⟨t, hspell⟩
  · rintro ⟨t, rfl⟩
    exact ⟨t.build G, parseDtype_spelling hG t⟩
  · intro value h
    obtain ⟨t, rfl, rfl⟩ := parseDtype_sound hG h
    exact hG.peekString_build t
  · intro hno
    cases h : parseDtype G (.string fmt : Arg F) with
    | error e => exact ⟨e, rfl⟩
    | ok value =>
        obtain ⟨t, hspell, -⟩ := parseDtype_sound hG h
        exact absurd hspell (hno t)

theorem parseDtype_iff_dictionary :
    (∃ value, parseDtype stringTypes (.string (lit "a\x7bsv\x7d") : Arg Nat) = .ok value) ∧
      ∀ value, parseDtype stringTypes (.string (lit "a\x7bsv\x7d") : Arg Nat) = .ok value →
        getTypeString stringTypes value = lit "a\x7bsv\x7d" :=
  have h := parseDtype_iff stringTypes_lawful (lit "a\x7bsv\x7d")
  ⟨h.1.mpr ⟨.array (.dictEntry ⟨ch 's', by decide⟩ .variant), by decide⟩, h.2.1⟩

end Luastatus.Dbus

import Luastatus.Lib.Json
import Luastatus.Lua.Value
import Luastatus.LibLs.ParseInt

/-!
# Decoding JSON into Lua values

`json_decode` parses the text with cJSON and converts the tree by recursion.  The Lua stack and
cJSON are outside of this code: `Env` says whether the stack can be grown and what a text parses
to.

`params->recur_lim` starts at `max_depth` and is decremented on every call of `convert`.  No exit
path of the recursion gives a unit back, so the counter is a budget for the number of values
visited and not for the depth of the recursion.  `convert_eq` says so: a conversion succeeds if
and only if the tree has no more values than the budget, and then it yields the mirror image of
the tree.

The documentation promises a limit on the nesting depth.  `jsonDecode_depthLaw_iff` says exactly
when that promise is kept.
-/

namespace Luastatus.Web

open Text (Bytes lit)
open Luastatus.LibLs (intMax)

variable {F : Type}

/-! ## The code -/

/-- What the code calls: `lua_checkstack` and `cJSON_ParseWithOpts`.  A parse error is reported
with its position. -/
structure Env (F : Type) where
  luaCheckstack : Int → Bool
  cjsonParse : Bytes → Except Nat (Json.Value F)

/-- `JSON_DEC_MARK_ARRAYS_VS_DICT` and `JSON_DEC_MARK_NULLS`. -/
structure Flags where
  markArraysVsDicts : Bool
  markNulls : Bool

/-- `Params`, without the counter and the error.  A metatable is given by the name of its field,
`none` is `LUA_REFNIL`. -/
structure Params where
  mtArray : Option Bytes
  mtDict : Option Bytes
  markNulls : Bool

/-- The initialization of `Params` in `json_decode`. -/
def Params.ofFlags (flags : Flags) : Params where
  mtArray := if flags.markArraysVsDicts then some (lit "is_array") else none
  mtDict := if flags.markArraysVsDicts then some (lit "is_dict") else none
  markNulls := flags.markNulls

def depthLimitExceeded : String := "depth limit exceeded"

/-- The checks at the start of `convert`; the result is the counter after `recur_lim--`. -/
def convertEnter (env : Env F) (recurLim : Int) : Except String Int :=
  if recurLim = 0 then .error depthLimitExceeded
  else if env.luaCheckstack 10 = false then .error "too many elements on Lua stack"
  else .ok (recurLim - 1)

mutual

/-- `convert`: the value it pushes and the counter it leaves. -/
def convert (env : Env F) (p : Params) (j : Json.Value F) (recurLim : Int) :
    Except String (Lua.Val F × Int) := do
  let recurLim ← convertEnter env recurLim
  match j with
  | .null => .ok (if p.markNulls then .nullUserdata else .nil, recurLim)
  | .boolean b => .ok (.boolean b, recurLim)
  | .number x => .ok (.number x, recurLim)
  | .string s => .ok (.string s, recurLim)
  | .array items => do
      let (t, recurLim) ← convertArray env p items Lua.Table.empty 1 recurLim
      .ok (.table p.mtArray t, recurLim)
  | .object members => do
      let (t, recurLim) ← convertDict env p members Lua.Table.empty recurLim
      .ok (.table p.mtDict t, recurLim)

/-- The loop of `convert_array`.  The index is an `unsigned`. -/
def convertArray (env : Env F) (p : Params) :
    List (Json.Value F) → Lua.Table F → Nat → Int → Except String (Lua.Table F × Int)
  | [], t, _, recurLim => .ok (t, recurLim)
  | item :: next, t, i, recurLim => do
      let (v, recurLim) ← convert env p item recurLim
      convertArray env p next (t.rawset (.idx (i % 2 ^ 32)) v) (i + 1) recurLim

/-- The loop of `convert_dict`. -/
def convertDict (env : Env F) (p : Params) :
    List (Bytes × Json.Value F) → Lua.Table F → Int → Except String (Lua.Table F × Int)
  | [], t, recurLim => .ok (t, recurLim)
  | (key, item) :: next, t, recurLim => do
      let (v, recurLim) ← convert env p item recurLim
      convertDict env p next (t.rawset (.str key) v) recurLim

end

/-- `json_decode`, up to the parsed tree. -/
def parsePayload (env : Env F) (input : Bytes) (maxDepth : Int) :
    Except String (Json.Value F) :=
  if env.luaCheckstack maxDepth = false then
    .error s!"Lua failed to allocate stack of size {maxDepth}"
  else if input.length > intMax - 16 then .error "JSON payload is too large"
  else
    match env.cjsonParse input with
    | .error pos => .error s!"JSON parse error at byte {pos}"
    | .ok j => .ok j

/-- `json_decode`: the value it pushes, or the error it reports. -/
def jsonDecode (env : Env F) (input : Bytes) (maxDepth : Int) (flags : Flags) :
    Except String (Lua.Val F) := do
  let j ← parsePayload env input maxDepth
  let (v, _) ← convert env (.ofFlags flags) j maxDepth
  .ok v

/-! ## The mirror image of a tree -/

mutual

/-- The Lua value that mirrors a tree. -/
def mirror (flags : Flags) : Json.Value F → Lua.Val F
  | .null => if flags.markNulls then .nullUserdata else .nil
  | .boolean b => .boolean b
  | .number x => .number x
  | .string s => .string s
  | .array items =>
      .table (if flags.markArraysVsDicts then some (lit "is_array") else none)
        (Lua.Table.ofItems (mirrorItems flags items))
  | .object members =>
      .table (if flags.markArraysVsDicts then some (lit "is_dict") else none)
        (Lua.Table.ofFields (mirrorMembers flags members))

def mirrorItems (flags : Flags) : List (Json.Value F) → List (Lua.Val F)
  | [] => []
  | v :: vs => mirror flags v :: mirrorItems flags vs

def mirrorMembers (flags : Flags) : List (Bytes × Json.Value F) → List (Bytes × Lua.Val F)
  | [] => []
  | (k, v) :: ms => (k, mirror flags v) :: mirrorMembers flags ms

end

/-! ## The counter is a budget for values -/

section Budget

variable {env : Env F} {flags : Flags}

theorem convertEnter_zero : convertEnter env 0 = .error depthLimitExceeded := rfl

theorem convertEnter_pos (hstack : ∀ k, env.luaCheckstack k = true) {lim : Int} (h : 0 < lim) :
    convertEnter env lim = .ok (lim - 1) := by
  rw [convertEnter, if_neg (by omega), if_neg (by simp [hstack])]

mutual

/-- A conversion succeeds if and only if the counter covers every value of the tree, and it uses
up one unit for each. -/
theorem convert_eq (hstack : ∀ k, env.luaCheckstack k = true) :
    ∀ (j : Json.Value F) (lim : Int), 0 ≤ lim → lim ≤ intMax →
      convert env (.ofFlags flags) j lim =
        if (j.count : Int) ≤ lim then .ok (mirror flags j, lim - j.count)
        else .error depthLimitExceeded := by
  intro j lim h0 hmax
  by_cases hz : lim = 0
  · subst hz
    have hpos := j.count_pos
    have hneg : ¬ (j.count : Int) ≤ 0 := by omega
    rw [convert, convertEnter_zero, if_neg hneg]
    rfl
  rw [convert, convertEnter_pos hstack (by omega)]
  have hone : (1 : Int) ≤ lim := by omega
  cases j with
  | null =>
      cases hm : flags.markNulls <;>
        simp [Json.Value.count, hone, mirror, Params.ofFlags, bind, Except.bind, hm]
  | boolean b => simp [Json.Value.count, hone, mirror, bind, Except.bind]
  | number x => simp [Json.Value.count, hone, mirror, bind, Except.bind]
  | string s => simp [Json.Value.count, hone, mirror, bind, Except.bind]
  | array items =>
      have hsize : 1 + (lim - 1) < 2 ^ 32 := by
        have : (intMax : Int) < 2 ^ 32 := by decide
        omega
      have ih := convertArray_eq hstack items Lua.Table.empty 1 (lim - 1) (by omega) (by omega)
        hsize
      have hcount := Json.Value.count_array items
      simp only [bind, Except.bind, ih, mirror]
      by_cases hc : (Json.countItems items : Int) ≤ lim - 1
      · have hc' : ((Json.Value.array items).count : Int) ≤ lim := by omega
        rw [if_pos hc, if_pos hc', Lua.Table.setItems_empty]
        simp only [Params.ofFlags]
        congr 2
        omega
      · have hc' : ¬ ((Json.Value.array items).count : Int) ≤ lim := by omega
        rw [if_neg hc, if_neg hc']
  | object members =>
      have ih := convertDict_eq hstack members Lua.Table.empty (lim - 1) (by omega) (by omega)
      have hcount := Json.Value.count_object members
      simp only [bind, Except.bind, ih, mirror]
      by_cases hc : (Json.countMembers members : Int) ≤ lim - 1
      · have hc' : ((Json.Value.object members).count : Int) ≤ lim := by omega
        rw [if_pos hc, if_pos hc', Lua.Table.setFields_empty]
        simp only [Params.ofFlags]
        congr 2
        omega
      · have hc' : ¬ ((Json.Value.object members).count : Int) ≤ lim := by omega
        rw [if_neg hc, if_neg hc']

/-- The index does not wrap around, since every item costs a unit of the counter. -/
theorem convertArray_eq (hstack : ∀ k, env.luaCheckstack k = true) :
    ∀ (items : List (Json.Value F)) (t : Lua.Table F) (i : Nat) (lim : Int), 0 ≤ lim →
      lim ≤ intMax → i + lim < 2 ^ 32 →
      convertArray env (.ofFlags flags) items t i lim =
        if (Json.countItems items : Int) ≤ lim then
          .ok (Lua.Table.setItems i t (mirrorItems flags items), lim - Json.countItems items)
        else .error depthLimitExceeded
  | [], t, i, lim, h0, _, _ => by
      simp [convertArray, Json.countItems, mirrorItems, Lua.Table.setItems, h0]
  | item :: next, t, i, lim, h0, hmax, hi => by
      have hpos := item.count_pos
      rw [convertArray, convert_eq hstack item lim h0 hmax]
      by_cases hc : (item.count : Int) ≤ lim
      · rw [if_pos hc]
        have ih := convertArray_eq hstack next (t.rawset (.idx i) (mirror flags item)) (i + 1)
          (lim - item.count) (by omega) (by omega) (by push_cast; omega)
        have hmod : i % 2 ^ 32 = i := Nat.mod_eq_of_lt (by omega)
        simp only [bind, Except.bind, hmod, ih, Json.countItems, mirrorItems,
          Lua.Table.setItems]
        by_cases hn : (Json.countItems next : Int) ≤ lim - item.count
        · rw [if_pos hn, if_pos (by push_cast; omega)]
          congr 2
          push_cast
          omega
        · rw [if_neg hn, if_neg (by push_cast; omega)]
      · rw [if_neg hc, if_neg (by simp only [Json.countItems]; push_cast; omega)]
        rfl

theorem convertDict_eq (hstack : ∀ k, env.luaCheckstack k = true) :
    ∀ (members : List (Bytes × Json.Value F)) (t : Lua.Table F) (lim : Int), 0 ≤ lim →
      lim ≤ intMax →
      convertDict env (.ofFlags flags) members t lim =
        if (Json.countMembers members : Int) ≤ lim then
          .ok (Lua.Table.setFields t (mirrorMembers flags members),
            lim - Json.countMembers members)
        else .error depthLimitExceeded
  | [], t, lim, h0, _ => by
      simp [convertDict, Json.countMembers, mirrorMembers, Lua.Table.setFields, h0]
  | (key, item) :: next, t, lim, h0, hmax => by
      have hpos := item.count_pos
      rw [convertDict, convert_eq hstack item lim h0 hmax]
      by_cases hc : (item.count : Int) ≤ lim
      · rw [if_pos hc]
        have ih := convertDict_eq hstack next (t.rawset (.str key) (mirror flags item))
          (lim - item.count) (by omega) (by omega)
        simp only [bind, Except.bind, ih, Json.countMembers, mirrorMembers,
          Lua.Table.setFields]
        by_cases hn : (Json.countMembers next : Int) ≤ lim - item.count
        · rw [if_pos hn, if_pos (by push_cast; omega)]
          congr 2
          push_cast
          omega
        · rw [if_neg hn, if_neg (by push_cast; omega)]
      · rw [if_neg hc, if_neg (by simp only [Json.countMembers]; push_cast; omega)]
        rfl

end

/-- The outcome of `json_decode` on a text that parses. -/
theorem jsonDecode_eq (hstack : ∀ k, env.luaCheckstack k = true) {input : Bytes}
    {j : Json.Value F} {maxDepth : Int} (hparse : parsePayload env input maxDepth = .ok j)
    (h0 : 0 ≤ maxDepth) (hmax : maxDepth ≤ intMax) :
    jsonDecode env input maxDepth flags =
      if (j.count : Int) ≤ maxDepth then .ok (mirror flags j) else .error depthLimitExceeded := by
  rw [jsonDecode, hparse]
  simp only [bind, Except.bind, convert_eq hstack j maxDepth h0 hmax]
  by_cases hc : (j.count : Int) ≤ maxDepth
  · rw [if_pos hc, if_pos hc]
  · rw [if_neg hc, if_neg hc]

end Budget

/-! ## The depth law -/

/-- What the documentation says of a text that parses to `j`: it is decoded if and only if `j` is
no deeper than the limit, and then into the mirror image of `j`. -/
def DepthLaw (env : Env F) (input : Bytes) (j : Json.Value F) (maxDepth : Int) (flags : Flags) :
    Prop :=
  ((∃ v, jsonDecode env input maxDepth flags = .ok v) ↔ (j.depth : Int) ≤ maxDepth) ∧
    ∀ v, jsonDecode env input maxDepth flags = .ok v → v = mirror flags j

/-- The depth law holds of exactly those documents that have no more values than the limit, and
of those that are too deep. -/
theorem jsonDecode_depthLaw_iff {env : Env F} (hstack : ∀ k, env.luaCheckstack k = true)
    {input : Bytes} {j : Json.Value F} {maxDepth : Int} (flags : Flags)
    (hparse : parsePayload env input maxDepth = .ok j) (hone : 1 ≤ maxDepth)
    (hmax : maxDepth ≤ intMax) :
    DepthLaw env input j maxDepth flags ↔
      (j.count : Int) ≤ maxDepth ∨ maxDepth < (j.depth : Int) := by
  have hle := j.depth_le_count
  rw [DepthLaw, jsonDecode_eq hstack hparse (by omega) hmax]
  by_cases hc : (j.count : Int) ≤ maxDepth
  · rw [if_pos hc]
    constructor
    · exact fun _ => .inl hc
    · refine fun _ => ⟨⟨fun _ => by omega, fun _ => ⟨_, rfl⟩⟩, fun v hv => ?_⟩
      exact (Except.ok.inj hv).symm
  · rw [if_neg hc]
    constructor
    · rintro ⟨hlaw, -⟩
      refine .inr (Int.not_le.mp fun hd => ?_)
      obtain ⟨v, hv⟩ := hlaw.mpr hd
      cases hv
    · rintro (h | h)
      · exact absurd h hc
      · refine ⟨⟨fun ⟨v, hv⟩ => ?_, fun hd => by omega⟩, fun v hv => ?_⟩
        · cases hv
        · cases hv

/-! ### A flat array -/

/-- The text `[1,2]` and nothing else. -/
def flatEnv : Env Nat where
  luaCheckstack := fun _ => true
  cjsonParse := fun s =>
    if s = lit "[1,2]" then .ok (.array [.number 1, .number 2]) else .error 0

/-- A flat array of two numbers is no deeper than 2, and is rejected at that limit. -/
theorem not_depthLaw_flat :
    (∀ k, flatEnv.luaCheckstack k = true) ∧
    parsePayload flatEnv (lit "[1,2]") 2 = .ok (.array [.number 1, .number 2]) ∧
    ¬ DepthLaw flatEnv (lit "[1,2]") (.array [.number 1, .number 2]) 2 ⟨false, false⟩ := by
  refine ⟨fun _ => rfl, rfl, fun h => ?_⟩
  obtain ⟨v, hv⟩ := h.1.mpr (by decide)
  cases hv

/-- At the limit 3 the same text is decoded. -/
theorem jsonDecode_depthLaw_iff_flat :
    DepthLaw flatEnv (lit "[1,2]") (.array [.number 1, .number 2]) 3 ⟨true, true⟩ :=
  (jsonDecode_depthLaw_iff (fun _ => rfl) _ rfl (by decide) (by decide)).mpr (.inl (by decide))

end Luastatus.Web

import Luastatus.LibLs.Panic
import Luastatus.LibLs.ParseInt
import Luastatus.Lib.JsonEvents
import Luastatus.Lua.Value

/-!
# The event watcher of the i3 barlib

i3bar writes an infinite array of objects, one for each click.  The callbacks of the JSON parser
collect the tokens of the current object in a flat list, with the strings in an array of their own,
and remember the widget if the name of the object, a string under the key `name` directly in it, is
a number.  When the object ends, `flush` turns the tokens into a Lua table by recursion, passes it
to the widget, and resets the context.

`pushObject_spec` says that the recursion rebuilds the value whose tokens are recorded, unless one
of its arrays is longer than `LS_LUA_MAXI`, when the assertion on the index of an item fails.
-/

namespace Luastatus.I3

open Text (Bytes lit)
open LibLs Lua Json

variable {F : Type}

/-! ## The code -/

/-- `DEPTH_LIMIT`. -/
def depthLimit : Int := 10

/-- `Token`. -/
inductive Token (F : Type) where
  | arrayStart
  | arrayEnd
  | mapStart
  | mapEnd
  | stringKey (strIdx : Nat)
  | string (strIdx : Nat)
  | number (num : F)
  | boolean (flag : Bool)
  | null

/-- `token.type == TYPE_MAP_START`. -/
def Token.isMapStart : Token F → Bool
  | .mapStart => true
  | _ => false

/-- `Context`, with the callbacks that have been made. -/
structure Context (F : Type) where
  /-- -1 before the initial `[`. -/
  depth : Int
  lastKeyIsName : Bool
  strarr : List Bytes
  tokens : List (Token F)
  /-- Negative if it is not known or invalid. -/
  widget : Int
  /-- The widgets that were called, and what they were called with, in order. -/
  calls : List (Nat × Val F)

/-- What the watcher is given.  The widgets are counted by the `argc` of `main`. -/
structure Env (F : Type) where
  nwidgets : Nat
  nwidgets_le : nwidgets ≤ intMax
  /-- `LS_LUA_MAXI`, which is `INT_MAX` for a Lua without integers. -/
  luaMaxi : Nat
  /-- The conversion of an integer of the parser to a number. -/
  ofInt : Int → F

/-- `ls_strarr_at`. -/
def lsStrarrAt (strarr : List Bytes) (i : Nat) : Except AssertFailure Bytes := do
  lsAssert (i < strarr.length) "i < o.size"
  return strarr.getD i []

/-- Reading a token past the end of the list.  The source does not check for it; here it is a
failure too. -/
def pastEnd : AssertFailure := ⟨"*idx < ctx->tokens.size"⟩

section PushObject

variable (maxi : Nat) (strarr : List Bytes) (tokens : List (Token F))

mutual

/-- `push_object`: the value it pushes, and `*idx` after it.  Each call reads a token, so that as
many calls as there are tokens are enough. -/
def pushObject : Nat → Nat → Except AssertFailure (Val F × Nat)
  | 0, _ => .error pastEnd
  | fuel + 1, idx =>
      match tokens[idx]? with
      | some .arrayStart => do
          let (t, idx) ← pushItems fuel 1 Table.empty (idx + 1)
          return (.table none t, idx + 1)
      | some .mapStart => do
          let (t, idx) ← pushMembers fuel Table.empty (idx + 1)
          return (.table none t, idx + 1)
      | some (.string strIdx) => do
          let s ← lsStrarrAt strarr strIdx
          return (.string s, idx + 1)
      | some (.number num) => return (.number num, idx + 1)
      | some (.boolean flag) => return (.boolean flag, idx + 1)
      | some .null => return (.nil, idx + 1)
      | some _ => .error ⟨"LS_MUST_BE_UNREACHABLE()"⟩
      | none => .error pastEnd

/-- The loop over the items of an array in `push_object`. -/
def pushItems : Nat → Nat → Table F → Nat → Except AssertFailure (Table F × Nat)
  | 0, _, _, _ => .error pastEnd
  | fuel + 1, n, t, idx =>
      match tokens[idx]? with
      | some .arrayEnd => return (t, idx)
      | some _ => do
          let (v, idx) ← pushObject fuel idx
          lsAssert (n ≤ maxi) "n <= (size_t) LS_LUA_MAXI"
          pushItems fuel (n + 1) (t.rawset (.idx n) v) idx
      | none => .error pastEnd

/-- The loop over the members of an object in `push_object`. -/
def pushMembers : Nat → Table F → Nat → Except AssertFailure (Table F × Nat)
  | 0, _, _ => .error pastEnd
  | fuel + 1, t, idx =>
      match tokens[idx]? with
      | some .mapEnd => return (t, idx)
      | some (.stringKey strIdx) => do
          let (v, idx) ← pushObject fuel (idx + 1)
          let s ← lsStrarrAt strarr strIdx
          pushMembers fuel (t.rawset (.str s) v) idx
      | some _ => .error ⟨"key.type == TYPE_STRING_KEY"⟩
      | none => .error pastEnd

end

end PushObject

/-- The call that `flush` makes if the widget is known and valid. -/
def deliver (env : Env F) (ctx : Context F) : Except AssertFailure (List (Nat × Val F)) :=
  if ctx.widget ≥ 0 ∧ ctx.widget < env.nwidgets then do
    let (v, idx) ← pushObject env.luaMaxi ctx.strarr ctx.tokens ctx.tokens.length 0
    lsAssert (idx = ctx.tokens.length) "idx == ctx->tokens.size"
    return ctx.calls ++ [(ctx.widget.toNat, v)]
  else return ctx.calls

/-- `flush`. -/
def flush (env : Env F) (ctx : Context F) : Except AssertFailure (Context F) := do
  let calls ← deliver env ctx
  return { ctx with lastKeyIsName := false, strarr := [], tokens := [], widget := -1, calls }

/-- `token_list_push`. -/
def tokenListPush (ctx : Context F) (token : Token F) : Context F :=
  { ctx with tokens := ctx.tokens ++ [token] }

/-- `token_helper`; the result says whether the parser is to go on. -/
def tokenHelper (env : Env F) (ctx : Context F) (token : Token F) :
    Except AssertFailure (Context F × Bool) :=
  if ctx.depth = -1 then
    match token with
    | .arrayStart => return ({ ctx with depth := ctx.depth + 1 }, true)
    | _ => return (ctx, false)
  else if ctx.depth = 0 ∧ ¬ token.isMapStart then return (ctx, false)
  else
    let ctx := tokenListPush ctx token
    match token with
    | .arrayStart | .mapStart =>
        let ctx := { ctx with depth := ctx.depth + 1 }
        if ctx.depth ≥ depthLimit then return (ctx, false) else return (ctx, true)
    | .arrayEnd | .mapEnd => do
        let ctx := { ctx with depth := ctx.depth - 1 }
        if ctx.depth = 0 then
          let ctx ← flush env ctx
          return (ctx, true)
        else return (ctx, true)
    | _ => return (ctx, true)

/-- `append_to_strarr`. -/
def appendToStrarr (ctx : Context F) (buf : Bytes) : Context F × Nat :=
  let strarr := ctx.strarr ++ [buf]
  ({ ctx with strarr }, strarr.length - 1)

/-- `callback_string`. -/
def callbackString (env : Env F) (ctx : Context F) (buf : Bytes) :
    Except AssertFailure (Context F × Bool) :=
  let ctx :=
    if ctx.depth = 1 ∧ ctx.lastKeyIsName = true then { ctx with widget := lsFullStrtouB buf }
    else ctx
  let (ctx, strIdx) := appendToStrarr ctx buf
  tokenHelper env ctx (.string strIdx)

/-- `callback_map_key`. -/
def callbackMapKey (env : Env F) (ctx : Context F) (buf : Bytes) :
    Except AssertFailure (Context F × Bool) :=
  let ctx := if ctx.depth = 1 then { ctx with lastKeyIsName := buf = lit "name" } else ctx
  let (ctx, strIdx) := appendToStrarr ctx buf
  tokenHelper env ctx (.stringKey strIdx)

/-- The callback for an event.  A number is reported as an integer or as a double. -/
def callback (env : Env F) (ctx : Context F) :
    Event (Int ⊕ F) → Except AssertFailure (Context F × Bool)
  | .null => tokenHelper env ctx .null
  | .boolean b => tokenHelper env ctx (.boolean b)
  | .number (.inl i) => tokenHelper env ctx (.number (env.ofInt i))
  | .number (.inr x) => tokenHelper env ctx (.number x)
  | .string s => callbackString env ctx s
  | .startMap => tokenHelper env ctx .mapStart
  | .mapKey s => callbackMapKey env ctx s
  | .endMap => tokenHelper env ctx .mapEnd
  | .startArray => tokenHelper env ctx .arrayStart
  | .endArray => tokenHelper env ctx .arrayEnd

/-- What the parser does with some events: it stops when a callback says so. -/
def parse (env : Env F) : List (Event (Int ⊕ F)) → Context F →
    Except AssertFailure (Context F × Bool)
  | [], ctx => return (ctx, true)
  | e :: es, ctx => do
      let (ctx, goOn) ← callback env ctx e
      if goOn then parse env es ctx else return (ctx, false)

/-- The context that `event_watcher` starts with. -/
def Context.init : Context F := ⟨-1, false, [], [], -1, []⟩

/-! ## What `push_object` rebuilds -/

/-- The conversion of a number that the parser reports. -/
def number (ofInt : Int → F) : Int ⊕ F → F
  | .inl i => ofInt i
  | .inr x => x

mutual

/-- The Lua value that mirrors a JSON value. -/
def mirror (ofInt : Int → F) : Value (Int ⊕ F) → Val F
  | .null => .nil
  | .boolean b => .boolean b
  | .number x => .number (number ofInt x)
  | .string s => .string s
  | .array items => .table none (Table.ofItems (mirrorItems ofInt items))
  | .object members => .table none (Table.ofFields (mirrorMembers ofInt members))

def mirrorItems (ofInt : Int → F) : List (Value (Int ⊕ F)) → List (Val F)
  | [] => []
  | v :: vs => mirror ofInt v :: mirrorItems ofInt vs

def mirrorMembers (ofInt : Int → F) : List (Bytes × Value (Int ⊕ F)) → List (Bytes × Val F)
  | [] => []
  | (k, v) :: ms => (k, mirror ofInt v) :: mirrorMembers ofInt ms

end

/-- `Records ofInt strarr e t`: the token `t` stands for the event `e`. -/
inductive Records (ofInt : Int → F) (strarr : List Bytes) : Event (Int ⊕ F) → Token F → Prop where
  | null : Records ofInt strarr .null .null
  | boolean : Records ofInt strarr (.boolean b) (.boolean b)
  | number : Records ofInt strarr (.number x) (.number (number ofInt x))
  | string : strarr[i]? = some s → Records ofInt strarr (.string s) (.string i)
  | startMap : Records ofInt strarr .startMap .mapStart
  | mapKey : strarr[i]? = some s → Records ofInt strarr (.mapKey s) (.stringKey i)
  | endMap : Records ofInt strarr .endMap .mapEnd
  | startArray : Records ofInt strarr .startArray .arrayStart
  | endArray : Records ofInt strarr .endArray .arrayEnd

/-- From index `idx` on, the tokens stand for the events. -/
def RecordsFrom (ofInt : Int → F) (strarr : List Bytes) (tokens : List (Token F)) (idx : Nat)
    (es : List (Event (Int ⊕ F))) : Prop :=
  List.Forall₂ (Records ofInt strarr) es (tokens.drop idx)

section Rebuild

variable {ofInt : Int → F} {strarr : List Bytes} {tokens : List (Token F)} {maxi : Nat}

theorem RecordsFrom.uncons {idx : Nat} {e : Event (Int ⊕ F)} {es : List (Event (Int ⊕ F))}
    (h : RecordsFrom ofInt strarr tokens idx (e :: es)) :
    ∃ t, tokens[idx]? = some t ∧ Records ofInt strarr e t ∧
      RecordsFrom ofInt strarr tokens (idx + 1) es := by
  obtain ⟨t, ts, he, hes, hdrop⟩ := List.forall₂_cons_left_iff.mp h
  refine ⟨t, ?_, he, ?_⟩
  · rw [← List.head?_drop, hdrop, List.head?_cons]
  · rw [RecordsFrom, ← List.drop_drop, hdrop]
    exact hes

/-- Past a part of the events. -/
theorem RecordsFrom.drop {idx : Nat} {es es' : List (Event (Int ⊕ F))}
    (h : RecordsFrom ofInt strarr tokens idx (es ++ es')) :
    RecordsFrom ofInt strarr tokens (idx + es.length) es' := by
  have := List.forall₂_drop es.length h
  rwa [List.drop_left, List.drop_drop] at this

theorem lsStrarrAt_eq {i : Nat} {s : Bytes} (h : strarr[i]? = some s) :
    lsStrarrAt strarr i = .ok s := by
  obtain ⟨hi, hs⟩ := List.getElem?_eq_some_iff.mp h
  rw [lsStrarrAt, lsAssert_bind_of_pos hi, List.getD_eq_getElem?_getD, h]
  rfl

/-- The first token of a value does not end an array. -/
theorem RecordsFrom.ne_arrayEnd {idx : Nat} {v : Value (Int ⊕ F)} {es : List (Event (Int ⊕ F))}
    (h : RecordsFrom ofInt strarr tokens idx (v.events ++ es)) :
    ∃ t, tokens[idx]? = some t ∧ t ≠ .arrayEnd := by
  cases v <;>
  · obtain ⟨t, ht, hrec, -⟩ := h.uncons
    refine ⟨t, ht, ?_⟩
    cases hrec
    nofun

/-- An item of an array is pushed and set. -/
theorem pushItems_item {fuel n idx : Nat} {t : Table F} {token : Token F}
    (h : tokens[idx]? = some token) (hne : token ≠ .arrayEnd) :
    pushItems maxi strarr tokens (fuel + 1) n t idx = (do
      let (v, idx) ← pushObject maxi strarr tokens fuel idx
      lsAssert (n ≤ maxi) "n <= (size_t) LS_LUA_MAXI"
      pushItems maxi strarr tokens fuel (n + 1) (t.rawset (.idx n) v) idx) := by
  rw [pushItems, h]
  cases token <;> first | rfl | exact absurd rfl hne

/-- The assertion on the index of an item. -/
def itemOverflow : AssertFailure := ⟨"n <= (size_t) LS_LUA_MAXI"⟩

/-- `r` is `x` if `c` holds, and otherwise the assertion on the index of an item fails. -/
structure Yields {α : Type} (c : Prop) (x : α) (r : Except AssertFailure α) : Prop where
  ok : c → r = .ok x
  overflow : ¬ c → r = .error itemOverflow

theorem Yields.pure {α : Type} (x : α) : Yields True x (.ok x) := ⟨fun _ => rfl, absurd trivial⟩

theorem Yields.assert (n : Nat) : Yields (n ≤ maxi) ()
    (lsAssert (n ≤ maxi) "n <= (size_t) LS_LUA_MAXI") :=
  ⟨fun h => if_pos h, fun h => if_neg h⟩

theorem Yields.bind {α β : Type} {c c' : Prop} {x : α} {y : β} {r : Except AssertFailure α}
    {k : α → Except AssertFailure β} (h : Yields c x r) (h' : c → Yields c' y (k x)) :
    Yields (c ∧ c') y (r >>= k) where
  ok hc := by rw [h.ok hc.1, ok_bind, (h' hc.1).ok hc.2]
  overflow hc := by
    by_cases hfirst : c
    · rw [h.ok hfirst, ok_bind, (h' hfirst).overflow fun hrest => hc ⟨hfirst, hrest⟩]
    · rw [h.overflow hfirst, error_bind]

theorem Yields.congr {α : Type} {c c' : Prop} {x y : α} {r : Except AssertFailure α}
    (h : Yields c x r) (hc : c ↔ c') (hx : x = y) : Yields c' y r :=
  ⟨fun h' => hx ▸ h.ok (hc.mpr h'), fun h' => h.overflow fun hn => h' (hc.mp hn)⟩

mutual

/-- `push_object` rebuilds the value whose tokens it finds, and moves past them, unless an array is
too long. -/
theorem pushObject_spec : ∀ (v : Value (Int ⊕ F)) (fuel idx : Nat)
    (es : List (Event (Int ⊕ F))), RecordsFrom ofInt strarr tokens idx (v.events ++ es) →
      v.events.length ≤ fuel →
        Yields (v.ItemsAtMost maxi) (mirror ofInt v, idx + v.events.length)
          (pushObject maxi strarr tokens fuel idx)
  | v, 0, _, _, _, hfuel => absurd hfuel (Nat.not_le.mpr v.events_length_pos)
  | .null, fuel + 1, idx, es, h, _ => by
      obtain ⟨t, ht, hrec, -⟩ := h.uncons
      cases hrec
      rw [pushObject, ht]
      exact .pure _
  | .boolean b, fuel + 1, idx, es, h, _ => by
      obtain ⟨t, ht, hrec, -⟩ := h.uncons
      cases hrec
      rw [pushObject, ht]
      exact .pure _
  | .number x, fuel + 1, idx, es, h, _ => by
      obtain ⟨t, ht, hrec, -⟩ := h.uncons
      cases hrec
      rw [pushObject, ht]
      exact .pure _
  | .string s, fuel + 1, idx, es, h, _ => by
      obtain ⟨t, ht, hrec, -⟩ := h.uncons
      cases hrec with
      | string hs =>
          rw [pushObject, ht]
          simp only [lsStrarrAt_eq hs, ok_bind]
          exact .pure _
  | .array items, fuel + 1, idx, es, h, hfuel => by
      rw [Value.events, List.append_assoc] at h
      obtain ⟨t, ht, hrec, hrest⟩ := h.uncons
      cases hrec
      simp only [Value.events, List.length_append, List.length_cons, List.length_nil] at hfuel ⊢
      have hitems := pushItems_spec items fuel 1 Table.empty (idx + 1) es hrest (by omega)
        (by omega)
      rw [pushObject, ht]
      refine Yields.congr (hitems.bind fun _ => .pure _) ?_ ?_
      · rw [and_true, Value.ItemsAtMost, Nat.add_comm 1, Nat.add_le_add_iff_right]
      · rw [Table.setItems_empty, show idx + 1 + (itemsEvents items).length + 1 =
          idx + ((itemsEvents items).length + 1 + (0 + 1)) by omega]
        rfl
  | .object members, fuel + 1, idx, es, h, hfuel => by
      rw [Value.events, List.append_assoc] at h
      obtain ⟨t, ht, hrec, hrest⟩ := h.uncons
      cases hrec
      simp only [Value.events, List.length_append, List.length_cons, List.length_nil] at hfuel ⊢
      have hmembers := pushMembers_spec members fuel Table.empty (idx + 1) es hrest (by omega)
      rw [pushObject, ht]
      refine Yields.congr (hmembers.bind fun _ => .pure _) ?_ ?_
      · rw [and_true, Value.ItemsAtMost]
      · rw [Table.setFields_empty, show idx + 1 + (membersEvents members).length + 1 =
          idx + ((membersEvents members).length + 1 + (0 + 1)) by omega]
        rfl

theorem pushItems_spec : ∀ (vs : List (Value (Int ⊕ F))) (fuel n : Nat) (t : Table F) (idx : Nat)
    (es : List (Event (Int ⊕ F))),
      RecordsFrom ofInt strarr tokens idx (itemsEvents vs ++ .endArray :: es) →
        (itemsEvents vs).length < fuel → n ≤ maxi + 1 →
          Yields (n + vs.length ≤ maxi + 1 ∧ ItemsItemsAtMost maxi vs)
            (Table.setItems n t (mirrorItems ofInt vs), idx + (itemsEvents vs).length)
            (pushItems maxi strarr tokens fuel n t idx)
  | _, 0, _, _, _, _, _, hfuel, _ => absurd hfuel (Nat.not_lt_zero _)
  | [], fuel + 1, n, t, idx, es, h, _, hn => by
      obtain ⟨token, htoken, hrec, -⟩ := h.uncons
      cases hrec
      rw [pushItems, htoken]
      exact (Yields.pure _).congr (iff_of_true trivial ⟨hn, trivial⟩) rfl
  | v :: vs, fuel + 1, n, t, idx, es, h, hfuel, hn => by
      rw [itemsEvents, List.append_assoc] at h
      rw [itemsEvents, List.length_append] at hfuel ⊢
      have hpos := v.events_length_pos
      obtain ⟨token, htoken, hne⟩ := h.ne_arrayEnd
      have hrest : RecordsFrom ofInt strarr tokens (idx + v.events.length)
          (itemsEvents vs ++ .endArray :: es) := h.drop
      rw [pushItems_item htoken hne]
      refine ((pushObject_spec v fuel idx _ h (by omega)).bind fun _ => (Yields.assert n).bind
        fun hindex => pushItems_spec vs fuel (n + 1) (t.rawset (.idx n) (mirror ofInt v)) _ es hrest
          (by omega) (by omega)).congr ?_ ?_
      · rw [List.length_cons, ItemsItemsAtMost]
        constructor
        · rintro ⟨hv, _, hlen, hvs⟩
          exact ⟨by omega, hv, hvs⟩
        · rintro ⟨hlen, hv, hvs⟩
          exact ⟨hv, by omega, by omega, hvs⟩
      · rw [Nat.add_assoc]
        rfl

theorem pushMembers_spec : ∀ (ms : List (Bytes × Value (Int ⊕ F))) (fuel : Nat) (t : Table F)
    (idx : Nat) (es : List (Event (Int ⊕ F))),
      RecordsFrom ofInt strarr tokens idx (membersEvents ms ++ .endMap :: es) →
        (membersEvents ms).length < fuel →
          Yields (MembersItemsAtMost maxi ms)
            (Table.setFields t (mirrorMembers ofInt ms), idx + (membersEvents ms).length)
            (pushMembers maxi strarr tokens fuel t idx)
  | _, 0, _, _, _, _, hfuel => absurd hfuel (Nat.not_lt_zero _)
  | [], fuel + 1, t, idx, es, h, _ => by
      obtain ⟨token, htoken, hrec, -⟩ := h.uncons
      cases hrec
      rw [pushMembers, htoken]
      exact .pure _
  | (k, v) :: ms, fuel + 1, t, idx, es, h, hfuel => by
      rw [membersEvents, List.cons_append, List.cons_append, List.append_assoc] at h
      simp only [membersEvents, List.length_cons, List.length_append, List.cons_append] at hfuel ⊢
      obtain ⟨token, htoken, hrec, hvalue⟩ := h.uncons
      have hrest : RecordsFrom ofInt strarr tokens (idx + 1 + v.events.length)
          (membersEvents ms ++ .endMap :: es) := hvalue.drop
      cases hrec with
      | mapKey hs =>
          rw [pushMembers, htoken]
          simp only [lsStrarrAt_eq hs, ok_bind]
          refine ((pushObject_spec v fuel (idx + 1) _ hvalue (by omega)).bind fun _ =>
            pushMembers_spec ms fuel (t.rawset (.str k) (mirror ofInt v)) _ es hrest
              (by omega)).congr Iff.rfl ?_
          rw [show idx + 1 + v.events.length + (membersEvents ms).length =
            idx + (v.events.length + (membersEvents ms).length + 1) by omega]
          rfl

end

end Rebuild

end Luastatus.I3

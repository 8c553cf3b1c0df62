import Luastatus.I3.EventWatcher

/-!
# Every click is delivered once

`delivery` says which widget an object goes to, and as what.  `Feeds` is what some events do to the
context inside an object: they are recorded, and nothing is delivered.  The depth says whether a
string may be the object's name, so that values (`feeds_value`) and the members of the object itself
(`feeds_topMembers`) are two inductions.  `parse_objects` is the run over complete objects.

`push_object` asserts that the indices of an array stay within `LS_LUA_MAXI`, so what is delivered
has to have arrays that are not longer.
-/

namespace Luastatus.I3

open Text (Bytes lit decimalValue)
open LibLs Lua Json

variable {F : Type}

/-! ## What is to be delivered -/

/-- The members of an object. -/
abbrev Members (F : Type) := List (Bytes × Value (Int ⊕ F))

/-- The string that a member gives the object as its name. -/
def nameOf : Bytes × Value (Int ⊕ F) → Option Bytes
  | (k, .string s) => if k = lit "name" then some s else none
  | _ => none

/-- The last string under the key `name`. -/
def lastName (ms : Members F) : Option Bytes := (ms.filterMap nameOf).getLast?

/-- The widget that an object is for. -/
def target (env : Env F) (ms : Members F) : Option Nat :=
  ((lastName ms).bind decimalValue).filter (· < env.nwidgets)

/-- The callback that an object causes: its widget, and its mirror image. -/
def delivery (env : Env F) (ms : Members F) : Option (Nat × Val F) :=
  (target env ms).map fun w => (w, mirror env.ofInt (.object ms))

/-- The context between two objects. -/
def Context.idle (calls : List (Nat × Val F)) : Context F := ⟨0, false, [], [], -1, calls⟩

/-! ## One event inside an object -/

/-- The change of the depth. -/
def bracket : Event (Int ⊕ F) → Int
  | .startMap | .startArray => 1
  | .endMap | .endArray => -1
  | _ => 0

/-- The change of the depth that a token makes. -/
def Token.bracket : Token F → Int
  | .mapStart | .arrayStart => 1
  | .mapEnd | .arrayEnd => -1
  | _ => 0

/-- The context that a callback passes to `token_helper`. -/
def prepare (ctx : Context F) : Event (Int ⊕ F) → Context F
  | .string s =>
      { ctx with
        widget := if ctx.depth = 1 ∧ ctx.lastKeyIsName = true then lsFullStrtouB s else ctx.widget
        strarr := ctx.strarr ++ [s] }
  | .mapKey s =>
      { ctx with
        lastKeyIsName := if ctx.depth = 1 then s = lit "name" else ctx.lastKeyIsName
        strarr := ctx.strarr ++ [s] }
  | _ => ctx

/-- The token that a callback passes to `token_helper`. -/
def tokenOf (env : Env F) (ctx : Context F) : Event (Int ⊕ F) → Token F
  | .null => .null
  | .boolean b => .boolean b
  | .number x => .number (number env.ofInt x)
  | .string _ => .string ctx.strarr.length
  | .startMap => .mapStart
  | .mapKey _ => .stringKey ctx.strarr.length
  | .endMap => .mapEnd
  | .startArray => .arrayStart
  | .endArray => .arrayEnd

/-- The context after an event inside an object. -/
def after (env : Env F) (ctx : Context F) (e : Event (Int ⊕ F)) : Context F :=
  { tokenListPush (prepare ctx e) (tokenOf env ctx e) with depth := ctx.depth + bracket e }

/-- The context has recorded the events. -/
def Recorded (env : Env F) (ctx : Context F) (es : List (Event (Int ⊕ F))) : Prop :=
  RecordsFrom env.ofInt ctx.strarr ctx.tokens 0 es

/-- What some events do inside an object: `k` is the change of the depth. -/
structure Feeds (env : Env F) (es : List (Event (Int ⊕ F))) (k : Int) (ctx ctx' : Context F) :
    Prop where
  run : ∀ rest, parse env (es ++ rest) ctx = parse env rest ctx'
  depth : ctx'.depth = ctx.depth + k
  calls : ctx'.calls = ctx.calls
  recorded : ∀ past, Recorded env ctx past → Recorded env ctx' (past ++ es)

/-- What is remembered of the object's name stays. -/
structure SameName (ctx ctx' : Context F) : Prop where
  lastKeyIsName : ctx'.lastKeyIsName = ctx.lastKeyIsName
  widget : ctx'.widget = ctx.widget

variable {env : Env F} {ctx ctx' ctx'' : Context F}

theorem Feeds.nil (env : Env F) (ctx : Context F) : Feeds env [] 0 ctx ctx where
  run _ := rfl
  depth := (Int.add_zero _).symm
  calls := rfl
  recorded past h := by rwa [List.append_nil]

theorem Feeds.trans {es es' : List (Event (Int ⊕ F))} {k k' : Int}
    (h : Feeds env es k ctx ctx') (h' : Feeds env es' k' ctx' ctx'') :
    Feeds env (es ++ es') (k + k') ctx ctx'' where
  run rest := by rw [List.append_assoc, h.run, h'.run]
  depth := by rw [h'.depth, h.depth, Int.add_assoc]
  calls := h'.calls.trans h.calls
  recorded past hpast := by
    rw [← List.append_assoc]
    exact h'.recorded _ (h.recorded past hpast)

theorem SameName.trans (h : SameName ctx ctx') (h' : SameName ctx' ctx'') : SameName ctx ctx'' :=
  ⟨h'.1.trans h.1, h'.2.trans h.2⟩

theorem getElem?_append_of_eq {l : List Bytes} {i : Nat} {s : Bytes} (h : l[i]? = some s)
    (more : List Bytes) : (l ++ more)[i]? = some s := by
  rw [List.getElem?_append_left (List.getElem?_eq_some_iff.mp h).1, h]

theorem Records.mono {ofInt : Int → F} {strarr : List Bytes} {e : Event (Int ⊕ F)} {t : Token F}
    (h : Records ofInt strarr e t) (more : List Bytes) : Records ofInt (strarr ++ more) e t := by
  cases h with
  | null => exact .null
  | boolean => exact .boolean
  | number => exact .number
  | string hs => exact .string (getElem?_append_of_eq hs more)
  | startMap => exact .startMap
  | mapKey hs => exact .mapKey (getElem?_append_of_eq hs more)
  | endMap => exact .endMap
  | startArray => exact .startArray
  | endArray => exact .endArray

theorem callback_eq (env : Env F) (ctx : Context F) (e : Event (Int ⊕ F)) :
    callback env ctx e = tokenHelper env (prepare ctx e) (tokenOf env ctx e) := by
  cases e with
  | number x => cases x <;> rfl
  | string s =>
      simp only [callback, callbackString, appendToStrarr, prepare, tokenOf]
      split <;> simp
  | mapKey s =>
      simp only [callback, callbackMapKey, appendToStrarr, prepare, tokenOf]
      split <;> simp
  | null => rfl
  | boolean b => rfl
  | startMap => rfl
  | endMap => rfl
  | startArray => rfl
  | endArray => rfl

theorem bracket_tokenOf (env : Env F) (ctx : Context F) (e : Event (Int ⊕ F)) :
    (tokenOf env ctx e).bracket = bracket e := by
  cases e <;> rfl

/-- Inside an object `token_helper` goes on, unless the token ends the object or goes too deep. -/
theorem tokenHelper_inside (t : Token F) (hpos : 1 ≤ ctx.depth)
    (hopen : ctx.depth + t.bracket ≠ 0) (hlim : ctx.depth + t.bracket < depthLimit) :
    tokenHelper env ctx t =
      .ok ({ tokenListPush ctx t with depth := ctx.depth + t.bracket }, true) := by
  have hstarted : ¬ ctx.depth = -1 := by omega
  have hinside : ¬ (ctx.depth = 0 ∧ ¬ t.isMapStart = true) := by omega
  have hstart (h : ctx.depth + 1 < depthLimit) : ¬ ctx.depth + 1 ≥ depthLimit := by omega
  have hend (h : ctx.depth + -1 ≠ 0) : ¬ ctx.depth - 1 = 0 := by omega
  unfold tokenHelper
  rw [if_neg hstarted, if_neg hinside]
  cases t with
  | arrayStart => exact if_neg (hstart hlim)
  | mapStart => exact if_neg (hstart hlim)
  | arrayEnd => exact if_neg (hend hopen)
  | mapEnd => exact if_neg (hend hopen)
  | stringKey i => simp [Token.bracket, tokenListPush, pure, Except.pure]
  | string i => simp [Token.bracket, tokenListPush, pure, Except.pure]
  | number x => simp [Token.bracket, tokenListPush, pure, Except.pure]
  | boolean b => simp [Token.bracket, tokenListPush, pure, Except.pure]
  | null => simp [Token.bracket, tokenListPush, pure, Except.pure]

/-- Inside an object an event is recorded, unless it ends the object or goes too deep. -/
theorem feeds_event (env : Env F) (ctx : Context F) (e : Event (Int ⊕ F)) (hpos : 1 ≤ ctx.depth)
    (hopen : ctx.depth + bracket e ≠ 0) (hlim : ctx.depth + bracket e < depthLimit) :
    Feeds env [e] (bracket e) ctx (after env ctx e) where
  run rest := by
    have hdepth : (prepare ctx e).depth = ctx.depth := by cases e <;> rfl
    have hstep : callback env ctx e = .ok (after env ctx e, true) := by
      rw [← bracket_tokenOf env ctx, ← hdepth] at hopen hlim
      rw [callback_eq, tokenHelper_inside _ (hdepth ▸ hpos) hopen hlim, hdepth, bracket_tokenOf]
      rfl
    rw [List.singleton_append, parse, hstep]
    rfl
  depth := rfl
  calls := by cases e <;> rfl
  recorded past h := by
    have hpast (more : List Bytes) : List.Forall₂ (Records env.ofInt (ctx.strarr ++ more)) past
        ctx.tokens := List.Forall₂.imp (fun _ _ h => h.mono more) h
    have hlast (s : Bytes) : (ctx.strarr ++ [s])[ctx.strarr.length]? = some s := by simp
    cases e with
    | null => exact List.rel_append h (.cons .null .nil)
    | boolean b => exact List.rel_append h (.cons .boolean .nil)
    | number x => exact List.rel_append h (.cons .number .nil)
    | string s => exact List.rel_append (hpast [s]) (.cons (.string (hlast s)) .nil)
    | startMap => exact List.rel_append h (.cons .startMap .nil)
    | mapKey s => exact List.rel_append (hpast [s]) (.cons (.mapKey (hlast s)) .nil)
    | endMap => exact List.rel_append h (.cons .endMap .nil)
    | startArray => exact List.rel_append h (.cons .startArray .nil)
    | endArray => exact List.rel_append h (.cons .endArray .nil)

/-- Deeper than the members of the object, no event is about its name. -/
theorem sameName_after (env : Env F) (ctx : Context F) (e : Event (Int ⊕ F))
    (hdeep : ctx.depth ≠ 1) :
    SameName ctx (after env ctx e) := by
  cases e with
  | string s => exact ⟨rfl, if_neg fun h => hdeep h.1⟩
  | mapKey s => exact ⟨if_neg hdeep, rfl⟩
  | _ => exact ⟨rfl, rfl⟩

/-! ## Values and members -/

/-- The widget after a value directly under the key `name`. -/
def widgetAfter (widget : Int) : Value (Int ⊕ F) → Int
  | .string s => lsFullStrtouB s
  | _ => widget

/-- The end of a container that is not the object itself. -/
theorem feeds_end (env : Env F) (ctx : Context F) {e : Event (Int ⊕ F)} (he : bracket e = -1)
    (hdeep : 2 ≤ ctx.depth) (hlim : ctx.depth < depthLimit) :
    Feeds env [e] (-1) ctx (after env ctx e) ∧ SameName ctx (after env ctx e) := by
  have h := feeds_event env ctx e (by omega) (by omega) (by omega)
  rw [he] at h
  exact ⟨h, sameName_after env ctx e (by omega)⟩

/-- A container inside the object is recorded if its inside is. -/
theorem feeds_container (stop : Event (Int ⊕ F)) {start : Event (Int ⊕ F)}
    {body : List (Event (Int ⊕ F))} (hstart : bracket start = 1) (hstop : bracket stop = -1)
    (hpos : 1 ≤ ctx.depth) (hlim : ctx.depth + 1 < depthLimit)
    (hname : SameName ctx (after env ctx start))
    (hbody : ∃ inner, Feeds env body 0 (after env ctx start) inner ∧
      SameName (after env ctx start) inner) :
    ∃ ctx', Feeds env (start :: body ++ [stop]) 0 ctx ctx' ∧ SameName ctx ctx' := by
  obtain ⟨inner, hfeeds, hsame⟩ := hbody
  have hopen := feeds_event env ctx start hpos (by omega) (by omega)
  rw [hstart] at hopen
  have hdepth : inner.depth = ctx.depth + 1 := by
    rw [hfeeds.depth, hopen.depth, Int.add_zero]
  obtain ⟨hend, hsame'⟩ := feeds_end env inner hstop (by omega) (by omega)
  exact ⟨_, (hopen.trans hfeeds).trans hend, (hname.trans hsame).trans hsame'⟩

variable (env) in
mutual

/-- A value is recorded.  Directly in the object, a string under the key `name` decides on the
widget. -/
theorem feeds_value : ∀ (v : Value (Int ⊕ F)) (ctx : Context F), 1 ≤ ctx.depth →
    ctx.depth + v.nesting < depthLimit →
      ∃ ctx', Feeds env v.events 0 ctx ctx' ∧ ctx'.lastKeyIsName = ctx.lastKeyIsName ∧
        ctx'.widget = if ctx.depth = 1 ∧ ctx.lastKeyIsName = true then widgetAfter ctx.widget v
          else ctx.widget
  | .null, ctx, hpos, hlim =>
      ⟨_, feeds_event env ctx .null hpos (by simp only [bracket]; omega) hlim, rfl,
        (ite_self _).symm⟩
  | .boolean b, ctx, hpos, hlim =>
      ⟨_, feeds_event env ctx (.boolean b) hpos (by simp only [bracket]; omega) hlim, rfl,
        (ite_self _).symm⟩
  | .number x, ctx, hpos, hlim =>
      ⟨_, feeds_event env ctx (.number x) hpos (by simp only [bracket]; omega) hlim, rfl,
        (ite_self _).symm⟩
  | .string s, ctx, hpos, hlim =>
      ⟨_, feeds_event env ctx (.string s) hpos (by simp only [bracket]; omega) hlim, rfl, rfl⟩
  | .array items, ctx, hpos, hlim => by
      simp only [Value.nesting] at hlim
      have hdepth : (after env ctx .startArray).depth = ctx.depth + 1 := rfl
      obtain ⟨ctx', hfeeds, hsame⟩ := feeds_container .endArray rfl rfl hpos (by omega)
        ⟨rfl, rfl⟩ (feeds_items items (after env ctx .startArray) (by omega) (by omega))
      exact ⟨ctx', hfeeds, hsame.lastKeyIsName, hsame.widget.trans (ite_self _).symm⟩
  | .object members, ctx, hpos, hlim => by
      simp only [Value.nesting] at hlim
      have hdepth : (after env ctx .startMap).depth = ctx.depth + 1 := rfl
      obtain ⟨ctx', hfeeds, hsame⟩ := feeds_container .endMap rfl rfl hpos (by omega)
        ⟨rfl, rfl⟩ (feeds_members members (after env ctx .startMap) (by omega) (by omega))
      exact ⟨ctx', hfeeds, hsame.lastKeyIsName, hsame.widget.trans (ite_self _).symm⟩

/-- The items of an array are recorded. -/
theorem feeds_items : ∀ (vs : List (Value (Int ⊕ F))) (ctx : Context F), 2 ≤ ctx.depth →
    ctx.depth + nestingItems vs < depthLimit →
      ∃ ctx', Feeds env (itemsEvents vs) 0 ctx ctx' ∧ SameName ctx ctx'
  | [], ctx, _, _ => ⟨ctx, .nil env ctx, rfl, rfl⟩
  | v :: vs, ctx, hdeep, hlim => by
      simp only [nestingItems] at hlim
      obtain ⟨ctx', hv, hkey, hwidget⟩ := feeds_value v ctx (by omega) (by omega)
      have hdepth : ctx'.depth = ctx.depth := by rw [hv.depth, Int.add_zero]
      obtain ⟨ctx'', hvs, hsame⟩ := feeds_items vs ctx' (by omega) (by omega)
      rw [if_neg (by omega)] at hwidget
      exact ⟨ctx'', hv.trans hvs, SameName.trans ⟨hkey, hwidget⟩ hsame⟩

/-- The members of an object inside the object are recorded. -/
theorem feeds_members : ∀ (ms : Members F) (ctx : Context F), 2 ≤ ctx.depth →
    ctx.depth + nestingMembers ms < depthLimit →
      ∃ ctx', Feeds env (membersEvents ms) 0 ctx ctx' ∧ SameName ctx ctx'
  | [], ctx, _, _ => ⟨ctx, .nil env ctx, rfl, rfl⟩
  | (k, v) :: ms, ctx, hdeep, hlim => by
      simp only [nestingMembers] at hlim
      have hk := feeds_event env ctx (.mapKey k) (by omega)
        (by simp only [bracket]; omega) (by simp only [bracket]; omega)
      have hname := sameName_after env ctx (.mapKey k) (by omega)
      have hdepth : (after env ctx (.mapKey k)).depth = ctx.depth := Int.add_zero _
      obtain ⟨ctx', hv, hkey, hwidget⟩ := feeds_value v (after env ctx (.mapKey k))
        (by omega) (by omega)
      have hdepth' : ctx'.depth = ctx.depth := by rw [hv.depth, hdepth, Int.add_zero]
      obtain ⟨ctx'', hms, hsame⟩ := feeds_members ms ctx' (by omega) (by omega)
      rw [if_neg (by omega)] at hwidget
      exact ⟨ctx'', (hk.trans hv).trans hms,
        (hname.trans ⟨hkey, hwidget⟩).trans hsame⟩

end

/-! ## The members of the object itself -/

/-- The widget after some members of the object. -/
def widgetAfterMembers (widget : Int) : Members F → Int
  | [] => widget
  | (k, v) :: ms => widgetAfterMembers (if k = lit "name" then widgetAfter widget v else widget) ms

/-- The members of the object are recorded, and their names decide on the widget. -/
theorem feeds_topMembers (env : Env F) (ms : Members F) (ctx : Context F) (htop : ctx.depth = 1)
    (hlim : 1 + nestingMembers ms < depthLimit) :
    ∃ ctx', Feeds env (membersEvents ms) 0 ctx ctx' ∧
      ctx'.widget = widgetAfterMembers ctx.widget ms := by
  induction ms generalizing ctx with
  | nil => exact ⟨ctx, .nil env ctx, rfl⟩
  | cons m ms ih =>
      obtain ⟨k, v⟩ := m
      simp only [nestingMembers] at hlim
      have hk := feeds_event env ctx (.mapKey k) (by omega)
        (by simp only [bracket]; omega) (by simp only [bracket]; omega)
      have hdepth : (after env ctx (.mapKey k)).depth = 1 := by rw [hk.depth, htop]; rfl
      have hkey : (after env ctx (.mapKey k)).lastKeyIsName = decide (k = lit "name") := by
        simp [after, prepare, tokenListPush, htop]
      obtain ⟨ctx', hv, -, hwidget⟩ := feeds_value env v (after env ctx (.mapKey k))
        (by omega) (by omega)
      have hdepth' : ctx'.depth = 1 := by rw [hv.depth, hdepth, Int.add_zero]
      obtain ⟨ctx'', hms, hrest⟩ := ih ctx' hdepth' (by omega)
      refine ⟨ctx'', (hk.trans hv).trans hms, ?_⟩
      rw [hrest, hwidget, hkey, hdepth, widgetAfterMembers]
      simp only [true_and, decide_eq_true_eq]
      rfl

theorem widgetAfter_eq (widget : Int) (k : Bytes) (v : Value (Int ⊕ F)) :
    (if k = lit "name" then widgetAfter widget v else widget) =
      ((nameOf (k, v)).map lsFullStrtouB).getD widget := by
  cases v with
  | string s =>
      rw [nameOf]
      split <;> rfl
  | _ => exact ite_self _

/-- The widget is that of the last name. -/
theorem widgetAfterMembers_eq (ms : Members F) (widget : Int) :
    widgetAfterMembers widget ms = ((lastName ms).map lsFullStrtouB).getD widget := by
  induction ms generalizing widget with
  | nil => rfl
  | cons m ms ih =>
      obtain ⟨k, v⟩ := m
      rw [widgetAfterMembers, ih, widgetAfter_eq, lastName, lastName, List.filterMap_cons]
      cases nameOf (k, v) with
      | none => rfl
      | some s =>
          rw [List.getLast?_cons]
          cases (ms.filterMap nameOf).getLast? <;> rfl

/-- The widget that the context holds in the end is the target, or it is no widget. -/
theorem widget_target (env : Env F) (ms : Members F) :
    match target env ms with
    | some w => widgetAfterMembers (-1) ms = w ∧ w < env.nwidgets
    | none => ¬ (widgetAfterMembers (-1) ms ≥ 0 ∧ widgetAfterMembers (-1) ms < env.nwidgets) := by
  rw [widgetAfterMembers_eq, target]
  cases lastName ms with
  | none => simp
  | some s =>
      have hparse := lsFullStrtouB_eq s
      have hmax := env.nwidgets_le
      simp only [Option.bind_some, Option.map_some, Option.getD_some]
      cases hvalue : decimalValue s with
      | none =>
          rw [hvalue] at hparse
          simp only [Option.filter_none]
          omega
      | some k =>
          rw [hvalue] at hparse
          simp only at hparse
          by_cases hk : k < env.nwidgets
          · rw [if_pos (by omega)] at hparse
            rw [Option.filter_some_pos (by simpa using hk)]
            exact ⟨hparse, hk⟩
          · rw [Option.filter_some_neg (by simpa using hk)]
            split at hparse <;> omega

/-! ## Objects -/

/-- The end of the object. -/
theorem parse_endMap (rest : List (Event (Int ⊕ F))) (htop : ctx.depth = 1) :
    parse env (.endMap :: rest) ctx =
      (flush env { tokenListPush ctx .mapEnd with depth := 0 } >>= parse env rest) := by
  have hdepth : ctx.depth - 1 = 0 := by omega
  have hstarted : ¬ ctx.depth = -1 := by omega
  have hinside : ¬ (ctx.depth = 0 ∧ ¬ (Token.mapEnd (F := F)).isMapStart = true) := by omega
  rw [parse, callback]
  unfold tokenHelper
  rw [if_neg hstarted, if_neg hinside]
  simp only [tokenListPush, hdepth, ↓reduceIte]
  cases flush env { ctx with depth := 0, tokens := ctx.tokens ++ [.mapEnd] } <;> rfl

/-- The events of an object lead to `flush`, with all of them recorded and the widget known. -/
theorem parse_toFlush (env : Env F) (ms : Members F) (calls : List (Nat × Val F))
    (hnesting : (Value.object ms).nesting < depthLimit) :
    ∃ ctx : Context F, ctx.depth = 0 ∧ ctx.calls = calls ∧
      ctx.widget = widgetAfterMembers (-1) ms ∧
      Recorded env ctx (Value.object ms).events ∧
      ∀ rest, parse env ((Value.object ms).events ++ rest) (.idle calls) =
        (flush env ctx >>= parse env rest) := by
  let opened : Context F := ⟨1, false, [], [.mapStart], -1, calls⟩
  have hopened : Recorded env opened [.startMap] := .cons .startMap .nil
  simp only [Value.nesting] at hnesting
  obtain ⟨ctx, hms, hwidget⟩ := feeds_topMembers env ms opened rfl (by omega)
  have htop : ctx.depth = 1 := hms.depth
  refine ⟨{ tokenListPush ctx .mapEnd with depth := 0 }, rfl, hms.calls, hwidget, ?_, ?_⟩
  · exact List.rel_append (hms.recorded _ hopened) (.cons .endMap .nil)
  · intro rest
    have hstart (es : List (Event (Int ⊕ F))) :
        parse env (.startMap :: es) (.idle calls) = parse env es opened := rfl
    rw [Value.events, List.append_assoc, List.cons_append, hstart, hms.run]
    exact parse_endMap rest htop

/-- At the end of an object `flush` makes the call. -/
theorem deliver_spec {ms : Members F} (hwidget : ctx.widget = widgetAfterMembers (-1) ms)
    (hrec : Recorded env ctx (Value.object ms).events) :
    Yields ((delivery env ms).isSome → (Value.object ms).ItemsAtMost env.luaMaxi)
      (ctx.calls ++ (delivery env ms).toList) (deliver env ctx) := by
  have htarget := widget_target env ms
  rw [← hwidget] at htarget
  cases hw : target env ms with
  | none =>
      rw [hw] at htarget
      rw [deliver, if_neg htarget, delivery, hw]
      exact (Yields.pure _).congr (iff_of_true trivial nofun) (List.append_nil _).symm
  | some w =>
      rw [hw] at htarget
      have hlen : (Value.object ms).events.length = ctx.tokens.length := hrec.length_eq
      have hpush : Yields ((Value.object ms).ItemsAtMost env.luaMaxi)
          (mirror env.ofInt (.object ms), 0 + (Value.object ms).events.length)
          (pushObject env.luaMaxi ctx.strarr ctx.tokens ctx.tokens.length 0) :=
        pushObject_spec (Value.object ms) ctx.tokens.length 0 [] (by rwa [List.append_nil])
          (Nat.le_of_eq hlen)
      rw [hlen, Nat.zero_add] at hpush
      rw [deliver, if_pos (by omega), delivery, hw, htarget.1]
      refine Yields.congr (hpush.bind fun _ => ?_) ((and_true _).to_iff.trans ?_) rfl
      · simp only [lsAssert_bind_of_pos]
        exact .pure _
      · exact ⟨fun h _ => h, fun h => h rfl⟩

/-- An object that is to be delivered but has an array that is too long ends the program. -/
theorem parse_object_overflow (env : Env F) (ms : Members F) (calls : List (Nat × Val F))
    (hnesting : (Value.object ms).nesting < depthLimit) (hsome : (delivery env ms).isSome)
    (hlong : ¬ (Value.object ms).ItemsAtMost env.luaMaxi) (rest : List (Event (Int ⊕ F))) :
    parse env ((Value.object ms).events ++ rest) (.idle calls) = .error itemOverflow := by
  obtain ⟨ctx, -, -, hwidget, hrec, hrun⟩ := parse_toFlush env ms calls hnesting
  rw [hrun, flush, (deliver_spec hwidget hrec).overflow fun h => hlong (h hsome), error_bind,
    error_bind]

/-- A complete object is delivered as it is to be, and the context is as before. -/
theorem parse_object (env : Env F) (ms : Members F) (calls : List (Nat × Val F))
    (hnesting : (Value.object ms).nesting < depthLimit)
    (hmax : (delivery env ms).isSome → (Value.object ms).ItemsAtMost env.luaMaxi)
    (rest : List (Event (Int ⊕ F))) :
    parse env ((Value.object ms).events ++ rest) (.idle calls) =
      parse env rest (.idle (calls ++ (delivery env ms).toList)) := by
  obtain ⟨ctx, hdepth, hcalls, hwidget, hrec, hrun⟩ := parse_toFlush env ms calls hnesting
  rw [hrun, flush, (deliver_spec hwidget hrec).ok hmax, ok_bind, hcalls, hdepth]
  rfl

/-- Complete objects are delivered one after the other. -/
theorem parse_objects (env : Env F) (objs : List (Members F))
    (hobjs : ∀ ms ∈ objs, (Value.object ms).nesting < depthLimit ∧
      ((delivery env ms).isSome → (Value.object ms).ItemsAtMost env.luaMaxi))
    (calls : List (Nat × Val F)) (rest : List (Event (Int ⊕ F))) :
    parse env (objs.flatMap (fun ms => (Value.object ms).events) ++ rest) (.idle calls) =
      parse env rest (.idle (calls ++ objs.filterMap (delivery env))) := by
  induction objs generalizing calls with
  | nil => simp
  | cons ms objs ih =>
      obtain ⟨⟨hnesting, hmax⟩, hrest⟩ := List.forall_mem_cons.mp hobjs
      rw [List.flatMap_cons, List.append_assoc, parse_object env ms calls hnesting hmax,
        ih hrest, List.append_assoc, List.filterMap_cons]
      cases delivery env ms <;> rfl

theorem parse_startArray (env : Env F) (es : List (Event (Int ⊕ F))) :
    parse env (.startArray :: es) .init = parse env es (.idle []) := rfl

/-! ## An object that is not complete -/

theorem deliver_calls {calls : List (Nat × Val F)} (h : deliver env ctx = .ok calls) :
    ctx.calls <+: calls := by
  rw [deliver] at h
  split at h
  · cases hpush : pushObject env.luaMaxi ctx.strarr ctx.tokens ctx.tokens.length 0 with
    | error e =>
        rw [hpush] at h
        cases h
    | ok r =>
        rw [hpush, ok_bind] at h
        by_cases hidx : r.2 = ctx.tokens.length
        · simp only [lsAssert_bind_of_pos hidx] at h
          cases h
          exact List.prefix_append _ _
        · simp only [lsAssert_bind_of_neg hidx] at h
          cases h
  · cases h
    exact List.prefix_refl _

theorem flush_calls (h : flush env ctx = .ok ctx') : ctx.calls <+: ctx'.calls := by
  rw [flush] at h
  cases hdeliver : deliver env ctx with
  | error e =>
      rw [hdeliver] at h
      cases h
  | ok calls =>
      rw [hdeliver] at h
      cases h
      exact deliver_calls hdeliver

theorem tokenHelper_calls {t : Token F} {goOn : Bool}
    (h : tokenHelper env ctx t = .ok (ctx', goOn)) : ctx.calls <+: ctx'.calls := by
  have hflush {c : Context F}
      (h : (do let c ← flush env c; return (c, true)) = Except.ok (ctx', goOn))
      (hc : c.calls = ctx.calls) : ctx.calls <+: ctx'.calls := by
    cases hf : flush env c with
    | error e =>
        rw [hf] at h
        cases h
    | ok c' =>
        rw [hf] at h
        cases h
        exact hc ▸ flush_calls hf
  unfold tokenHelper at h
  split at h
  · split at h <;> cases h <;> exact List.prefix_refl _
  · split at h
    · cases h
      exact List.prefix_refl _
    · simp only at h
      split at h
      · split at h <;> cases h <;> exact List.prefix_refl _
      · split at h <;> cases h <;> exact List.prefix_refl _
      · split at h
        · exact hflush h rfl
        · cases h
          exact List.prefix_refl _
      · split at h
        · exact hflush h rfl
        · cases h
          exact List.prefix_refl _
      · cases h
        exact List.prefix_refl _

/-- Callbacks that have been made are not taken back. -/
theorem callback_calls {e : Event (Int ⊕ F)} {goOn : Bool}
    (h : callback env ctx e = .ok (ctx', goOn)) : ctx.calls <+: ctx'.calls := by
  have hprepare : (prepare ctx e).calls = ctx.calls := by cases e <;> rfl
  rw [callback_eq] at h
  exact hprepare ▸ tokenHelper_calls h

theorem parse_calls {es : List (Event (Int ⊕ F))} {goOn : Bool}
    (h : parse env es ctx = .ok (ctx', goOn)) : ctx.calls <+: ctx'.calls := by
  induction es generalizing ctx with
  | nil =>
      cases h
      exact List.prefix_refl _
  | cons e es ih =>
      rw [parse] at h
      cases hstep : callback env ctx e with
      | error f =>
          rw [hstep] at h
          cases h
      | ok r =>
          obtain ⟨c, b⟩ := r
          rw [hstep, ok_bind] at h
          have hfirst := callback_calls hstep
          cases b with
          | true => exact hfirst.trans (ih h)
          | false =>
              cases h
              exact hfirst

/-- If all events are accepted, so are the first of them. -/
theorem parse_of_append {es es' : List (Event (Int ⊕ F))}
    (h : parse env (es ++ es') ctx = .ok (ctx', true)) :
    ∃ c, parse env es ctx = .ok (c, true) ∧ parse env es' c = .ok (ctx', true) := by
  induction es generalizing ctx with
  | nil => exact ⟨ctx, rfl, h⟩
  | cons e es ih =>
      rw [List.cons_append, parse] at h
      rw [parse]
      cases hstep : callback env ctx e with
      | error f =>
          rw [hstep] at h
          cases h
      | ok r =>
          obtain ⟨c, b⟩ := r
          rw [hstep, ok_bind] at h
          cases b with
          | true => exact ih h
          | false => cases h

/-- The events of an object that is not complete are accepted, and nothing is delivered. -/
theorem parse_incomplete (env : Env F) (ms : Members F) (calls : List (Nat × Val F))
    (hnesting : (Value.object ms).nesting < depthLimit) {pre : List (Event (Int ⊕ F))}
    (hpre : pre <+: .startMap :: membersEvents ms) :
    ∃ ctx, parse env pre (.idle calls) = .ok (ctx, true) ∧ ctx.calls = calls := by
  let opened : Context F := ⟨1, false, [], [.mapStart], -1, calls⟩
  simp only [Value.nesting] at hnesting
  obtain ⟨ctx, hms, -⟩ := feeds_topMembers env ms opened rfl (by omega)
  obtain ⟨more, hmore⟩ := hpre
  have hall : parse env (pre ++ more) (.idle calls) = .ok (ctx, true) := by
    rw [hmore, show parse env (.startMap :: membersEvents ms) (.idle calls) =
      parse env (membersEvents ms) opened from rfl, ← List.append_nil (membersEvents ms), hms.run]
    rfl
  obtain ⟨c, hc, hrest⟩ := parse_of_append hall
  refine ⟨c, hc, ?_⟩
  have hsame : ctx.calls = calls := hms.calls
  have hle : c.calls <+: calls := hsame ▸ parse_calls hrest
  exact hle.eq_of_length_le (parse_calls hc).length_le

/-! ## The stream -/

/-- On every stream of events from i3bar, which is an array of complete objects and perhaps the
beginning of another one, the watcher fails no assertion, every complete object is delivered as it
is to be, and after complete objects the context is as between the first two. -/
theorem clicks_delivered (env : Env F) (objs : List (Members F)) (last : Members F)
    (pre : List (Event (Int ⊕ F)))
    (hobjs : ∀ ms ∈ objs, (Value.object ms).nesting < depthLimit ∧
      ((delivery env ms).isSome → (Value.object ms).ItemsAtMost env.luaMaxi))
    (hlast : (Value.object last).nesting < depthLimit)
    (hpre : pre <+: (Value.object last).events) (hne : pre ≠ (Value.object last).events) :
    ∃ ctx, parse env (.startArray :: objs.flatMap (fun ms => (Value.object ms).events) ++ pre)
        .init = .ok (ctx, true) ∧
      ctx.calls = objs.filterMap (delivery env) ∧
      (pre = [] → ctx = .idle (objs.filterMap (delivery env))) := by
  rw [List.cons_append, parse_startArray, parse_objects env objs hobjs, List.nil_append]
  obtain ⟨ctx, hctx, hcalls⟩ := parse_incomplete env last (objs.filterMap (delivery env)) hlast
    (prefix_of_events_object hpre hne)
  refine ⟨ctx, hctx, hcalls, ?_⟩
  rintro rfl
  cases hctx
  rfl

/-- A click on the second of two widgets. -/
theorem clicks_delivered_second :
    let env : Env Int := ⟨2, by decide, intMax, id⟩
    let click : Members Int := [(lit "name", .string (lit "1")), (lit "button", .number (.inl 3))]
    ∃ ctx, parse env (.startArray :: (Value.object click).events) .init = .ok (ctx, true) ∧
      ctx.calls = [(1, mirror id (.object click))] := by
  intro env click
  have hdelivery : delivery env click = some (1, mirror id (.object click)) := rfl
  obtain ⟨ctx, hctx, hcalls, -⟩ := clicks_delivered env [click] [] []
    (List.forall_mem_singleton.mpr ⟨by decide, fun _ => ⟨trivial, trivial, trivial⟩⟩) (by decide)
    List.nil_prefix (List.cons_ne_nil _ _).symm
  refine ⟨ctx, ?_, ?_⟩
  · simpa using hctx
  · rw [hcalls, List.filterMap_cons_some hdelivery, List.filterMap_nil]

/-- A click for a widget, with an array of `k` nulls. -/
theorem parse_long_array (env : Env F) (hwidget : 0 < env.nwidgets) {k : Nat}
    (hk : env.luaMaxi < k) :
    parse env (.startArray :: (Value.object
        [(lit "name", .string (lit "0")), (lit "a", .array (List.replicate k .null))]).events)
      .init = .error itemOverflow := by
  have hflat : nestingItems (List.replicate k (Value.null (N := Int ⊕ F))) = 0 := by
    clear hk
    induction k with
    | zero => rfl
    | succ k ih =>
        rw [List.replicate_succ, nestingItems, ih]
        rfl
  have htarget : target env
      [(lit "name", .string (lit "0")), (lit "a", .array (List.replicate k .null))] = some 0 := by
    rw [target, show lastName [(lit "name", .string (lit "0")),
      (lit "a", .array (List.replicate k (Value.null (N := Int ⊕ F))))] = some (lit "0") from rfl]
    have hvalue : decimalValue (lit "0") = some 0 := by decide
    rw [Option.bind_some, hvalue]
    exact Option.filter_some_pos (decide_eq_true hwidget)
  have hlong := parse_object_overflow env
    [(lit "name", .string (lit "0")), (lit "a", .array (List.replicate k .null))] []
    (by simp only [Value.nesting, nestingMembers, hflat]; decide)
    (by rw [delivery, htarget]; rfl)
    (fun h => absurd h.2.1.1 (by rw [List.length_replicate]; omega)) []
  rw [List.append_nil] at hlong
  rw [parse_startArray]
  exact hlong

/-- An array of 2³¹ nulls, for a Lua whose indices are of type `int`. -/
theorem clicks_not_delivered_long_array :
    parse (⟨1, by decide, intMax, id⟩ : Env Int) (.startArray :: (Value.object
        [(lit "name", .string (lit "0")),
          (lit "a", .array (List.replicate (2 ^ 31) .null))]).events)
      .init = .error itemOverflow :=
  parse_long_array _ Nat.one_pos (show 2 ^ 31 - 1 < 2 ^ 31 by decide)

end Luastatus.I3

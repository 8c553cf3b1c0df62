import Luastatus.Core.Machine
import Luastatus.Lib.Mutex
import Luastatus.Lua.CallArg
import Luastatus.Lua.Value
import Luastatus.Multiplex.Conq
import Luastatus.Multiplex.WspecList

/-!
# The nested widgets of the multiplex plugin

The plugin runs widgets of its own, one for each data source.  A nested widget has a Lua state with
a mutex and a thread, in which its plugin calls `plugin_call_begin`, `plugin_call_end` and
`plugin_call_cancel` of `runner.c`.  What its `cb` returns, or that it failed, goes into the slot of
the queue.  The thread of the outer widget fetches the slots that changed and calls the outer `cb`
with a table of them.

The Lua code of the outer widget may call `call_event`, which runs the event function of a nested
widget.  The outer code never runs twice at a time, since the core has a mutex for it, so it is one
party (`OuterPc`), whether the thread of the widget or the event watcher executes it.

A `Cell` is a nested widget: the stack and the mutex of its Lua state and where its thread is.
`RunnerMove` are the moves of its thread, and `EventMove` those of the outer code in it.  As in the
core, the functions are cut where another thread can run in between, an assertion that fails sets
`assertFailed`, and which function is called and what it returned is read off the stack.

`Step` are the steps of the plugin.  A label tells what the nested widgets produced and what the
outer widget got to see.
-/

namespace Luastatus.Multiplex.Nested

open Text (Bytes lit)
open Lua
open Transition
open Luastatus.Core (LRef EventField)

/-! ## Nested widgets -/

/-- `widget_init_inspect_event` of `runner.c`: `lref_event`, or an error. -/
def widgetInitInspectEvent : EventField → Option LRef
  | .nil => some .refnil
  | .function => some .func
  | .string => none

/-- What a `cb` returns, as far as it is looked at. -/
inductive CbValue where
  | nil
  | string (s : Bytes)
  | other
deriving DecidableEq, Repr

/-- A `RunnerCallbackReason`, with the value for `REASON_NEW_DATA`. -/
inductive Outcome where
  | newData (v : CbValue)
  | luaError
  | pluginExited
deriving DecidableEq, Repr

/-- A `RunnerEventResult`. -/
inductive EventResult where
  | ok
  | noHandler
  | luaError
deriving DecidableEq, Repr

/-- One slot of the Lua stack. -/
inductive Slot where
  | errorHandler
  | cb
  | event
  | nil
  /-- A value that the plugin has pushed. -/
  | data
  | string (s : Bytes)
  | result (v : CbValue)
deriving DecidableEq, Repr

/-- A Lua stack, top first. -/
abbrev LuaStack := List Slot

/-- `lua_settop(L, 1)`. -/
def setTop1 (st : LuaStack) : LuaStack :=
  List.replicate (1 - st.length) .nil ++ st.drop (st.length - 1)

/-- Who uses the Lua state of a nested widget. -/
inductive Party where
  | runner
  | outer
deriving DecidableEq, Repr

/-- Where the thread of a nested widget is. -/
inductive RunnerPc where
  /-- There is no thread. -/
  | absent
  /-- In the plugin's `run()`, between cycles. -/
  | idle
  /-- In `plugin_call_begin`, with the mutex taken. -/
  | begun
  /-- `plugin_call_begin` has returned; the plugin has pushed `k` values. -/
  | opened (k : Nat)
  /-- In `plugin_call_end`; Lua runs the function `f`. -/
  | running (f : Slot)
  /-- `do_lua_call` has returned, with the value of the function if it succeeded. -/
  | returned (v : Option CbValue)
  /-- The callback has been called. -/
  | reported
  /-- About to unlock the mutex. -/
  | leaving
  /-- `run()` has returned. -/
  | exiting
  | done
deriving DecidableEq, Repr

/-- A nested widget. -/
structure Cell where
  stack : LuaStack
  mtx : Option Party
  pc : RunnerPc
  assertFailed : Bool

namespace Cell

variable (c : Cell)

/-- What `widget_init` leaves. -/
def initial : Cell :=
  { stack := [.errorHandler], mtx := none, pc := .absent, assertFailed := false }

/-- `LS_ASSERT`. -/
def check (b : Bool) : Cell := { c with assertFailed := c.assertFailed || !b }

def push (x : Slot) : Cell := { c with stack := x :: c.stack }

/-- `lua_pop(L, k)`. -/
def pop (k : Nat) : Cell := { c with stack := c.stack.drop k }

def setStack (st : LuaStack) : Cell := { c with stack := st }

def lock (p : Party) : Cell := { c with mtx := some p }

def unlock : Cell := { c with mtx := none }

def pcAt (pc : RunnerPc) : Cell := { c with pc := pc }

end Cell

/-- What `lua_type` and `lua_tolstring` see. -/
def Slot.cbValue : Slot → CbValue
  | .nil => .nil
  | .string s => .string s
  | .result v => v
  | .errorHandler | .cb | .event | .data => .other

/-- A move of the thread of a nested widget, and what it reports to the callback, if anything. -/
inductive RunnerMove (c : Cell) : Option Outcome → Cell → Prop where
  /-- `plugin_call_begin`, up to the lock. -/
  | callBegin : c.pc = .idle → c.mtx = none →
      RunnerMove c none ((c.lock .runner).pcAt .begun)
  /-- `plugin_call_begin`, from the lock on. -/
  | callBegun : c.pc = .begun →
      RunnerMove c none (((c.check (c.stack.length == 1)).push .cb).pcAt (.opened 0))
  /-- The plugin pushes a value. -/
  | callPush : c.pc = .opened k → RunnerMove c none ((c.push .data).pcAt (.opened (k + 1)))
  /-- The plugin pops a value of its own. -/
  | callPop : c.pc = .opened (k + 1) → RunnerMove c none ((c.pop 1).pcAt (.opened k))
  /-- `plugin_call_cancel`, up to the unlock. -/
  | callCancel : c.pc = .opened k →
      RunnerMove c none ((c.setStack (setTop1 c.stack)).pcAt .leaving)
  /-- `plugin_call_end`, up to the call of the function below the argument. -/
  | callEnd : c.pc = .opened 1 → c.stack = arg :: f :: rest →
      RunnerMove c none (((c.check (c.stack.length == 3)).setStack rest).pcAt (.running f))
  /-- The Lua function returns; `lua_pcall` pushes its one result. -/
  | callOk : c.pc = .running f →
      RunnerMove c none ((c.push (.result v)).pcAt (.returned (some v)))
  /-- The Lua function fails; `check_lua_call` pops the error that `lua_pcall` has pushed. -/
  | callFail : c.pc = .running f → RunnerMove c none (c.pcAt (.returned none))
  /-- The callback, with what is on top of the stack. -/
  | newData : c.pc = .returned (some v) → c.stack = x :: rest →
      RunnerMove c (some (.newData x.cbValue)) (c.pcAt .reported)
  | luaError : c.pc = .returned none → RunnerMove c (some .luaError) (c.pcAt .reported)
  /-- `lua_settop(L, 1)` of `plugin_call_end`. -/
  | callSettle : c.pc = .reported →
      RunnerMove c none ((c.setStack (setTop1 c.stack)).pcAt .leaving)
  /-- `UNLOCK_L(w)`, of `plugin_call_end` and `plugin_call_cancel`. -/
  | callUnlock : c.pc = .leaving → RunnerMove c none (c.unlock.pcAt .idle)
  /-- The plugin's `run()` returns. -/
  | runReturns : c.pc = .idle → RunnerMove c none (c.pcAt .exiting)
  | pluginExited : c.pc = .exiting → RunnerMove c (some .pluginExited) (c.pcAt .done)

/-- Where the outer code is in a nested widget. -/
inductive EventPc where
  /-- In `runner_event_begin`, about to lock the mutex. -/
  | waiting
  /-- In `runner_event_begin`, with the mutex taken. -/
  | begun
  /-- The argument is pushed. -/
  | opened
  /-- In `runner_event_end`; Lua runs the function `f` with the argument `arg`. -/
  | running (f arg : Slot)
  /-- About to unlock the mutex. -/
  | leaving (r : EventResult)
deriving DecidableEq, Repr

/-- What `lua_rawgeti(L, LUA_REGISTRYINDEX, w->lref_event)` pushes. -/
def eventSlot : LRef → Slot
  | .refnil => .nil
  | .func => .event

/-- A move of the outer code in a nested widget with the event function `r`, which it calls with
the data `d`. -/
inductive EventMove (r : LRef) (d : Bytes) (c : Cell) : EventPc → Cell → EventPc → Prop where
  | lock : c.mtx = none → EventMove r d c .waiting (c.lock .outer) .begun
  /-- `runner_event_begin`, and `lua_pushlstring`. -/
  | begun : EventMove r d c .begun
      (((c.check (c.stack.length == 1)).push (eventSlot r)).push (.string d)) .opened
  /-- There is no event function: the two slots are popped. -/
  | discard : r = .refnil →
      EventMove r d c .opened ((c.check (c.stack.length == 3)).pop 2) (.leaving .noHandler)
  | call : r ≠ .refnil → c.stack = arg :: f :: rest →
      EventMove r d c .opened ((c.check (c.stack.length == 3)).setStack rest) (.running f arg)
  | ok : EventMove r d c (.running f arg) c (.leaving .ok)
  /-- `check_lua_call` pops the error that `lua_pcall` has pushed. -/
  | fail : EventMove r d c (.running f arg) c (.leaving .luaError)

/-! ## The outer widget -/

/-- The functions of the outer widget. -/
inductive OuterFn where
  | cb
  | event
deriving DecidableEq, Repr

/-- Where the code of the outer widget is. -/
inductive OuterPc (n : Nat) where
  /-- None of it runs. -/
  | out
  | code (f : OuterFn)
  /-- In `l_call_event`, for the nested widget `i` and the data `d`. -/
  | calling (f : OuterFn) (i : Fin n) (d : Bytes) (e : EventPc)

/-- Where the thread of the outer widget is in `run`. -/
inductive ConsumerPc where
  /-- The nested widgets are made. -/
  | spawning
  /-- In `make_call_simple`, about to call `cb`. -/
  | greeting
  | inHello
  /-- About to create the thread of the `k`-th nested widget. -/
  | starting (k : Nat)
  /-- In `conq_fetch_updates`. -/
  | fetching
  /-- In `make_call_update`, about to call `cb`. -/
  | fetched (mask : ConqMask)
  | inUpdate
deriving DecidableEq, Repr

/-- `push_update`. -/
def pushUpdate (buf : Bytes) : SlotState → Val Int
  | .empty => .nil
  | .nil => .boolean false
  | .hasValue => .string buf
  | .errorPluginDone => .number 64
  | .errorLuaErr => .number 65
  | .errorBadType => .number 66

/-- What `recv_callback` stores in the slot. -/
def recvCallback : Outcome → Bytes × SlotState
  | .newData .nil => ([], .nil)
  | .newData (.string s) => (s, .hasValue)
  | .newData .other => ([], .errorBadType)
  | .luaError => ([], .errorLuaErr)
  | .pluginExited => ([], .errorPluginDone)

/-- The argument of `cb` in `make_call_simple`. -/
def simpleArg (what : String) : Val Int :=
  .table none (Table.empty.rawset (.str (lit "what")) (.string (lit what)))

variable (src : Sources)

/-- One round of the loop in `make_call_update`. -/
def addUpdate (mask : ConqMask) (out : Out src.count) (t : Table Int) (i : Fin src.count) :
    Table Int :=
  if (mask >>> i.val) &&& 1 = 0 then t
  else t.rawset (.str (src.name i).bytes) (pushUpdate (out.bufs i) (out.states i))

/-- The table of updates. -/
def updatesTable (mask : ConqMask) (out : Out src.count) : Table Int :=
  (List.finRange src.count).foldl (addUpdate src mask out) Table.empty

/-- The argument of `cb` in `make_call_update`. -/
def updateArg (mask : ConqMask) (out : Out src.count) : Val Int :=
  .table none ((Table.empty.rawset (.str (lit "what")) (.string (lit "update"))).rawset
    (.str (lit "updates")) (.table none (updatesTable src mask out)))

/-- The nested widgets that `runner_new` has made, by their `lref_event`; `none` is one that failed
to initialise. -/
abbrev Runners := Fin src.count → Option LRef

variable {src} {F : Type}

/-- `l_call_event` up to `runner_event_begin`: the nested widget and the data, or the results. -/
def lCallEvent (C : Coercions F) (W : Runners src) (spawned : Bool) (args : List (CallArg F)) :
    Except LuaError ((Fin src.count × Bytes) ⊕ List Ret) := do
  let name ← checkLString C args 1
  match wspecListFind src.wspecs (toCString name) with
  | none =>
      .error (.error (lit "cannot find data source with name '" ++ cstr name ++ lit "'"))
  | some i =>
      let data ← checkLString C args 2
      if spawned then
        match W i with
        | some _ => return .inl (i, data)
        | none => return .inr [.boolean false, .string (lit "widget-failed-to-init")]
      else .error (.error (lit "runners have not been spawned yet"))

/-- What `l_call_event` returns. -/
def eventAnswer : EventResult → List Ret
  | .ok => [.boolean true]
  | .noHandler => [.boolean false, .string (lit "no-handler")]
  | .luaError => [.boolean false, .string (lit "lua-error-in-handler")]

/-! ## Steps -/

/-- A state of the plugin. -/
structure State (src : Sources) where
  cells : Fin src.count → Cell
  conq : Multiplex.State src.count
  outer : OuterPc src.count
  consumer : ConsumerPc
  /-- `p->runners` is set. -/
  spawned : Bool

/-- What happens in a step. -/
inductive Label (n : Nat) where
  | internal
  /-- `recv_callback` is called for the nested widget `i`. -/
  | outcome (i : Fin n) (o : Outcome)
  /-- `conq_fetch_updates` returns the mask. -/
  | fetch (mask : ConqMask)
  /-- It waits. -/
  | wait
  | spuriousWakeup
  /-- The outer `cb` is called. -/
  | call (arg : Val Int)
  /-- `l_call_event` returns or throws. -/
  | answer (r : Except LuaError (List Ret))

namespace State

variable (s : State src)

def setCell (i : Fin src.count) (c : Cell) : State src :=
  { s with cells := Function.update s.cells i c }

def outerAt (pc : OuterPc src.count) : State src := { s with outer := pc }

def consumerAt (pc : ConsumerPc) : State src := { s with consumer := pc }

end State

/-- The consumer's place after `cb` has returned. -/
def ConsumerPc.afterCb : ConsumerPc → ConsumerPc
  | .inHello => .starting 0
  | .inUpdate => .fetching
  | pc => pc

/-- The queue after `recv_callback`. -/
def reported (q : Multiplex.State n) (i : Fin n) (o : Outcome) : Multiplex.State n :=
  let u := conqUpdateSlot q.q i (recvCallback o).1 (recvCallback o).2
  { q with q := u.1, consumer := signal u.2 q.consumer }

/-- `Step W C greet s l s'`: the plugin with the nested widgets `W` makes a step. -/
inductive Step (W : Runners src) (C : Coercions F) (greet : Bool) (s : State src) :
    Label src.count → State src → Prop where
  /-- A nested widget's thread moves, and reports nothing. -/
  | runner (i : Fin src.count) :
      RunnerMove (s.cells i) none c' → Step W C greet s .internal (s.setCell i c')
  /-- It calls `recv_callback`. -/
  | outcome (i : Fin src.count) (o : Outcome) :
      RunnerMove (s.cells i) (some o) c' →
      Step W C greet s (.outcome i o) { s.setCell i c' with conq := reported s.conq i o }
  /-- `run`, up to the assignment to `p->runners`. -/
  | spawn : s.consumer = .spawning →
      Step W C greet s .internal
        { s with consumer := if greet then .greeting else .starting 0, spawned := true }
  | hello : s.consumer = .greeting → s.outer = .out →
      Step W C greet s (.call (simpleArg "hello")) ((s.consumerAt .inHello).outerAt (.code .cb))
  /-- `pthread_create`, which may fail. -/
  | start (k : Fin src.count) (created : Bool) : s.consumer = .starting k →
      Step W C greet s .internal
        ((if (W k).isSome && created then s.setCell k ((s.cells k).pcAt .idle) else s).consumerAt
          (.starting (k + 1)))
  | started : s.consumer = .starting src.count →
      Step W C greet s .internal (s.consumerAt .fetching)
  | wait : s.consumer = .fetching → Multiplex.Step s.conq .wait conq' →
      Step W C greet s .wait { s with conq := conq' }
  | spuriousWakeup : s.consumer = .fetching → Multiplex.Step s.conq .spuriousWakeup conq' →
      Step W C greet s .spuriousWakeup { s with conq := conq' }
  | fetch (mask : ConqMask) : s.consumer = .fetching →
      Multiplex.Step s.conq (.fetch mask) conq' →
      Step W C greet s (.fetch mask) { s with conq := conq', consumer := .fetched mask }
  | update : s.consumer = .fetched mask → s.outer = .out →
      Step W C greet s (.call (updateArg src mask s.conq.out))
        ((s.consumerAt .inUpdate).outerAt (.code .cb))
  /-- The outer `cb` returns or fails. -/
  | cbReturns : s.outer = .code .cb →
      Step W C greet s .internal ((s.consumerAt s.consumer.afterCb).outerAt .out)
  /-- The event watcher calls the outer event function. -/
  | eventBegins : s.outer = .out → Step W C greet s .internal (s.outerAt (.code .event))
  | eventReturns : s.outer = .code .event → Step W C greet s .internal (s.outerAt .out)
  /-- `l_call_event` is done at once. -/
  | callFails : s.outer = .code f → lCallEvent C W s.spawned args = .error e →
      Step W C greet s (.answer (.error e)) s
  | callAnswers : s.outer = .code f → lCallEvent C W s.spawned args = .ok (.inr r) →
      Step W C greet s (.answer (.ok r)) s
  | callEvent : s.outer = .code f → lCallEvent C W s.spawned args = .ok (.inl (i, d)) →
      Step W C greet s .internal (s.outerAt (.calling f i d .waiting))
  | event (r : LRef) : s.outer = .calling f i d e → W i = some r →
      EventMove r d (s.cells i) e c' e' →
      Step W C greet s .internal ((s.setCell i c').outerAt (.calling f i d e'))
  /-- `UNLOCK_L(w)`, and `l_call_event` returns. -/
  | eventUnlock : s.outer = .calling f i d (.leaving r) →
      Step W C greet s (.answer (.ok (eventAnswer r)))
        ((s.setCell i (s.cells i).unlock).outerAt (.code f))

/-- The state in which `run` is called. -/
def initState (src : Sources) : State src where
  cells _ := .initial
  conq := Multiplex.initState src.count
  outer := .out
  consumer := .spawning
  spawned := false

/-- The plugin, for every order of the steps of its threads.  A run goes on after an assertion has
failed, so that it is no assumption that none does. -/
def system (W : Runners src) (C : Coercions F) (greet : Bool) :
    System (State src) (Label src.count) where
  init s := s = initState src
  step := Step W C greet

end Luastatus.Multiplex.Nested

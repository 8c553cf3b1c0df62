import Luastatus.Lib.Transition
import Mathlib.Data.Fin.Basic
import Mathlib.Logic.Function.Basic

/-!
# The callback machine of the core

The core runs one thread per live widget, which executes the plugin's `run()`, and one thread
that executes the barlib's `event_watcher()`.  Both call back into the core: a plugin through
`plugin_call_begin`, `plugin_call_end` and `plugin_call_cancel`, the event watcher through the
`ew_call_*` functions.  Between `begin` and `end` the caller pushes values onto the Lua stack it
was given.

There is a Lua state per live widget and one *separate state*, shared by all widgets whose event
function is given as a string and by all stillborn widgets.  Each Lua state has a mutex.  One more
mutex guards the barlib's `set()` and `set_error()`.

The functions are cut where another thread can run in between: at each lock, at each unlock, and
around each call into Lua or into the barlib.  `Move` has one constructor per piece.  An assertion
that fails sets `assertFailed`, a fatal error of the barlib sets `exited`, and nothing moves after
either.

Which Lua function is called is read off the stack, not off the program counter, so that the
wrong function would be run if the stack were wrong.
-/

namespace Luastatus.Core

/-! ## Widgets -/

/-- A Lua reference: `LUA_REFNIL` or a reference to a function. -/
inductive LRef where
  | refnil
  | func
deriving DecidableEq, Repr

/-- The type of the `widget.event` field, as far as it is accepted. -/
inductive EventField where
  | nil
  | function
  | string
deriving DecidableEq, Repr

/-- The fields of a widget that the callbacks read.  A stillborn widget has no Lua state of its
own, so its events must go to the separate state and be discarded there. -/
structure Widget where
  /-- `w->L == NULL`. -/
  isStillborn : Bool
  /-- `w->lref_event`. -/
  lrefEvent : LRef
  /-- `w->sepstate_event`. -/
  sepstateEvent : Bool
  /-- What `widget_init_stillborn` ensures. -/
  stillborn_wf : isStillborn = true → sepstateEvent = true ∧ lrefEvent = .refnil

/-- `widget_init_inspect_event`: where the event function of an initialized widget lives. -/
def widgetInitInspectEvent : EventField → Widget
  | .nil => ⟨false, .refnil, false, by simp⟩
  | .function => ⟨false, .func, false, by simp⟩
  | .string => ⟨false, .func, true, by simp⟩

/-- `widget_init_stillborn`. -/
def widgetInitStillborn : Widget := ⟨true, .refnil, true, by simp⟩

/-! ## Threads, Lua states and stacks -/

/-- A Lua state: a widget's own one, or `sepstate.L`. -/
inductive LuaId (n : Nat) where
  | own : Fin n → LuaId n
  | sep
deriving DecidableEq

/-- A thread that calls back into the core. -/
inductive Thread (n : Nat) where
  | plugin : Fin n → Thread n
  | ew
deriving DecidableEq

/-- `widget_event_lua_state`.  The same choice is made by `widget_event_L_mtx`. -/
def widgetEventLuaState (W : Fin n → Widget) (i : Fin n) : LuaId n :=
  if (W i).sepstateEvent then .sep else .own i

/-- One slot of a Lua stack. -/
inductive Slot (n : Nat) where
  | errorHandler
  | cb : Fin n → Slot n
  | event : Fin n → Slot n
  | nil
  | value
deriving DecidableEq

/-- A Lua stack, top first.  `lua_gettop` is its length. -/
abbrev LuaStack (n : Nat) := List (Slot n)

/-- `lua_settop(L, k)`. -/
def setTop (k : Nat) (st : LuaStack n) : LuaStack n :=
  List.replicate (k - st.length) .nil ++ st.drop (st.length - k)

/-- What `lua_rawgeti(L, LUA_REGISTRYINDEX, w->lref_event)` pushes. -/
def eventSlot (W : Fin n → Widget) (i : Fin n) : Slot n :=
  match (W i).lrefEvent with
  | .refnil => .nil
  | .func => .event i

/-! ## Program counters -/

/-- Where the thread of a widget is. -/
inductive PluginPc (n : Nat) where
  /-- In the plugin's `run()`, between cycles. -/
  | idle
  /-- In `plugin_call_begin`, with the mutex taken. -/
  | begun
  /-- `plugin_call_begin` has returned; the plugin has pushed `k` values. -/
  | opened (k : Nat)
  /-- In `plugin_call_end`; Lua runs the function `f`. -/
  | running (f : Slot n)
  /-- `do_lua_call` has returned `ok`; about to lock the barlib's mutex. -/
  | returned (ok : Bool)
  /-- The barlib's mutex is taken; about to call `set()` or `set_error()`. -/
  | setting (ok : Bool)
  /-- In `set_error()`. -/
  | settingError (ok : Bool)
  /-- The barlib is done; about to restore the stack and unlock the barlib's mutex. -/
  | shown (ok : Bool)
  /-- About to unlock the Lua mutex. -/
  | leaving
  /-- `run()` has returned; about to lock the barlib's mutex. -/
  | finishing
  /-- In the last `set_error()`. -/
  | finishingError
  /-- The thread has ended, or the widget is stillborn and has none. -/
  | done
deriving DecidableEq

/-- Where the event watcher's thread is. -/
inductive EwPc (n : Nat) where
  /-- In the barlib's `event_watcher()`, between cycles. -/
  | idle
  /-- In `ew_call_begin`, with the mutex taken. -/
  | begun (i : Fin n)
  /-- `ew_call_begin` has returned; the barlib has pushed `k` values. -/
  | opened (i : Fin n) (k : Nat)
  /-- In `ew_call_end`; Lua runs the function `f`. -/
  | running (i : Fin n) (f : Slot n)
  /-- `do_lua_call` has failed; about to lock the barlib's mutex. -/
  | failed (i : Fin n)
  /-- In `set_error()`. -/
  | failedError (i : Fin n)
  /-- About to clear `sepstate.cur_w` and unlock the Lua mutex. -/
  | leaving (i : Fin n)
  /-- `event_watcher()` has returned. -/
  | done
deriving DecidableEq

/-! ## States -/

/-- What the threads share, and where each of them is. -/
structure State (n : Nat) where
  /-- The stack of each Lua state. -/
  stack : LuaId n → LuaStack n
  /-- Who holds the mutex of each Lua state. -/
  mtx : LuaId n → Option (Thread n)
  /-- Who holds `barlib.set_mtx`. -/
  setMtx : Option (Thread n)
  /-- `sepstate.cur_w`. -/
  curW : Option (Fin n)
  /-- Where the widget threads are. -/
  plugin : Fin n → PluginPc n
  /-- Where the event watcher is. -/
  ew : EwPc n
  /-- An assertion has failed. -/
  assertFailed : Bool
  /-- `fatal_error_reported` has ended the process. -/
  exited : Bool

/-- The process has neither been aborted nor ended. -/
def State.Alive (s : State n) : Prop := s.assertFailed = false ∧ s.exited = false

/-- All widgets are initialized, nothing has been called yet. -/
def State.initial (W : Fin n → Widget) : State n where
  stack := fun _ => [.errorHandler]
  mtx := fun _ => none
  setMtx := none
  curW := none
  plugin := fun i => if (W i).isStillborn then .done else .idle
  ew := .idle
  assertFailed := false
  exited := false

namespace State

variable (s : State n)

/-- `LS_ASSERT`. -/
def check (b : Bool) : State n := { s with assertFailed := s.assertFailed || !b }

/-- `fatal_error_reported`. -/
def exit : State n := { s with exited := true }

def lock (l : LuaId n) (t : Thread n) : State n :=
  { s with mtx := Function.update s.mtx l (some t) }

def unlock (l : LuaId n) : State n := { s with mtx := Function.update s.mtx l none }

def lockB (t : Thread n) : State n := { s with setMtx := some t }

def unlockB : State n := { s with setMtx := none }

def setStack (l : LuaId n) (st : LuaStack n) : State n :=
  { s with stack := Function.update s.stack l st }

def push (l : LuaId n) (x : Slot n) : State n := s.setStack l (x :: s.stack l)

/-- `lua_pop(L, k)`. -/
def pop (l : LuaId n) (k : Nat) : State n := s.setStack l ((s.stack l).drop k)

def setTopAt (l : LuaId n) (k : Nat) : State n := s.setStack l (setTop k (s.stack l))

def pluginAt (i : Fin n) (pc : PluginPc n) : State n :=
  { s with plugin := Function.update s.plugin i pc }

def ewAt (pc : EwPc n) : State n := { s with ew := pc }

/-- `possibly_sepstate_call_begin`. -/
def possiblySepstateCallBegin (W : Fin n → Widget) (i : Fin n) : State n :=
  if (W i).sepstateEvent then { s with curW := some i } else s

/-- `possibly_sepstate_call_end`. -/
def possiblySepstateCallEnd (W : Fin n → Widget) (i : Fin n) : State n :=
  if (W i).sepstateEvent then { s with curW := none } else s

end State

/-- What the barlib's `set()` returns. -/
inductive SetResult where
  | ok
  | nonfatalErr
  | err
deriving DecidableEq, Repr

/-! ## Moves -/

/-- `Move W s t s'`: the thread `t` executes its next piece of code.  The plugin and the event
watcher push exactly one value before they end a cycle and any number before they cancel it. -/
inductive Move (W : Fin n → Widget) (s : State n) : Thread n → State n → Prop where
  /-- `plugin_call_begin`, up to the lock. -/
  | callBegin (i : Fin n) :
      s.plugin i = .idle → s.mtx (.own i) = none →
      Move W s (.plugin i) ((s.lock (.own i) (.plugin i)).pluginAt i .begun)
  /-- `plugin_call_begin`, from the lock on. -/
  | callBegun (i : Fin n) :
      s.plugin i = .begun →
      Move W s (.plugin i)
        (((s.check ((s.stack (.own i)).length == 1)).push (.own i) (.cb i)).pluginAt i (.opened 0))
  /-- The plugin pushes a value. -/
  | callPush (i : Fin n) (k : Nat) :
      s.plugin i = .opened k →
      Move W s (.plugin i) ((s.push (.own i) .value).pluginAt i (.opened (k + 1)))
  /-- The plugin pops a value of its own. -/
  | callPop (i : Fin n) (k : Nat) :
      s.plugin i = .opened (k + 1) →
      Move W s (.plugin i) ((s.pop (.own i) 1).pluginAt i (.opened k))
  /-- `plugin_call_end`, up to the call of the function below the argument. -/
  | callEnd (i : Fin n) (arg f : Slot n) (rest : LuaStack n) :
      s.plugin i = .opened 1 → s.stack (.own i) = arg :: f :: rest →
      Move W s (.plugin i)
        (((s.check ((s.stack (.own i)).length == 3)).setStack (.own i) rest).pluginAt i
          (.running f))
  /-- The Lua function returns; `lua_pcall` pushes its one result. -/
  | callOk (i : Fin n) (f : Slot n) :
      s.plugin i = .running f →
      Move W s (.plugin i) ((s.push (.own i) .value).pluginAt i (.returned true))
  /-- The Lua function fails; `check_lua_call` pops the error that `lua_pcall` has pushed. -/
  | callFail (i : Fin n) (f : Slot n) :
      s.plugin i = .running f →
      Move W s (.plugin i)
        (((s.push (.own i) .value).pop (.own i) 1).pluginAt i (.returned false))
  /-- `plugin_call_end`: `LOCK_B()`. -/
  | callLockB (i : Fin n) (ok : Bool) :
      s.plugin i = .returned ok → s.setMtx = none →
      Move W s (.plugin i) ((s.lockB (.plugin i)).pluginAt i (.setting ok))
  /-- The barlib's `set()` returns with `extra` more values on the stack. -/
  | callSet (i : Fin n) (extra : Nat) (r : SetResult) :
      s.plugin i = .setting true →
      Move W s (.plugin i)
        (let t := s.setStack (.own i) (List.replicate extra .value ++ s.stack (.own i))
         match r with
         | .ok => t.pluginAt i (.shown true)
         | .nonfatalErr => t.pluginAt i (.settingError true)
         | .err => (t.pluginAt i (.shown true)).exit)
  /-- The Lua function had failed, so the barlib's `set_error()` is called. -/
  | callNoSet (i : Fin n) :
      s.plugin i = .setting false →
      Move W s (.plugin i) (s.pluginAt i (.settingError false))
  /-- `set_error_unlocked`. -/
  | callSetError (i : Fin n) (ok fatal : Bool) :
      s.plugin i = .settingError ok →
      Move W s (.plugin i) (if fatal then s.exit else s.pluginAt i (.shown ok))
  /-- `plugin_call_end`: the stack is restored on the path where `set()` was called, and
  `UNLOCK_B()`. -/
  | callUnlockB (i : Fin n) (ok : Bool) :
      s.plugin i = .shown ok →
      Move W s (.plugin i)
        (((if ok then s.setTopAt (.own i) 1 else s).unlockB).pluginAt i .leaving)
  /-- `plugin_call_cancel`, up to the unlock. -/
  | callCancel (i : Fin n) (k : Nat) :
      s.plugin i = .opened k →
      Move W s (.plugin i) ((s.setTopAt (.own i) 1).pluginAt i .leaving)
  /-- `UNLOCK_L(w)`, of `plugin_call_end` and of `plugin_call_cancel`. -/
  | callUnlock (i : Fin n) :
      s.plugin i = .leaving →
      Move W s (.plugin i) ((s.unlock (.own i)).pluginAt i .idle)
  /-- The plugin's `run()` returns. -/
  | runReturns (i : Fin n) :
      s.plugin i = .idle →
      Move W s (.plugin i) (s.pluginAt i .finishing)
  /-- `widget_thread`: `LOCK_B()`. -/
  | finishLockB (i : Fin n) :
      s.plugin i = .finishing → s.setMtx = none →
      Move W s (.plugin i) ((s.lockB (.plugin i)).pluginAt i .finishingError)
  /-- `widget_thread`: `set_error_unlocked` and `UNLOCK_B()`. -/
  | finish (i : Fin n) (fatal : Bool) :
      s.plugin i = .finishingError →
      Move W s (.plugin i) (if fatal then s.exit else (s.unlockB).pluginAt i .done)
  /-- `ew_call_begin`, up to the lock. -/
  | ewBegin (i : Fin n) :
      s.ew = .idle → s.mtx (widgetEventLuaState W i) = none →
      Move W s .ew ((s.lock (widgetEventLuaState W i) .ew).ewAt (.begun i))
  /-- `ew_call_begin`, from the lock on. -/
  | ewBegun (i : Fin n) :
      s.ew = .begun i →
      Move W s .ew
        (let t := s.possiblySepstateCallBegin W i
         let l := widgetEventLuaState W i
         ((t.check ((t.stack l).length == 1)).push l (eventSlot W i)).ewAt (.opened i 0))
  /-- The barlib pushes a value. -/
  | ewPush (i : Fin n) (k : Nat) :
      s.ew = .opened i k →
      Move W s .ew ((s.push (widgetEventLuaState W i) .value).ewAt (.opened i (k + 1)))
  /-- The barlib pops a value of its own. -/
  | ewPop (i : Fin n) (k : Nat) :
      s.ew = .opened i (k + 1) →
      Move W s .ew ((s.pop (widgetEventLuaState W i) 1).ewAt (.opened i k))
  /-- `ew_call_end`, there is no event function: the two slots are popped. -/
  | ewDiscard (i : Fin n) :
      s.ew = .opened i 1 → (W i).lrefEvent = .refnil →
      Move W s .ew
        (let l := widgetEventLuaState W i
         ((s.check ((s.stack l).length == 3)).pop l 2).ewAt (.leaving i))
  /-- `ew_call_end`, up to the call of the function below the argument. -/
  | ewEnd (i : Fin n) (arg f : Slot n) (rest : LuaStack n) :
      s.ew = .opened i 1 → (W i).lrefEvent ≠ .refnil →
      s.stack (widgetEventLuaState W i) = arg :: f :: rest →
      Move W s .ew
        (let l := widgetEventLuaState W i
         ((s.check ((s.stack l).length == 3)).setStack l rest).ewAt (.running i f))
  /-- The event function returns; it has no results. -/
  | ewOk (i : Fin n) (f : Slot n) :
      s.ew = .running i f →
      Move W s .ew (s.ewAt (.leaving i))
  /-- The event function fails; `check_lua_call` pops the error that `lua_pcall` has pushed. -/
  | ewFail (i : Fin n) (f : Slot n) :
      s.ew = .running i f →
      Move W s .ew
        (let l := widgetEventLuaState W i
         ((s.push l .value).pop l 1).ewAt (.failed i))
  /-- `ew_call_end`: `LOCK_B()`. -/
  | ewLockB (i : Fin n) :
      s.ew = .failed i → s.setMtx = none →
      Move W s .ew ((s.lockB .ew).ewAt (.failedError i))
  /-- `ew_call_end`: `set_error_unlocked` and `UNLOCK_B()`. -/
  | ewSetError (i : Fin n) (fatal : Bool) :
      s.ew = .failedError i →
      Move W s .ew (if fatal then s.exit else (s.unlockB).ewAt (.leaving i))
  /-- `ew_call_cancel`, up to `possibly_sepstate_call_end`. -/
  | ewCancel (i : Fin n) (k : Nat) :
      s.ew = .opened i k →
      Move W s .ew ((s.setTopAt (widgetEventLuaState W i) 1).ewAt (.leaving i))
  /-- `possibly_sepstate_call_end` and `UNLOCK_E(w)`, of `ew_call_end` and `ew_call_cancel`. -/
  | ewUnlock (i : Fin n) :
      s.ew = .leaving i →
      Move W s .ew
        (((s.possiblySepstateCallEnd W i).unlock (widgetEventLuaState W i)).ewAt .idle)
  /-- The barlib's `event_watcher()` returns. -/
  | ewReturns :
      s.ew = .idle →
      Move W s .ew (s.ewAt .done)

/-- The core with the widgets `W`, for every order of the threads' moves. -/
def machine (W : Fin n → Widget) : Transition.System (State n) (Thread n) where
  init s := s = State.initial W
  step s t s' := s.Alive ∧ Move W s t s'

end Luastatus.Core

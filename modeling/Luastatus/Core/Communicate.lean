import Luastatus.Core.Protocol
import Luastatus.Lib.Atomic
import Luastatus.Lib.Heap
import Luastatus.Lib.Mutex
import Luastatus.Lua.Arg
import Luastatus.Lua.CallArg

/-!
# `luastatus.communicate`

Each widget has a string that the code of its `widget` table and its event function in the separate
state share.  `luastatus.communicate` reads and writes it, and its calls are promised to be atomic.
A `Comm` is a pointer to the string on the heap and a length.  One mutex guards the strings of all
widgets.

A thread calls the function while Lua code runs in it, which is between two moves of the callback
machine.  The code of the function is cut at every statement that reads or writes shared memory, so
any other thread may run between freeing the old string and storing the length of the new one.  An
access to memory that is not allocated sets `fault`.

The mutex is held while `lua_pushlstring` runs, which may throw, or run a finalizer that calls the
function again; then the mutex stays locked.  A finalizer that runs while the mutex is not held is
like a function that runs before the call.

Code in a widget's own Lua state finds the widget in an upvalue, code in the separate state finds
it in `sepstate.cur_w`.  That it is the widget the code belongs to is not assumed but proved: the
operation that is invoked is labelled with the widget of the running function.

The specification is the atomic object with a string for each widget (`strings`).  A call that has
to push a string may fail.
-/

namespace Luastatus.Core

open Memory
open Text (Bytes lit)
open Lua
open Transition

/-! ## The operations -/

/-- What is done to a string. -/
inductive Action where
  | read
  | readAndClear
  | write (new : Bytes)
  | cas (old new : Bytes)
deriving DecidableEq, Repr

/-- `lua_pushlstring` is called, with the mutex held. -/
def Action.pushes : Action → Bool
  | .read | .readAndClear => true
  | .write _ | .cas _ _ => false

/-- How a call ends: with results, or with an error that is thrown. -/
abbrev CommResult := Except LuaError (List Ret)

variable {F A : Type} {n : Nat}

/-- What `l_communicate` does with its arguments before it locks the mutex. -/
def parseAction (C : Coercions F) (args : List (CallArg F)) : Except LuaError Action := do
  let action := cstr (← checkLString C args 1)
  if action = lit "read" then return .read
  else if action = lit "read_and_clear" then return .readAndClear
  else if action = lit "write" then return .write (← checkLString C args 2)
  else if action = lit "cas" then return .cas (← checkLString C args 2) (← checkLString C args 3)
  else .error (.error (lit "unknown action '" ++ action ++ lit "'"))

/-- `Comm`. -/
structure Comm (A : Type) where
  data : Option A
  dataLen : Nat

/-- The bytes that `data` and `data_len` lead to, if the access is valid. -/
def Comm.bytes (c : Comm A) (heap : Heap A Bytes) : Option Bytes :=
  if c.dataLen = 0 then some []
  else
    match c.data with
    | none => none
    | some p =>
        (heap p).bind fun b => if c.dataLen ≤ b.length then some (b.take c.dataLen) else none

/-- The conditions of `comm_cas`. -/
def Comm.matches (c : Comm A) (heap : Heap A Bytes) (old : Bytes) : Option Bool :=
  if c.dataLen ≠ old.length then some false
  else if old.length = 0 then some true
  else (c.bytes heap).map fun v => decide (v = old)

/-- `data` leads to the string. -/
def Comm.Leads (heap : Heap A Bytes) (c : Comm A) (v : Bytes) : Prop :=
  match c.data with
  | none => v = []
  | some p => heap p = some v

/-- The string is stored. -/
def Comm.Holds (heap : Heap A Bytes) (c : Comm A) (v : Bytes) : Prop :=
  c.dataLen = v.length ∧ c.Leads heap v

/-! ## States -/

/-- A call that has checked its arguments. -/
structure Call (n : Nat) (F : Type) where
  /-- `w`. -/
  w : Fin n
  args : List (CallArg F)
  action : Action

/-- Where a thread is in `l_communicate`. -/
inductive CallPc (n : Nat) (F : Type) where
  /-- Outside. -/
  | out
  /-- At the beginning, called from the Lua state `l`. -/
  | entered (l : LuaId n) (args : List (CallArg F))
  /-- In `comm_lock`. -/
  | locking (c : Call n F)
  /-- The mutex is taken. -/
  | locked (c : Call n F)
  /-- In `comm_lock` again, called by a finalizer that `lua_pushlstring` runs. -/
  | relocking (c : Call n F)
  /-- In `comm_set`, before `free(c->data)`. -/
  | freeing (c : Call n F) (new : Bytes) (r : List Ret)
  /-- In `comm_set`, before the assignment to `c->data`. -/
  | duplicating (c : Call n F) (new : Bytes) (r : List Ret)
  /-- In `comm_set`, before the assignment to `c->data_len`. -/
  | measuring (c : Call n F) (new : Bytes) (r : List Ret)
  /-- In `comm_unlock`. -/
  | unlocking (c : Call n F) (r : List Ret)
  /-- About to return. -/
  | returning (r : CommResult)

/-- The callback machine with the calls of `l_communicate`. -/
structure CommState (n : Nat) (F A : Type) where
  core : State n
  heap : Heap A Bytes
  /-- `w->comm`. -/
  comm : Fin n → Comm A
  /-- Who holds the mutex of `comm.c`. -/
  mtx : Option (Thread n)
  call : Thread n → CallPc n F
  /-- There was an invalid access. -/
  fault : Bool

/-- What happens in a step. -/
inductive CommLabel (n : Nat) (F : Type) where
  /-- A move of the callback machine. -/
  | core (t : Thread n)
  /-- A function of the widget `w` calls `luastatus.communicate`. -/
  | invoke (t : Thread n) (w : Fin n) (args : List (CallArg F))
  /-- A step inside of the function. -/
  | inside (t : Thread n)
  /-- The last step that matters to others: the mutex is unlocked, or the arguments are rejected. -/
  | commit (t : Thread n) (w : Fin n) (args : List (CallArg F)) (r : CommResult)
  /-- `lua_pushlstring` has thrown. -/
  | thrown (t : Thread n) (w : Fin n) (args : List (CallArg F)) (e : LuaError)
  /-- `lua_pushlstring` has run a finalizer that calls `luastatus.communicate`. -/
  | reentered (t : Thread n)
  | respond (t : Thread n) (r : CommResult)

/-- The thread does not come to `comm_unlock`. -/
def CommLabel.keepsMutex (t : Thread n) : CommLabel n F → Bool
  | .thrown u _ _ _ | .reentered u => u = t
  | _ => false

/-- Who makes the step. -/
def CommLabel.thread : CommLabel n F → Thread n
  | .core t | .invoke t _ _ | .inside t | .commit t _ _ _ | .thrown t _ _ _ | .reentered t
  | .respond t _ => t

/-- A step in a call, on the way to `comm_unlock` or after it. -/
def CommLabel.goesOn : CommLabel n F → Bool
  | .inside _ | .commit _ _ _ _ | .respond _ _ => true
  | _ => false

/-- The thread has not come to `comm_unlock` in the history. -/
def keptMutex (h : List (CommLabel n F)) (t : Thread n) : Bool := h.any (CommLabel.keepsMutex t)

/-- The Lua state in which a thread runs a function, and the function. -/
def State.luaOf (W : Fin n → Widget) (s : State n) : Thread n → Option (LuaId n × Slot n)
  | .plugin i =>
      match s.plugin i with
      | .running f => some (.own i, f)
      | _ => none
  | .ew =>
      match s.ew with
      | .running i f => some (widgetEventLuaState W i, f)
      | _ => none

/-- The widget that a function belongs to. -/
def Slot.widget : Slot n → Option (Fin n)
  | .cb i | .event i => some i
  | _ => none

/-- `w` in `l_communicate`: the upvalue, or `sepstate.cur_w`. -/
def communicateWidget (s : State n) : LuaId n → Option (Fin n)
  | .own i => some i
  | .sep => s.curW

namespace CommState

variable (s : CommState n F A)

def callAt (t : Thread n) (pc : CallPc n F) : CommState n F A :=
  { s with call := Function.update s.call t pc }

def setComm (w : Fin n) (c : Comm A) : CommState n F A :=
  { s with comm := Function.update s.comm w c }

/-- Undefined behaviour. -/
def faulted : CommState n F A := { s with fault := true }

/-- Go on with what was read, if the access is valid. -/
def reading {β : Type} (x : Option β) (k : β → CommState n F A) : CommState n F A :=
  match x with
  | some v => k v
  | none => s.faulted

@[simp] theorem reading_some {β : Type} (v : β) (k : β → CommState n F A) :
    s.reading (some v) k = k v := rfl

end CommState

/-! ## Steps -/

section Steps

variable [DecidableEq A]

/-- `CommStep W C s l s'`. -/
inductive CommStep (W : Fin n → Widget) (C : Coercions F) (s : CommState n F A) :
    CommLabel n F → CommState n F A → Prop where
  /-- The callback machine moves; the thread is not in a call. -/
  | core (t : Thread n) (core' : State n) :
      s.call t = .out → Move W s.core t core' →
      CommStep W C s (.core t) { s with core := core' }
  | invoke (t : Thread n) (l : LuaId n) (f : Slot n) (w : Fin n) (args : List (CallArg F)) :
      s.call t = .out → s.core.luaOf W t = some (l, f) → f.widget = some w →
      CommStep W C s (.invoke t w args) (s.callAt t (.entered l args))
  /-- There is no widget: `&w->comm` of a null pointer. -/
  | noWidget (t : Thread n) (l : LuaId n) (args : List (CallArg F)) :
      s.call t = .entered l args → communicateWidget s.core l = none →
      CommStep W C s (.inside t) s.faulted
  | reject (t : Thread n) (l : LuaId n) (args : List (CallArg F)) (w : Fin n) (e : LuaError) :
      s.call t = .entered l args → communicateWidget s.core l = some w →
      parseAction C args = .error e →
      CommStep W C s (.commit t w args (.error e)) (s.callAt t (.returning (.error e)))
  | accept (t : Thread n) (l : LuaId n) (args : List (CallArg F)) (w : Fin n) (a : Action) :
      s.call t = .entered l args → communicateWidget s.core l = some w →
      parseAction C args = .ok a →
      CommStep W C s (.inside t) (s.callAt t (.locking ⟨w, args, a⟩))
  /-- `comm_lock` -/
  | lock (t : Thread n) (c : Call n F) :
      s.call t = .locking c → s.mtx = none →
      CommStep W C s (.inside t) { s.callAt t (.locked c) with mtx := some t }
  /-- `lua_pushlstring`, for `read`. -/
  | read (t : Thread n) (c : Call n F) :
      s.call t = .locked c → c.action = .read →
      CommStep W C s (.inside t)
        (s.reading ((s.comm c.w).bytes s.heap) fun v => s.callAt t (.unlocking c [.string v]))
  /-- `lua_pushlstring`, for `read_and_clear`. -/
  | readAndClear (t : Thread n) (c : Call n F) :
      s.call t = .locked c → c.action = .readAndClear →
      CommStep W C s (.inside t)
        (s.reading ((s.comm c.w).bytes s.heap) fun v => s.callAt t (.freeing c [] [.string v]))
  /-- An error is thrown past `comm_unlock`: memory is short, or a finalizer throws it. -/
  | throw (t : Thread n) (c : Call n F) (e : LuaError) :
      s.call t = .locked c → c.action.pushes = true →
      CommStep W C s (.thrown t c.w c.args e) (s.callAt t (.returning (.error e)))
  /-- A finalizer calls `luastatus.communicate` and gets to `comm_lock`. -/
  | reenter (t : Thread n) (c : Call n F) :
      s.call t = .locked c → c.action.pushes = true →
      CommStep W C s (.reentered t) (s.callAt t (.relocking c))
  | write (t : Thread n) (c : Call n F) (new : Bytes) :
      s.call t = .locked c → c.action = .write new →
      CommStep W C s (.inside t) (s.callAt t (.freeing c new []))
  /-- The comparison of `comm_cas`. -/
  | cas (t : Thread n) (c : Call n F) (old new : Bytes) :
      s.call t = .locked c → c.action = .cas old new →
      CommStep W C s (.inside t)
        (s.reading ((s.comm c.w).matches s.heap old) fun ok =>
          if ok then s.callAt t (.freeing c new [.boolean true])
          else s.callAt t (.unlocking c [.boolean false]))
  /-- `free(c->data)` -/
  | free (t : Thread n) (c : Call n F) (new : Bytes) (r : List Ret) :
      s.call t = .freeing c new r →
      CommStep W C s (.inside t)
        (match (s.comm c.w).data with
         | none => s.callAt t (.duplicating c new r)
         | some p =>
             match s.heap p with
             | none => s.faulted
             | some _ => { s.callAt t (.duplicating c new r) with heap := s.heap.free p })
  /-- `c->data = ls_xmemdup(new_data, new_data_len)` -/
  | dup (t : Thread n) (c : Call n F) (new : Bytes) (r : List Ret) (p : A) :
      s.call t = .duplicating c new r → s.heap p = none →
      CommStep W C s (.inside t)
        { (s.callAt t (.measuring c new r)).setComm c.w { s.comm c.w with data := some p } with
          heap := s.heap.put p new }
  /-- `malloc(0)` may return the null pointer. -/
  | dupNull (t : Thread n) (c : Call n F) (r : List Ret) :
      s.call t = .duplicating c [] r →
      CommStep W C s (.inside t)
        ((s.callAt t (.measuring c [] r)).setComm c.w { s.comm c.w with data := none })
  /-- `ls_oom()` -/
  | outOfMemory (t : Thread n) (c : Call n F) (new : Bytes) (r : List Ret) :
      s.call t = .duplicating c new r → new ≠ [] →
      CommStep W C s (.inside t) { s with core := s.core.exit }
  /-- `c->data_len = new_data_len` -/
  | measure (t : Thread n) (c : Call n F) (new : Bytes) (r : List Ret) :
      s.call t = .measuring c new r →
      CommStep W C s (.inside t)
        ((s.callAt t (.unlocking c r)).setComm c.w { s.comm c.w with dataLen := new.length })
  /-- `comm_unlock` -/
  | unlock (t : Thread n) (c : Call n F) (r : List Ret) :
      s.call t = .unlocking c r →
      CommStep W C s (.commit t c.w c.args (.ok r))
        { s.callAt t (.returning (.ok r)) with mtx := none }
  | respond (t : Thread n) (r : CommResult) :
      s.call t = .returning r →
      CommStep W C s (.respond t r) (s.callAt t .out)

/-- `widget_init` has zeroed every `Comm`. -/
def CommState.initial (F A : Type) (W : Fin n → Widget) : CommState n F A where
  core := State.initial W
  heap := Heap.empty
  comm := fun _ => { data := none, dataLen := 0 }
  mtx := none
  call := fun _ => .out
  fault := false

/-- The start of the threads: the strings are what the files of the widgets have left, which may
call `luastatus.communicate`, too. -/
structure CommState.Loaded (W : Fin n → Widget) (v : Fin n → Bytes) (s : CommState n F A) :
    Prop where
  core : s.core = State.initial W
  mtx : s.mtx = none
  call : ∀ t, s.call t = .out
  noFault : s.fault = false
  holds : ∀ w, (s.comm w).Holds s.heap (v w)
  unshared : ∀ w w' p, (s.comm w).data = some p → (s.comm w').data = some p →
    s.heap p ≠ none → w = w'
  noLeak : ∀ p, s.heap p ≠ none → ∃ w, (s.comm w).data = some p

theorem CommState.loaded_initial (F A : Type) (W : Fin n → Widget) :
    (CommState.initial F A W).Loaded W fun _ => [] where
  core := rfl
  mtx := rfl
  call _ := rfl
  noFault := rfl
  holds _ := ⟨rfl, rfl⟩
  unshared _ _ _ hp := by cases hp
  noLeak _ hp := absurd rfl hp

/-- The core with the calls of `luastatus.communicate`, for every order of the threads' steps; `v`
are the strings at the start. -/
def commMachine (A : Type) [DecidableEq A] (W : Fin n → Widget) (C : Coercions F)
    (v : Fin n → Bytes) : System (CommState n F A) (CommLabel n F) where
  init := CommState.Loaded W v
  step s l s' := s.core.Alive ∧ s.fault = false ∧ CommStep W C s l s'

end Steps

/-! ## The specification -/

/-- What an action does to a string. -/
def Action.apply (v : Bytes) : Action → List Ret × Bytes
  | .read => ([.string v], v)
  | .readAndClear => ([.string v], [])
  | .write new => ([], new)
  | .cas old new => if v = old then ([.boolean true], new) else ([.boolean false], v)

/-- A string for each widget.  An operation that pushes a string may fail with an error. -/
def strings (C : Coercions F) (init : Fin n → Bytes) :
    Atomic.Object (Fin n → Bytes) (Fin n × List (CallArg F)) CommResult where
  init := init
  apply v op :=
    match parseAction C op.2 with
    | .error e => (.error e, v)
    | .ok a => (.ok (a.apply (v op.1)).1, Function.update v op.1 (a.apply (v op.1)).2)
  fails op r := ∃ a e, parseAction C op.2 = .ok a ∧ a.pushes = true ∧ r = .error e

/-- What a step is to the specification. -/
def CommLabel.observed : CommLabel n F →
    Option (Atomic.Label (Thread n) (Fin n × List (CallArg F)) CommResult)
  | .core _ | .inside _ | .reentered _ => none
  | .invoke t w args => some (.invoke t (w, args))
  | .commit t w args r => some (.commit t (w, args) r)
  | .thrown t w args e => some (.fail t (w, args) (.error e))
  | .respond t r => some (.respond t r)

end Luastatus.Core

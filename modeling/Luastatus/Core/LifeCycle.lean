import Luastatus.Core.Machine
import Luastatus.Lib.CString
import Luastatus.Lib.Resources

/-!
# The life cycle of the core

`main` of `luastatus.c` parses the options, initializes the widgets and the barlib, spawns the
threads, runs the event watcher, joins the threads and cleans up.  A widget may fail to initialize
at many places; it becomes stillborn then, and the rest goes on without it.

A function here is a program over the calls that leave the core (`Op`): to the C library, to Lua,
to the plugins and to the barlib.  What they answer is arbitrary.  A call that aborts the process on
failure has no answer for that: then it is the last call of the execution.  Log messages,
`prepare_signals` and `map_destroy` are left out.

`Resource` is what has to be given back: memory, mutexes, Lua states, libraries, the data of the
plugins and of the barlib, and threads.  `needs` says what must be there as long as something else
is.  A Lua state may also need a library, as long as there are functions of it in the state; that is
not among `needs`, since `main` does not heed it (see `linking`).  What Lua code may do while a Lua
state is closed is not looked at.
-/

namespace Luastatus.Core.LifeCycle

open Text (Bytes CString lit strcmpBytes)
open Calls Resources

/-! ## Resources -/

/-- What belongs to one widget. -/
inductive Part where
  /-- `w->L` -/
  | lua
  /-- `w->L_mtx` -/
  | luaMtx
  /-- `w->filename` -/
  | filename
  /-- `w->comm` -/
  | comm
  /-- `w->plugin.name` -/
  | pluginName
  /-- `w->plugin.dlhandle` -/
  | pluginHandle
  /-- `w->data`, between the plugin's `init()` and its `destroy()`. -/
  | pluginData
  | thread
deriving DecidableEq, Repr

/-- What there is once. -/
inductive Global where
  /-- `barlib_args.data` -/
  | barlibArgs
  /-- `filename` of `barlib_init_by_name` and `plugin_load_by_name`. -/
  | tmpFilename
  /-- `chunkname` of `widget_init_inspect_event`. -/
  | chunkname
  /-- `mtx` of `comm.c`. -/
  | commMtx
  | widgets
  | threads
  /-- `sepstate.L` -/
  | sepLua
  /-- `sepstate.L_mtx` -/
  | sepMtx
  /-- `barlib.set_mtx` -/
  | setMtx
  /-- `barlib.dlhandle` -/
  | barlibHandle
  /-- `barlib.data`, between the barlib's `init()` and its `destroy()`. -/
  | barlibData
deriving DecidableEq, Repr

inductive Resource where
  | global (g : Global)
  | part (i : Nat) (p : Part)
deriving DecidableEq, Repr

/-- The code of a plugin is needed as long as its data is, and a widget's thread needs everything of
the widget. -/
def Part.needs : Part → List Part
  | .pluginData => [.pluginHandle]
  | .thread => [.lua, .luaMtx, .filename, .comm, .pluginName, .pluginHandle, .pluginData]
  | _ => []

/-- The parts are fields of an element of `widgets`; a thread calls `communicate()` and the barlib,
and has its identifier in `threads`. -/
def Part.needsGlobal : Part → List Global
  | .thread => [.widgets, .threads, .commMtx, .setMtx, .barlibHandle, .barlibData]
  | _ => [.widgets]

def Global.needs : Global → List Global
  | .barlibData => [.barlibHandle]
  | _ => []

/-- `needs a b`: while `a` is held, `b` must be held. -/
def needs : Resource → Resource → Prop
  | .global g, .global g' => g' ∈ g.needs
  | .global _, .part _ _ => False
  | .part _ p, .global g => g ∈ p.needsGlobal
  | .part i p, .part j q => i = j ∧ q ∈ p.needs

/-! ## Calls -/

/-- A Lua state: a widget's own one, or the separate state. -/
inductive LuaState where
  | own (i : Nat)
  | sep
deriving DecidableEq, Repr

/-- The Lua state itself. -/
def LuaState.lua : LuaState → Resource
  | own i => .part i .lua
  | sep => .global .sepLua

/-- Its mutex. -/
def LuaState.mtx : LuaState → Resource
  | own i => .part i .luaMtx
  | sep => .global .sepMtx

/-- A shared library. -/
inductive Library where
  | plugin (i : Nat)
  | barlib
deriving DecidableEq, Repr

def Library.handle : Library → Resource
  | plugin i => .part i .pluginHandle
  | barlib => .global .barlibHandle

/-- The optional members of `LuastatusPluginIface` that the core asks for. -/
structure PluginIface where
  registerFuncs : Bool
deriving DecidableEq, Repr

/-- The optional members of `LuastatusBarlibIface`. -/
structure BarlibIface where
  registerFuncs : Bool
  eventWatcher : Bool
deriving DecidableEq, Repr

/-- The interface of a library. -/
@[reducible] def Library.Iface : Library → Type
  | plugin _ => PluginIface
  | barlib => BarlibIface

/-- The type of the `widget.opts` field. -/
inductive OptsField where
  | table
  | nil
  | other
deriving DecidableEq, Repr

/-- The calls that leave the core. -/
inductive Op where
  /-- `ls_xmalloc`, `xnew_lua_state`, `pthread_mutex_init`, the assignment of `COMM_INITIALIZER`,
  `pthread_create`. -/
  | acquire (r : Resource)
  /-- `free`, `lua_close`, `pthread_mutex_destroy`, `comm_destroy`, `dlclose`, `pthread_join`, the
  plugin's and the barlib's `destroy()`. -/
  | release (r : Resource)
  /-- `ls_xrealloc`, `pthread_mutex_lock`, `pthread_mutex_unlock`. -/
  | use (r : Resource)
  | dlopen (l : Library) (filename : Bytes)
  /-- `dlsym`, for the number of the Lua version. -/
  | dlsymLuaVersion (l : Library)
  /-- `dlsym`, for the interface. -/
  | dlsymIface (l : Library)
  /-- `luaL_openlibs`, `inject_libs`, and the push of `l_error_handler`. -/
  | openLibs (l : LuaState)
  /-- `luaL_loadfile` -/
  | loadfile (i : Nat) (filename : CString)
  /-- `do_lua_call` of the file. -/
  | callFile (i : Nat)
  /-- `lua_getglobal(w->L, "widget")`; is it a table? -/
  | getWidget (i : Nat)
  /-- The `plugin` field, if it is a string. -/
  | getPlugin (i : Nat)
  /-- Is the `cb` field a function? -/
  | getCb (i : Nat)
  /-- The `event` field, if it has one of the types that are accepted. -/
  | getEvent (i : Nat)
  /-- `luaL_loadbuffer` of the `event` field. -/
  | loadEvent (i : Nat)
  | getOpts (i : Nat)
  | pluginInit (i : Nat)
  /-- Is the global `luastatus` still a table? -/
  | getLuastatus (l : LuaState)
  | pluginRegisterFuncs (i : Nat)
  | barlibInit (opts : List (Option CString)) (nwidgets : Nat)
  | barlibRegisterFuncs (l : LuaState)
  | barlibSetError (i : Nat)
  | barlibEventWatcher (ws : List Widget)
  /-- `while (1) { pause(); }` -/
  | pause
  /-- `_exit(EXIT_FAILURE)` -/
  | exit

/-- What the calls answer.  Nothing has run in the separate state when its `luastatus` is looked
at. -/
@[reducible] def Op.Answer : Op → Type
  | acquire _ | release _ | use _ | openLibs _ => Unit
  | dlopen _ _ | loadfile _ _ | callFile _ | getWidget _ | getCb _ | loadEvent _ => Bool
  | pluginInit _ | barlibInit _ _ => Bool
  | dlsymLuaVersion _ => Option Int
  | dlsymIface l => Option l.Iface
  | getPlugin _ => Option CString
  | getEvent _ => Option EventField
  | getOpts _ => OptsField
  | getLuastatus l => { b : Bool // l = .sep → b = true }
  | pluginRegisterFuncs _ | barlibRegisterFuncs _ => Unit
  | barlibSetError _ | barlibEventWatcher _ => Bool
  | pause | exit => Empty

abbrev interface : Interface where
  Op := Op
  Answer := Op.Answer

/-- A program of the core. -/
abbrev Prog := Calls.Prog interface

/-- One call. -/
def call (o : Op) : Prog o.Answer := Calls.Prog.perform (I := interface) o

def acquire (r : Resource) : Prog Unit := call (.acquire r)

def release (r : Resource) : Prog Unit := call (.release r)

def use (r : Resource) : Prog Unit := call (.use r)

/-- `widget_event_lua_state`, which is also the choice of `widget_event_L_mtx`. -/
def widgetEventLuaState (w : Widget) (i : Nat) : LuaState :=
  if w.sepstateEvent then .sep else .own i

/-- What the threads that are running use of a widget while the event watcher runs: the Lua state of
its event function with the mutex, and its thread if it has one. -/
def widgetUses (w : Widget) (i : Nat) : List Resource :=
  [(widgetEventLuaState w i).lua, (widgetEventLuaState w i).mtx] ++
    if w.isStillborn then [] else [.part i .thread]

/-- What is used while the event watcher runs. -/
def eventWatcherUses (ws : List Widget) : List Resource :=
  [.global .barlibData, .global .setMtx] ++ ws.zipIdx.flatMap fun w => widgetUses w.1 w.2

/-- What a call that may fail acquires. -/
def acquireIf (ok : Bool) (r : Resource) : List (Access Resource) :=
  if ok then [.acquire r] else []

/-- The accesses of a call. -/
def accesses : Event interface → List (Access Resource)
  | ⟨.acquire r, _⟩ => [.acquire r]
  | ⟨.release r, _⟩ => [.release r]
  | ⟨.use r, _⟩ => [.use r]
  | ⟨.dlopen l _, ok⟩ => acquireIf ok l.handle
  | ⟨.dlsymLuaVersion l, _⟩ | ⟨.dlsymIface l, _⟩ => [.use l.handle]
  | ⟨.openLibs l, _⟩ => [.use l.lua]
  | ⟨.loadfile i _, _⟩ | ⟨.callFile i, _⟩ => [.use (.part i .lua), .use (.part i .comm)]
  | ⟨.getWidget i, _⟩ | ⟨.getPlugin i, _⟩ | ⟨.getCb i, _⟩ => [.use (.part i .lua)]
  | ⟨.getEvent i, _⟩ | ⟨.getOpts i, _⟩ => [.use (.part i .lua)]
  | ⟨.loadEvent i, _⟩ =>
      [.use (.part i .lua), .use (.global .sepLua), .use (.global .chunkname)]
  | ⟨.pluginInit i, ok⟩ =>
      [.use (.part i .pluginHandle), .use (.part i .lua)] ++ acquireIf ok (.part i .pluginData)
  | ⟨.getLuastatus l, _⟩ => [.use l.lua]
  | ⟨.pluginRegisterFuncs i, _⟩ => [.use (.part i .pluginData), .use (.part i .lua)]
  | ⟨.barlibInit _ _, ok⟩ =>
      [.use (.global .barlibHandle), .use (.global .barlibArgs)] ++
        acquireIf ok (.global .barlibData)
  | ⟨.barlibRegisterFuncs l, _⟩ => [.use (.global .barlibData), .use l.lua]
  | ⟨.barlibSetError _, _⟩ => [.use (.global .barlibData), .use (.global .setMtx)]
  | ⟨.barlibEventWatcher ws, _⟩ => (eventWatcherUses ws).map .use
  | ⟨.pause, _⟩ | ⟨.exit, _⟩ => []

/-- The event watcher is run with all widgets, and the barlib is told their number. -/
def Op.Fits (n : Nat) : Op → Prop
  | barlibInit _ nwidgets => nwidgets = n
  | barlibEventWatcher ws => ws.length = n
  | _ => True

/-- The contract of the core with its environment, for `n` widgets. -/
def rules (n : Nat) : Contract interface (Set Resource) :=
  (contract needs accesses).restrict (Op.Fits n)

/-- `if (c) { p; }` -/
def onlyIf (c : Bool) (p : Prog Unit) : Prog Unit := if c then p else pure ()

/-! ## Libraries -/

/-- What is fixed when the program is built. -/
structure Build where
  /-- `LUA_VERSION_NUM` -/
  luaVersionNum : Int
  /-- `LUASTATUS_PLUGINS_DIR` -/
  pluginsDir : Bytes
  /-- `LUASTATUS_BARLIBS_DIR` -/
  barlibsDir : Bytes

variable (B : Build)

/-- What `plugin_load` and `barlib_init` have in common: the interface, or whether `dlhandle` is set
at the label `error`. -/
def openLibrary (l : Library) (filename : Bytes) : Prog (Except Bool l.Iface) := do
  let ok : Bool ← call (.dlopen l filename)
  if ok then
    let version : Option Int ← call (.dlsymLuaVersion l)
    match version with
    | none => pure (.error true)
    | some v =>
        if v = B.luaVersionNum then
          let iface : Option l.Iface ← call (.dlsymIface l)
          match iface with
          | none => pure (.error true)
          | some iface => pure (.ok iface)
        else pure (.error true)
  else pure (.error false)

/-- `plugin_load` -/
def pluginLoad (i : Nat) (filename : Bytes) : Prog (Option PluginIface) := do
  acquire (.part i .pluginName)
  let r ← openLibrary B (.plugin i) filename
  match r with
  | .ok iface => pure (some iface)
  | .error dlhandle => do
      onlyIf dlhandle (release (.part i .pluginHandle))
      release (.part i .pluginName)
      pure none

/-- `plugin_load_by_name` -/
def pluginLoadByName (i : Nat) (name : CString) : Prog (Option PluginIface) :=
  if 0x2F ∈ name.bytes then pluginLoad B i name.bytes
  else do
    acquire (.global .tmpFilename)
    let r ← pluginLoad B i (B.pluginsDir ++ lit "/plugin-" ++ name.bytes ++ lit ".so")
    release (.global .tmpFilename)
    pure r

/-- `plugin_unload` -/
def pluginUnload (i : Nat) : Prog Unit := do
  release (.part i .pluginName)
  release (.part i .pluginHandle)

/-- `barlib_init` -/
def barlibInit (filename : Bytes) (opts : List (Option CString)) (nwidgets : Nat) :
    Prog (Option BarlibIface) := do
  acquire (.global .setMtx)
  let r ← openLibrary B .barlib filename
  match r with
  | .error dlhandle => error dlhandle
  | .ok iface => do
      let ok : Bool ← call (.barlibInit opts nwidgets)
      if ok then pure (some iface) else error true
where
  /-- The label `error`. -/
  error (dlhandle : Bool) : Prog (Option BarlibIface) := do
    onlyIf dlhandle (release (.global .barlibHandle))
    release (.global .setMtx)
    pure none

/-- `barlib_init_by_name` -/
def barlibInitByName (name : CString) (opts : List (Option CString)) (nwidgets : Nat) :
    Prog (Option BarlibIface) :=
  if 0x2F ∈ name.bytes then barlibInit B name.bytes opts nwidgets
  else do
    acquire (.global .tmpFilename)
    let r ← barlibInit B (B.barlibsDir ++ lit "/barlib-" ++ name.bytes ++ lit ".so") opts nwidgets
    release (.global .tmpFilename)
    pure r

/-- `barlib_destroy` -/
def barlibDestroy : Prog Unit := do
  release (.global .barlibData)
  release (.global .barlibHandle)
  release (.global .setMtx)

/-! ## Widgets -/

/-- `sepstate_maybe_init`; the argument and the result are whether `sepstate.L` is set. -/
def sepstateMaybeInit (sep : Bool) : Prog Bool :=
  if sep then pure true
  else do
    acquire (.global .sepLua)
    call (.openLibs .sep)
    acquire (.global .sepMtx)
    pure true

/-- `sepstate_maybe_destroy` -/
def sepstateMaybeDestroy (sep : Bool) : Prog Unit :=
  onlyIf sep do
    release (.global .sepLua)
    release (.global .sepMtx)

/-- `widget_init_inspect_plugin` -/
def widgetInitInspectPlugin (i : Nat) : Prog (Option PluginIface) := do
  let plugin : Option CString ← call (.getPlugin i)
  match plugin with
  | none => pure none
  | some name => pluginLoadByName B i name

/-- `widget_init_inspect_cb` -/
def widgetInitInspectCb (i : Nat) : Prog Bool := call (.getCb i)

/-- `widget_init_inspect_event`; the results are the type of the field, if all is well, and whether
`sepstate.L` is set. -/
def widgetInitInspectEvent (i : Nat) (sep : Bool) : Prog (Option EventField × Bool) := do
  let event : Option EventField ← call (.getEvent i)
  match event with
  | some .string => do
      let sep ← sepstateMaybeInit sep
      acquire (.global .chunkname)
      let r : Bool ← call (.loadEvent i)
      release (.global .chunkname)
      pure (if r then some .string else none, sep)
  | e => pure (e, sep)

/-- `widget_init_inspect_push_opts` -/
def widgetInitInspectPushOpts (i : Nat) : Prog Bool := do
  let opts : OptsField ← call (.getOpts i)
  pure (opts ≠ .other)

/-- What the core knows of an initialized widget. -/
structure LoadedWidget where
  iface : PluginIface
  event : EventField
deriving DecidableEq, Repr

/-- The label `error` of `widget_init`. -/
def widgetInitError (i : Nat) (pluginLoaded sep : Bool) : Prog (Option LoadedWidget × Bool) := do
  release (.part i .lua)
  release (.part i .luaMtx)
  release (.part i .filename)
  onlyIf pluginLoaded (pluginUnload i)
  release (.part i .comm)
  pure (none, sep)

/-- `widget_init`, from the `cb` field on. -/
def widgetInitFields (i : Nat) (iface : PluginIface) (sep : Bool) :
    Prog (Option LoadedWidget × Bool) := do
  let cb ← widgetInitInspectCb i
  if cb then
    let (event, sep) ← widgetInitInspectEvent i sep
    match event with
    | none => widgetInitError i true sep
    | some event => do
        let opts ← widgetInitInspectPushOpts i
        if opts then
          let ok : Bool ← call (.pluginInit i)
          if ok then pure (some ⟨iface, event⟩, sep) else widgetInitError i true sep
        else widgetInitError i true sep
  else widgetInitError i true sep

/-- `widget_init`; the results are what is known of the widget, or none, and whether `sepstate.L` is
set. -/
def widgetInit (i : Nat) (filename : CString) (sep : Bool) :
    Prog (Option LoadedWidget × Bool) := do
  acquire (.part i .lua)
  acquire (.part i .luaMtx)
  acquire (.part i .filename)
  acquire (.part i .comm)
  call (.openLibs (.own i))
  let loaded : Bool ← call (.loadfile i filename)
  if loaded then
    let ran : Bool ← call (.callFile i)
    if ran then
      let isTable : Bool ← call (.getWidget i)
      if isTable then
        let iface ← widgetInitInspectPlugin B i
        match iface with
        | none => widgetInitError i false sep
        | some iface => widgetInitFields i iface sep
      else widgetInitError i false sep
    else widgetInitError i false sep
  else widgetInitError i false sep

/-- An element of `widgets`; none is a stillborn widget. -/
abbrev Entry := Option LoadedWidget

/-- The fields of an element of `widgets` that the callbacks read. -/
def Entry.widget : Entry → Widget
  | none => Core.widgetInitStillborn
  | some w => Core.widgetInitInspectEvent w.event

/-- `widget_init_stillborn`; the result is whether `sepstate.L` is set. -/
def widgetInitStillborn (sep : Bool) : Prog Bool := sepstateMaybeInit sep

/-- `widget_destroy` -/
def widgetDestroy (i : Nat) (w : Entry) : Prog Unit :=
  onlyIf w.isSome do
    release (.part i .pluginData)
    pluginUnload i
    release (.part i .lua)
    release (.part i .luaMtx)
    release (.part i .filename)
    release (.part i .comm)

/-- One round of the loop in `widgets_init`. -/
def widgetsInitStep (f : CString × Nat) (ws : List Entry × Bool) : Prog (List Entry × Bool) := do
  let (w, sep) ← widgetInit B f.2 f.1 ws.2
  match w with
  | some w => pure (ws.1 ++ [some w], sep)
  | none => do
      let sep ← widgetInitStillborn sep
      pure (ws.1 ++ [none], sep)

/-- `widgets_init` -/
def widgetsInit (filenames : List CString) : Prog (List Entry × Bool) := do
  acquire (.global .widgets)
  Calls.Prog.forEach (widgetsInitStep B) filenames.zipIdx ([], false)

/-- `widgets_destroy`; `widgets` is `NULL` before `widgets_init`. -/
def widgetsDestroy (ws : Option (List Entry)) : Prog Unit :=
  match ws with
  | none => pure ()
  | some ws => do
      Calls.Prog.forEach (fun w _ => widgetDestroy w.2 w.1) ws.zipIdx ()
      release (.global .widgets)

/-! ## main -/

/-- `register_funcs`, for the Lua state of a widget or for the separate state. -/
def registerFuncs (b : BarlibIface) (l : LuaState) (w : Option (Nat × PluginIface)) :
    Prog Unit := do
  let isTable : { t : Bool // l = .sep → t = true } ← call (.getLuastatus l)
  onlyIf isTable.val do
    onlyIf b.registerFuncs (call (.barlibRegisterFuncs l))
    match w with
    | none => pure ()
    | some (i, iface) => onlyIf iface.registerFuncs (call (.pluginRegisterFuncs i))

/-- `set_error_unlocked`, with the mutex. -/
def setError (i : Nat) : Prog Unit := do
  use (.global .setMtx)
  let fatal : Bool ← call (.barlibSetError i)
  onlyIf fatal do
    let no : Empty ← call .exit
    nomatch no
  use (.global .setMtx)

/-- One round of the loop in `main` that spawns the threads. -/
def spawn (b : BarlibIface) (w : Entry × Nat) (_ : Unit) : Prog Unit :=
  match w.1 with
  | none => setError w.2
  | some l => do
      registerFuncs b (.own w.2) (some (w.2, l.iface))
      acquire (.part w.2 .thread)

/-- One round of the loop in `main` that joins them. -/
def join (w : Entry × Nat) (_ : Unit) : Prog Unit :=
  onlyIf w.1.isSome (release (.part w.2 .thread))

/-- `barlib_args`; none is `NULL`. -/
structure BarlibArgs where
  data : List (Option CString)
  capacity : Nat

/-- `barlib_args_new` -/
def barlibArgsNew : BarlibArgs := ⟨[], 0⟩

/-- `LS_M_X2REALLOC`; `data` is `NULL` as long as `capacity` is `0`. -/
def barlibArgsGrow (a : BarlibArgs) : Prog Unit :=
  if a.capacity = 0 then acquire (.global .barlibArgs)
  else use (.global .barlibArgs)

/-- `barlib_args_push` -/
def barlibArgsPush (a : BarlibArgs) (s : Option CString) : Prog BarlibArgs :=
  if a.data.length = a.capacity then do
    barlibArgsGrow a
    pure ⟨a.data ++ [s], max 1 (2 * a.capacity)⟩
  else pure ⟨a.data ++ [s], a.capacity⟩

/-- `barlib_args_free` -/
def barlibArgsFree (a : BarlibArgs) : Prog Unit :=
  onlyIf (a.capacity ≠ 0) (release (.global .barlibArgs))

/-- What `getopt` returns. -/
inductive Opt where
  | b (arg : CString)
  | B (arg : CString)
  | l (arg : CString)
  | e
  | v
  /-- `'?'` -/
  | bad
deriving DecidableEq

/-- `loglevel_names` -/
def loglevelNames : List Bytes :=
  [lit "fatal", lit "error", lit "warning", lit "info", lit "verbose", lit "debug", lit "trace"]

/-- `loglevel_fromstr`; `LUASTATUS_LOG_LAST` is the number of the names. -/
def loglevelFromstr (str : CString) : Nat :=
  loglevelNames.findIdx fun name => strcmpBytes str.bytes name = 0

/-- What `main` has parsed. -/
structure Args where
  barlibName : Option CString
  barlibArgs : BarlibArgs
  eflag : Bool

/-- The loop over the options; it jumps to the label `cleanup` if the first result is not set. -/
def parseOpts : List Opt → Args → Prog (Bool × Args)
  | [], a => pure (true, a)
  | .b s :: os, a => parseOpts os { a with barlibName := some s }
  | .B s :: os, a => do
      let args ← barlibArgsPush a.barlibArgs (some s)
      parseOpts os { a with barlibArgs := args }
  | .l s :: os, a => if loglevelFromstr s = loglevelNames.length then pure (false, a)
      else parseOpts os a
  | .e :: os, a => parseOpts os { a with eflag := true }
  | .v :: _, a => pure (false, a)
  | .bad :: _, a => pure (false, a)

/-- What the label `cleanup` has to free. -/
structure Locals where
  barlibArgs : BarlibArgs
  /-- `threads` is not `NULL`. -/
  threads : Bool
  /-- `widgets`, if it is not `NULL`. -/
  widgets : Option (List Entry)
  barlibInited : Bool
  /-- `sepstate.L` is not `NULL`. -/
  sep : Bool

/-- `main`, from the label `cleanup` on. -/
def cleanup (l : Locals) (ret : Nat) : Prog Nat := do
  barlibArgsFree l.barlibArgs
  onlyIf l.threads (release (.global .threads))
  widgetsDestroy l.widgets
  onlyIf l.barlibInited barlibDestroy
  sepstateMaybeDestroy l.sep
  release (.global .commMtx)
  pure ret

/-- Run the event watcher, if present. -/
def runEventWatcher (b : BarlibIface) (ws : List Entry) : Prog Unit :=
  onlyIf b.eventWatcher do
    let fatal : Bool ← call (.barlibEventWatcher (ws.map Entry.widget))
    onlyIf fatal do
      let no : Empty ← call .exit
      nomatch no

/-- `main`, from the creation of `threads` on. -/
def runAll (b : BarlibIface) (args : BarlibArgs) (eflag : Bool) (ws : List Entry) (sep : Bool) :
    Prog Nat := do
  onlyIf sep (registerFuncs b .sep none)
  acquire (.global .threads)
  Calls.Prog.forEach (spawn b) ws.zipIdx ()
  runEventWatcher b ws
  Calls.Prog.forEach join ws.zipIdx ()
  onlyIf (!eflag) do
    let no : Empty ← call .pause
    nomatch no
  cleanup ⟨args, true, some ws, true, sep⟩ 0

/-- `main`; the arguments are what `getopt` returns and the file names, the result is the exit
status. -/
def main (opts : List Opt) (filenames : List CString) : Prog Nat := do
  let (ok, a) ← parseOpts opts ⟨none, barlibArgsNew, false⟩
  match if ok then a.barlibName else none with
  | none => cleanup ⟨a.barlibArgs, false, none, false, false⟩ 1
  | some barlibName => do
      acquire (.global .commMtx)
      let (ws, sep) ← widgetsInit B filenames
      let args ← barlibArgsPush a.barlibArgs none
      let barlib ← barlibInitByName B barlibName args.data filenames.length
      match barlib with
      | none => cleanup ⟨args, false, some ws, false, sep⟩ 1
      | some b => runAll b args a.eflag ws sep

end Luastatus.Core.LifeCycle

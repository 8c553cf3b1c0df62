import Luastatus.Lua.Value
import Luastatus.Web.Opts

/-!
# The planner of the web plugin

`run` resumes the planner's coroutine, parses what it yields and executes that action, again and
again.  Between two actions it keeps a `Ctx`: the parsed fields of all kinds of actions, and the
wake-up status that the next resume is to pass.

What the coroutine, libcurl and `wake_up()` do is the input of a run: an `Iteration` for each
resume.  A finite list of them is a run so far; a resume or a sleep that never ends is the last one.
What the plugin does is a log of events.
-/

namespace Luastatus.Web

open Text (Bytes lit decimal)
open Lua (Arg Val Table cstr)
open LibLs

variable {F H : Type}

/-! ## Input and log -/

/-- A value that the planner yields.  A table is given by what `lua_getfield` gets from it. -/
inductive Yielded (F : Type) where
  | table (getfield : Bytes → Arg F)
  /-- Another value, with the name of its type. -/
  | other (typename : Bytes)

/-- What the planner's coroutine does when it is resumed. -/
inductive Resumed (F : Type) where
  | yields (values : List (Yielded F))
  | finishes
  /-- A Lua error, with the text if it can be converted to one. -/
  | raises (msg : Option Bytes)
  /-- It does not return. -/
  | never

/-- What `curl_easy_perform` does: the data passed to the two callbacks, and its result, which is
the status of the response or what `curl_easy_strerror` says. -/
structure Transfer where
  chunks : List Bytes
  headers : List Bytes
  result : Except Bytes Int

/-- What happens from one resume of the coroutine to the next one. -/
structure Iteration (F : Type) where
  resumed : Resumed F
  /-- What `curl_easy_perform` does if it is called. -/
  transfer : Transfer
  /-- How many bytes `wake_up()` writes to the self-pipe, if there is one, until the action is
  over. -/
  wakeUps : Nat

/-- What the plugin does. -/
inductive Event (F H : Type) where
  /-- The coroutine is resumed with nil or a boolean. -/
  | resume (arg : Option Bool)
  /-- `curl_easy_perform` is called on a handle with the given options. -/
  | perform (C : H)
  /-- It waits for the given time, or until it is woken up. -/
  | sleep (TD : TimeDelta F)
  /-- The widget's `cb` is called. -/
  | cb (arg : Val F)

/-- How a run ends. -/
inductive RunEnding where
  /-- `run` returns, after `LS_FATALF`. -/
  | fatal (msg : Bytes)
  /-- `LS_PANIC`. -/
  | panic
deriving DecidableEq, Repr

/-- The log of a run, and how it has ended, if it has. -/
structure Log (F H : Type) where
  events : List (Event F H)
  ending : Option RunEnding

/-- What was logged before. -/
def Log.after (before : List (Event F H)) (log : Log F H) : Log F H :=
  { log with events := before ++ log.events }

/-! ## The state of a run -/

/-- `Priv`: whether `pipefds` is open, and the flags. -/
structure Priv where
  globalReqFlags : ReqFlags
  selfPipe : Bool

/-- `NextAction`. -/
inductive NextAction where
  | request
  | sleep
  | callCb
  /-- `NACT__LAST`. -/
  | last
deriving DecidableEq, Repr

/-- `WakeupStatus`. -/
inductive WakeupStatus where
  | noWakeup
  | yesWakeup
  | notApplicable
deriving DecidableEq, Repr

/-- `Ctx`.  A C string is given by its bytes. -/
structure Ctx (F H : Type) where
  nact : NextAction
  nextReqParams : NextRequestParams H
  TD : TimeDelta F
  what : Option Bytes
  wakeupStatus : WakeupStatus

variable (S : Host F) (K : Curl H) (p : Priv)

/-- The initialization of the context in `run`. -/
def initCtx : Ctx F H where
  nact := .last
  nextReqParams := K.freshParams
  TD := ⟨S.double.ofInt 0⟩
  what := none
  wakeupStatus := .notApplicable

/-! ## Parsing what is yielded -/

/-- `clear_next_req_params`. -/
def clearNextReqParams (X : NextRequestParams H) : NextRequestParams H where
  C := K.reset X.C
  headers := []
  localReqFlags := {}

/-- `parseY_request`. -/
def parseYRequest (getfield : Bytes → Arg F) (ctx : Ctx F H) : Except Bytes (Ctx F H) :=
  match getfield (lit "params") with
  | .table _ entries => do
      let params ← parseOpts S K ctx.nextReqParams entries
      return { ctx with nextReqParams := params }
  | v => .error (setTypeError (S.typename v) (lit "table") (lit "'params' field: "))

/-- `parseY_sleep`. -/
def parseYSleep (getfield : Bytes → Arg F) (ctx : Ctx F H) : Except Bytes (Ctx F H) :=
  match getfield (lit "period") with
  | .number d =>
      match lsDoubleToTDChecked S.double d with
      | some TD => .ok { ctx with TD := TD }
      | none => .error (lit "invalid period")
  | v => .error (setTypeError (S.typename v) (lit "number") (lit "'period' field: "))

/-- `parseY_call_cb`. -/
def parseYCallCb (getfield : Bytes → Arg F) (ctx : Ctx F H) : Except Bytes (Ctx F H) :=
  match getfield (lit "what") with
  | .string s => .ok { ctx with what := some (cstr s) }
  | v => .error (setTypeError (S.typename v) (lit "string") (lit "'what' field: "))

/-- `parse_action`. -/
def parseAction (s : Bytes) : NextAction :=
  if s = lit "request" then .request
  else if s = lit "sleep" then .sleep
  else if s = lit "call_cb" then .callCb
  else .last

/-- `parseY`. -/
def parseY (y : Yielded F) (ctx : Ctx F H) : Except Bytes (Ctx F H) :=
  match y with
  | .other typename => .error (setTypeError typename (lit "table") (lit "yielded value: "))
  | .table getfield =>
      match getfield (lit "action") with
      | .string s =>
          let ctx := { ctx with nact := parseAction (cstr s) }
          match ctx.nact with
          | .request =>
              parseYRequest S K getfield
                { ctx with nextReqParams := clearNextReqParams K ctx.nextReqParams }
          | .sleep => parseYSleep S getfield ctx
          | .callCb => parseYCallCb S getfield ctx
          | .last => .error (lit "unknown action")
      | v => .error (setTypeError (S.typename v) (lit "string") (lit "'action' field: "))

/-! ## Resuming the coroutine -/

/-- `push_wakeup_status`. -/
def pushWakeupStatus (wakeupStatus : WakeupStatus) : Option Bool :=
  if wakeupStatus = .notApplicable then none else some (wakeupStatus = .yesWakeup)

/-- `make_flash_call`, unless the resume never returns: the message, or the context with the action
to be executed. -/
def makeFlashCall (resumed : Resumed F) (ctx : Ctx F H) : Option (Except Bytes (Ctx F H)) :=
  let ctx := { ctx with wakeupStatus := .notApplicable }
  match resumed with
  | .yields [y] => some (parseY S K y ctx)
  | .yields values =>
      some (.error (lit "expected 1 yielded value, got " ++ decimal values.length))
  | .finishes => some (.error (lit "coroutine finished its execution"))
  | .raises msg =>
      some (.error (lit "Lua error in planner: " ++
        match msg with
        | some msg => cstr msg
        | none => lit "(Lua object cannot be converted to string)"))
  | .never => none

/-! ## Executing an action -/

/-- `action_call_cb`: the argument of the call, and the context. -/
def actionCallCb (ctx : Ctx F H) : Val F × Ctx F H :=
  let what := match ctx.what with
    | some s => .string s
    | none => .nil
  (.table none (Table.empty.setFields [(lit "what", what)]), { ctx with what := none })

/-- `push_headers`. -/
def pushHeaders (headers : List Bytes) : Val F :=
  if S.maxi < headers.length then .nil
  else .table none (Table.empty.setItems 1 (headers.map .string))

/-- The argument of the call in `report_request_result_ok`. -/
def reportRequestResultOk (status : Int) (body : Bytes) (headers : Option (List Bytes)) : Val F :=
  .table none (Table.empty.setFields
    ([(lit "what", .string (lit "response")), (lit "status", .number (S.double.ofInt status))] ++
      (match headers with
        | some headers => [(lit "headers", pushHeaders S headers)]
        | none => []) ++
      [(lit "body", .string body)]))

/-- The argument of the call in `report_request_result_error`. -/
def reportRequestResultError (errDescr : Bytes) (withHeaders : Bool) : Val F :=
  .table none (Table.empty.setFields
    ([(lit "what", .string (lit "response")), (lit "status", .number (S.double.ofInt 0)),
        (lit "body", .string [])] ++
      (if withHeaders then [(lit "headers", .table none Table.empty)] else []) ++
      [(lit "error", .string errDescr)]))

/-- The options that `make_request` sets, in its order. -/
def requestSettings (reqFlags : ReqFlags) : List (CurlOption × CurlValue) :=
  [(.writefunction, .callbackResp), (.writedata, .responseBody)] ++
    (if reqFlags.needsHeaders then
      [(.headerfunction, .callbackHeader), (.headerdata, .responseHeaders)] else []) ++
    (if reqFlags.debug then
      [(.verbose, .long 1), (.debugfunction, .callbackDebug), (.debugdata, .pluginData)] else [])

/-- `CANNOT_FAIL` on one `curl_easy_setopt` after another; nothing is a panic. -/
def cannotFailAll (C : H) : List (CurlOption × CurlValue) → Option H
  | [] => some C
  | (which, v) :: rest =>
      match K.setopt C which v with
      | .ok C => cannotFailAll C rest
      | .error _ => none

/-- The handle on which `make_request` calls `curl_easy_perform`, unless it panics before. -/
def prepareRequest (reqFlags : ReqFlags) (C : H) : Option H :=
  cannotFailAll K C (requestSettings reqFlags)

/-- What `action_request` passes to the callback once the transfer is over.  The header callback
collects lines only if it has been set. -/
def reportTransfer (reqFlags : ReqFlags) (transfer : Transfer) : Val F :=
  match transfer.result with
  | .ok status =>
      reportRequestResultOk S status transfer.chunks.flatten
        (if reqFlags.needsHeaders then some transfer.headers else none)
  | .error descr => reportRequestResultError S (setCurlError descr) reqFlags.needsHeaders

/-- `action_request`, unless it panics: the events, and the context. -/
def actionRequest (transfer : Transfer) (ctx : Ctx F H) :
    Option (List (Event F H) × Ctx F H) :=
  let reqFlags := p.globalReqFlags.or ctx.nextReqParams.localReqFlags
  (prepareRequest K reqFlags ctx.nextReqParams.C).map fun C =>
    ([.perform C, .cb (reportTransfer S reqFlags transfer)],
      { ctx with nextReqParams := { ctx.nextReqParams with C := C } })

/-- `action_sleep`: the context, and the bytes left in the self-pipe. -/
def actionSleep (pending : Nat) (ctx : Ctx F H) : Ctx F H × Nat :=
  if p.selfPipe then
    if 0 < pending then ({ ctx with wakeupStatus := .yesWakeup }, pending - 1)
    else ({ ctx with wakeupStatus := .noWakeup }, pending)
  else (ctx, pending)

/-- The `switch` of `run`, unless it panics: the events, the context, and the bytes left in the
self-pipe; `pending` are those in it when the action is over, had it read none. -/
def executeAction (transfer : Transfer) (pending : Nat) (ctx : Ctx F H) :
    Option (List (Event F H) × Ctx F H × Nat) :=
  match ctx.nact with
  | .request =>
      (actionRequest S K p transfer ctx).map fun (events, ctx) => (events, ctx, pending)
  | .sleep => some ([.sleep ctx.TD], actionSleep p pending ctx)
  | .callCb => some ([.cb (actionCallCb ctx).1], (actionCallCb ctx).2, pending)
  | .last => none

/-! ## The loop -/

/-- The bytes in the self-pipe, if there is one, after some more calls of `wake_up()`. -/
def Priv.wake (pending wakeUps : Nat) : Nat := if p.selfPipe then pending + wakeUps else pending

/-- The loop of `run`, with `pending` bytes in the self-pipe. -/
def runLoop (ctx : Ctx F H) (pending : Nat) : List (Iteration F) → Log F H
  | [] => ⟨[], none⟩
  | it :: its =>
      let resume : List (Event F H) := [.resume (pushWakeupStatus ctx.wakeupStatus)]
      match makeFlashCall S K it.resumed ctx with
      | none => ⟨resume, none⟩
      | some (.error msg) => ⟨resume, some (.fatal msg)⟩
      | some (.ok ctx) =>
          match executeAction S K p it.transfer (p.wake pending it.wakeUps) ctx with
          | none => ⟨resume, some .panic⟩
          | some (events, ctx, pending) =>
              (runLoop ctx pending its).after (resume ++ events)

/-- `run`; `easyInit` says whether `curl_easy_init` succeeds. -/
def run (easyInit : Bool) (its : List (Iteration F)) : Log F H :=
  if easyInit then runLoop S K p (initCtx S K) 0 its
  else ⟨[], some (.fatal (lit "curl_easy_init() failed"))⟩

end Luastatus.Web

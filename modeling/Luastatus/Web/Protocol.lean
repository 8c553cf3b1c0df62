import Luastatus.Web.Planner

/-!
# The planner protocol of the web plugin

`protocol` says what a run is to do: resume the planner, execute the action that it has yielded, and
begin again, until something is yielded that is no action, or the planner ends.  The action of a
yielded value is a function of that value alone, so there is nothing of earlier actions in it.  The
resume after a sleep passes whether the sleep was ended by `wake_up()`, every other one passes nil.

`run` does this with one context for all actions.  `parseY_parses` and `executeAction_eq` say what
one pass of its loop does: what the context held before is not used.  Two things differ from the
protocol.  Without a self-pipe, nobody sets the wake-up status after a sleep, so the next resume
passes nil and not false.  And `what` is kept as a C string, so the callback gets it without what
follows a NUL byte.  `run_iff` is the result: a run follows the protocol if and only if neither of
the two occurs.
-/

namespace Luastatus.Web

open Text (Bytes lit)
open Lua (Arg Val Table cstr)
open LibLs

variable {F H : Type}

/-! ## Actions -/

/-- A valid action. -/
inductive Action (F H : Type) where
  | request (params : NextRequestParams H)
  | sleep (TD : TimeDelta F)
  | callCb (what : Bytes)

variable (S : Host F) (K : Curl H) (p : Priv)

/-- A request with the given options, which are set on a new handle. -/
def requestOf (getfield : Bytes → Arg F) : Option (Action F H) :=
  match getfield (lit "params") with
  | .table _ entries =>
      match parseOpts S K K.freshParams entries with
      | .ok params => some (.request params)
      | .error _ => none
  | _ => none

/-- A sleep for the given period. -/
def sleepOf (getfield : Bytes → Arg F) : Option (Action F H) :=
  match getfield (lit "period") with
  | .number d => (lsDoubleToTDChecked S.double d).map .sleep
  | _ => none

/-- A call of the callback with the given string. -/
def callCbOf (getfield : Bytes → Arg F) : Option (Action F H) :=
  match getfield (lit "what") with
  | .string s => some (.callCb s)
  | _ => none

/-- The action that a yielded value is, if it is valid. -/
def Yielded.action : Yielded F → Option (Action F H)
  | .other _ => none
  | .table getfield =>
      match getfield (lit "action") with
      | .string s =>
          match parseAction (cstr s) with
          | .request => requestOf S K getfield
          | .sleep => sleepOf S getfield
          | .callCb => callCbOf getfield
          | .last => none
      | _ => none

/-- The action that the planner yields, if it yields a valid one. -/
def Resumed.action : Resumed F → Option (Action F H)
  | .yields [y] => y.action S K
  | _ => none

/-! ## The protocol -/

/-- The flags of a request. -/
def requestFlags (params : NextRequestParams H) : ReqFlags :=
  p.globalReqFlags.or params.localReqFlags

/-- The handle of a request, with the settings of `make_request`, which cannot fail. -/
def requestHandle (params : NextRequestParams H) : H :=
  (prepareRequest K (requestFlags p params) params.C).getD params.C

/-- What is done for an action: one transfer and one call of the callback for a request, no call for
a sleep, and one call for a `call_cb`. -/
def Action.events (transfer : Transfer) : Action F H → List (Event F H)
  | .request params =>
      [.perform (requestHandle K p params), .cb (reportTransfer S (requestFlags p params) transfer)]
  | .sleep TD => [.sleep TD]
  | .callCb what => [.cb (.table none (Table.ofFields [(lit "what", .string what)]))]

/-- What the resume after an action is to pass, if `unread` calls of `wake_up()` have not ended a
sleep yet. -/
def Action.resumeArg (unread : Nat) : Action F H → Option Bool
  | .request _ => none
  | .sleep _ => some (p.selfPipe && decide (0 < unread))
  | .callCb _ => none

/-- How many of them are left after the action. -/
def Action.unreadAfter (unread : Nat) : Action F H → Nat
  | .request _ => unread
  | .sleep _ => if p.selfPipe then unread - 1 else unread
  | .callCb _ => unread

/-- The rest of a run that is to pass `arg` next: the events, and whether it has ended. -/
def protocolFrom (arg : Option Bool) (unread : Nat) :
    List (Iteration F) → List (Event F H) × Bool
  | [] => ([], false)
  | it :: its =>
      match it.resumed with
      | .never => ([.resume arg], false)
      | resumed =>
          match resumed.action S K with
          | none => ([.resume arg], true)
          | some a =>
              let unread := p.wake unread it.wakeUps
              let rest := protocolFrom (a.resumeArg p unread) (a.unreadAfter p unread) its
              (.resume arg :: a.events S K p it.transfer ++ rest.1, rest.2)

/-- What a run is to do, if `curl_easy_init` succeeds. -/
def protocol (easyInit : Bool) (its : List (Iteration F)) : List (Event F H) × Bool :=
  if easyInit then protocolFrom S K p none 0 its else ([], true)

/-- Whether `run` has returned. -/
def Log.returned (log : Log F H) : Bool :=
  match log.ending with
  | some (.fatal _) => true
  | _ => false

/-- What the protocol says of a log. -/
def Log.observed (log : Log F H) : List (Event F H) × Bool := (log.events, log.returned)

/-- No resume follows a sleep without a self-pipe, and no string to be passed to the callback has a
NUL byte in it, up to the end of the run. -/
def Proper : List (Iteration F) → Prop
  | [] => True
  | it :: its =>
      match it.resumed.action S K with
      | none => True
      | some (.request _) => Proper its
      | some (.sleep _) => (p.selfPipe = true ∨ its = []) ∧ Proper its
      | some (.callCb what) => (0 : Text.Byte) ∉ what ∧ Proper its

/-! ## Parsing an action -/

/-- The context holds the action. -/
def Ctx.Holds (ctx : Ctx F H) : Action F H → Prop
  | .request params => ctx.nact = .request ∧ ctx.nextReqParams = params
  | .sleep TD => ctx.nact = .sleep ∧ ctx.TD = TD
  | .callCb what => ctx.nact = .callCb ∧ ctx.what = some (cstr what)

/-- A computation that parses an action into a context: it fails if there is none, and else the
context holds the action and keeps its wake-up status. -/
def Parses (status : WakeupStatus) (a : Option (Action F H)) (r : Except Bytes (Ctx F H)) : Prop :=
  match a with
  | none => ∃ msg, r = .error msg
  | some a => ∃ ctx, r = .ok ctx ∧ ctx.Holds a ∧ ctx.wakeupStatus = status

variable {S K p}

theorem clearNextReqParams_eq (hK : K.Documented) (X : NextRequestParams H) :
    clearNextReqParams K X = K.freshParams := by
  rw [clearNextReqParams, hK.reset_eq]
  rfl

theorem parseYRequest_parses {ctx : Ctx F H} {getfield : Bytes → Arg F}
    (hnact : ctx.nact = .request) (hparams : ctx.nextReqParams = K.freshParams) :
    Parses ctx.wakeupStatus (requestOf S K getfield) (parseYRequest S K getfield ctx) := by
  rw [requestOf, parseYRequest, hparams]
  cases getfield (lit "params") with
  | table len entries =>
      dsimp only
      cases parseOpts S K K.freshParams entries with
      | error msg => exact ⟨msg, rfl⟩
      | ok params => exact ⟨_, rfl, ⟨hnact, rfl⟩, rfl⟩
  | nil | boolean _ | number _ | string _ | other => exact ⟨_, rfl⟩

theorem parseYSleep_parses {ctx : Ctx F H} {getfield : Bytes → Arg F}
    (hnact : ctx.nact = .sleep) :
    Parses ctx.wakeupStatus (sleepOf S getfield) (parseYSleep S getfield ctx) := by
  rw [sleepOf, parseYSleep]
  cases getfield (lit "period") with
  | number d =>
      dsimp only
      cases lsDoubleToTDChecked S.double d with
      | none => exact ⟨_, rfl⟩
      | some TD => exact ⟨_, rfl, ⟨hnact, rfl⟩, rfl⟩
  | nil | boolean _ | string _ | table _ _ | other => exact ⟨_, rfl⟩

theorem parseYCallCb_parses {ctx : Ctx F H} {getfield : Bytes → Arg F}
    (hnact : ctx.nact = .callCb) :
    Parses ctx.wakeupStatus (callCbOf getfield) (parseYCallCb S getfield ctx) := by
  rw [callCbOf, parseYCallCb]
  cases getfield (lit "what") with
  | string s => exact ⟨_, rfl, ⟨hnact, rfl⟩, rfl⟩
  | nil | boolean _ | number _ | table _ _ | other => exact ⟨_, rfl⟩

/-- Parsing does not depend on what the context held before. -/
theorem parseY_parses (hK : K.Documented) (y : Yielded F) (ctx : Ctx F H) :
    Parses ctx.wakeupStatus (y.action S K) (parseY S K y ctx) := by
  cases y with
  | other typename => exact ⟨_, rfl⟩
  | table getfield =>
      rw [Yielded.action, parseY]
      cases getfield (lit "action") with
      | string s =>
          dsimp only
          cases parseAction (cstr s) with
          | request => exact parseYRequest_parses rfl (clearNextReqParams_eq hK _)
          | sleep => exact parseYSleep_parses rfl
          | callCb => exact parseYCallCb_parses rfl
          | last => exact ⟨_, rfl⟩
      | nil | boolean _ | number _ | table _ _ | other => exact ⟨_, rfl⟩

/-- A resume that returns. -/
theorem makeFlashCall_parses (hK : K.Documented) {resumed : Resumed F} (h : resumed ≠ .never)
    (ctx : Ctx F H) :
    ∃ r, makeFlashCall S K resumed ctx = some r ∧
      Parses .notApplicable (resumed.action S K) r := by
  cases resumed with
  | never => exact absurd rfl h
  | finishes => exact ⟨_, rfl, _, rfl⟩
  | raises msg => exact ⟨_, rfl, _, rfl⟩
  | yields values =>
      match values with
      | [] => exact ⟨_, rfl, _, rfl⟩
      | [y] => exact ⟨_, rfl, parseY_parses hK y _⟩
      | _ :: _ :: _ => exact ⟨_, rfl, _, rfl⟩

/-! ## Executing an action -/

theorem cannotFailAll_isSome (hK : K.Documented) {settings : List (CurlOption × CurlValue)}
    (hs : ∀ s ∈ settings, s.1.CannotFail) (C : H) :
    ∃ C', cannotFailAll K C settings = some C' := by
  induction settings generalizing C with
  | nil => exact ⟨C, rfl⟩
  | cons s settings ih =>
      obtain ⟨which, v⟩ := s
      obtain ⟨hwhich, hrest⟩ := List.forall_mem_cons.mp hs
      obtain ⟨C', hC'⟩ := hK.setopt_ok C which v hwhich
      rw [cannotFailAll, hC']
      exact ih hrest C'

theorem requestSettings_cannotFail (reqFlags : ReqFlags) :
    ∀ s ∈ requestSettings reqFlags, s.1.CannotFail := by
  obtain ⟨needsHeaders, debug⟩ := reqFlags
  cases needsHeaders <;> cases debug <;> simp [requestSettings, CurlOption.CannotFail]

theorem prepareRequest_eq (hK : K.Documented) (params : NextRequestParams H) :
    prepareRequest K (requestFlags p params) params.C = some (requestHandle K p params) := by
  obtain ⟨C', hC'⟩ :=
    cannotFailAll_isSome hK (requestSettings_cannotFail (requestFlags p params)) params.C
  rw [requestHandle, prepareRequest, hC', Option.getD_some]

theorem actionRequest_eq (hK : K.Documented) (transfer : Transfer) (ctx : Ctx F H) :
    ∃ ctx', actionRequest S K p transfer ctx =
        some ((Action.request ctx.nextReqParams : Action F H).events S K p transfer, ctx') ∧
      ctx'.wakeupStatus = ctx.wakeupStatus := by
  have h := prepareRequest_eq (p := p) hK ctx.nextReqParams
  rw [requestFlags] at h
  rw [actionRequest, h, Option.map_some]
  exact ⟨_, rfl, rfl⟩

theorem actionCallCb_eq {ctx : Ctx F H} {what : Bytes} (h : ctx.what = some what) :
    (actionCallCb ctx).1 = .table none (Table.ofFields [(lit "what", .string what)]) := by
  rw [actionCallCb, h, ← Table.setFields_empty]

/-- What is passed to the resume after an action. -/
def Action.passedArg (p : Priv) (unread : Nat) (a : Action F H) : Option Bool :=
  if p.selfPipe then a.resumeArg p unread else none

theorem actionSleep_eq {ctx : Ctx F H} (h : ctx.wakeupStatus = .notApplicable) (unread : Nat)
    (TD : TimeDelta F) :
    ∃ ctx', actionSleep p unread ctx = (ctx', (Action.sleep TD : Action F H).unreadAfter p unread) ∧
      pushWakeupStatus ctx'.wakeupStatus = (Action.sleep TD : Action F H).passedArg p unread := by
  rw [actionSleep, Action.unreadAfter, Action.passedArg, Action.resumeArg]
  by_cases hp : p.selfPipe = true
  · rw [if_pos hp, if_pos hp, if_pos hp, hp, Bool.true_and]
    by_cases hu : 0 < unread
    · rw [if_pos hu, decide_eq_true hu]
      exact ⟨_, rfl, rfl⟩
    · rw [if_neg hu, decide_eq_false hu, show unread - 1 = unread by omega]
      exact ⟨_, rfl, rfl⟩
  · rw [if_neg hp, if_neg hp, if_neg hp]
    exact ⟨ctx, rfl, by rw [h]; rfl⟩

/-- The action with its string as a C string. -/
def Action.truncated : Action F H → Action F H
  | .request params => .request params
  | .sleep TD => .sleep TD
  | .callCb what => .callCb (cstr what)

/-- Executing the action that the context holds. -/
theorem executeAction_eq (hK : K.Documented) {ctx : Ctx F H} {a : Action F H} (ha : ctx.Holds a)
    (hstatus : ctx.wakeupStatus = .notApplicable) (transfer : Transfer) (unread : Nat) :
    ∃ ctx', executeAction S K p transfer unread ctx =
        some (a.truncated.events S K p transfer, ctx', a.unreadAfter p unread) ∧
      pushWakeupStatus ctx'.wakeupStatus = a.passedArg p unread := by
  cases a with
  | request params =>
      obtain ⟨hnact, rfl⟩ := ha
      obtain ⟨ctx', hrequest, hkept⟩ := actionRequest_eq (S := S) (p := p) hK transfer ctx
      refine ⟨ctx', ?_, ?_⟩
      · rw [executeAction, hnact]
        dsimp only
        rw [hrequest]
        rfl
      · rw [hkept, hstatus, Action.passedArg]
        split <;> rfl
  | sleep TD =>
      obtain ⟨hnact, rfl⟩ := ha
      obtain ⟨ctx', hsleep, harg⟩ := actionSleep_eq (p := p) hstatus unread ctx.TD
      refine ⟨ctx', ?_, harg⟩
      rw [executeAction, hnact]
      dsimp only
      rw [hsleep]
      rfl
  | callCb what =>
      obtain ⟨hnact, hwhat⟩ := ha
      refine ⟨(actionCallCb ctx).2, ?_, ?_⟩
      · rw [executeAction, hnact]
        dsimp only
        rw [actionCallCb_eq hwhat]
        rfl
      · rw [actionCallCb, hstatus, Action.passedArg]
        split <;> rfl

/-! ## When the two differ -/

theorem length_truncated_events (a : Action F H) (transfer : Transfer) :
    (a.truncated.events S K p transfer).length = (a.events S K p transfer).length := by
  cases a <;> rfl

/-- The callback gets another string if there is a NUL byte in it. -/
theorem truncated_callCb_events_iff {what : Bytes} {transfer : Transfer} :
    (Action.callCb what : Action F H).truncated.events S K p transfer =
      (Action.callCb what : Action F H).events S K p transfer ↔ (0 : Text.Byte) ∉ what := by
  rw [← Lua.cstr_eq_iff]
  constructor
  · intro h
    injection h with h
    injection h with h
    injection h with _ h
    have hfield := congrFun h (.str (lit "what"))
    simpa [Table.ofFields] using hfield
  · intro h
    rw [Action.truncated, h]

/-! ## Whole runs -/

/-- What one pass of the loop does. -/
theorem runLoop_cons (hK : K.Documented) (ctx : Ctx F H) (unread : Nat) (it : Iteration F)
    (its : List (Iteration F)) (hnever : it.resumed ≠ .never) :
    match it.resumed.action S K with
    | none => (runLoop S K p ctx unread (it :: its)).observed =
        ([.resume (pushWakeupStatus ctx.wakeupStatus)], true)
    | some a => ∃ ctx' : Ctx F H,
        (runLoop S K p ctx unread (it :: its)).observed =
          ((.resume (pushWakeupStatus ctx.wakeupStatus) ::
              a.truncated.events S K p it.transfer) ++
            (runLoop S K p ctx' (a.unreadAfter p (p.wake unread it.wakeUps)) its).observed.1,
          (runLoop S K p ctx' (a.unreadAfter p (p.wake unread it.wakeUps)) its).observed.2) ∧
        pushWakeupStatus ctx'.wakeupStatus = a.passedArg p (p.wake unread it.wakeUps) := by
  obtain ⟨r, hr, hparses⟩ := makeFlashCall_parses (S := S) hK hnever ctx
  rw [runLoop, hr]
  cases ha : it.resumed.action S K with
  | none =>
      rw [ha] at hparses
      obtain ⟨msg, rfl⟩ := hparses
      rfl
  | some a =>
      rw [ha] at hparses
      obtain ⟨ctx₁, rfl, hholds, hstatus⟩ := hparses
      obtain ⟨ctx', hexec, harg⟩ :=
        executeAction_eq (S := S) (p := p) hK hholds hstatus it.transfer (p.wake unread it.wakeUps)
      refine ⟨ctx', ?_, harg⟩
      dsimp only
      rw [hexec]
      rfl

theorem protocolFrom_cons (arg : Option Bool) (unread : Nat) (it : Iteration F)
    (its : List (Iteration F)) (hnever : it.resumed ≠ .never) :
    protocolFrom S K p arg unread (it :: its) =
      match it.resumed.action S K with
      | none => ([.resume arg], true)
      | some a =>
          let rest := protocolFrom S K p (a.resumeArg p (p.wake unread it.wakeUps))
            (a.unreadAfter p (p.wake unread it.wakeUps)) its
          ((.resume arg :: a.events S K p it.transfer) ++ rest.1, rest.2) := by
  rw [protocolFrom]
  split
  · exact absurd ‹_› hnever
  · rfl

theorem runLoop_head (ctx : Ctx F H) (unread : Nat) (it : Iteration F) (its : List (Iteration F)) :
    (runLoop S K p ctx unread (it :: its)).observed.1.head? =
      some (.resume (pushWakeupStatus ctx.wakeupStatus)) := by
  rw [runLoop]
  split
  · rfl
  · rfl
  · split <;> rfl

theorem protocolFrom_head (arg : Option Bool) (unread : Nat) (it : Iteration F)
    (its : List (Iteration F)) :
    (protocolFrom S K p arg unread (it :: its)).1.head? = some (.resume arg) := by
  rw [protocolFrom]
  split
  · rfl
  · split <;> rfl

/-- Two logs that begin with as many events. -/
theorem append_observed_eq_iff {before before' : List (Event F H)}
    (hlength : before.length = before'.length) {rest rest' : List (Event F H) × Bool} :
    (before ++ rest.1, rest.2) = (before' ++ rest'.1, rest'.2) ↔
      before = before' ∧ rest = rest' := by
  constructor
  · intro h
    obtain ⟨h₁, h₂⟩ := Prod.ext_iff.mp h
    obtain ⟨hbefore, hrest⟩ := List.append_inj h₁ hlength
    exact ⟨hbefore, Prod.ext hrest h₂⟩
  · rintro ⟨rfl, rfl⟩
    rfl

/-- Resumed with different arguments, the two never agree again. -/
theorem runLoop_ne_protocolFrom {ctx : Ctx F H} {arg : Option Bool}
    (harg : pushWakeupStatus ctx.wakeupStatus ≠ arg) (unread unread' : Nat) (it : Iteration F)
    (its : List (Iteration F)) :
    (runLoop S K p ctx unread (it :: its)).observed ≠
      protocolFrom S K p arg unread' (it :: its) := by
  intro h
  have hhead := runLoop_head (S := S) (K := K) (p := p) ctx unread it its
  rw [h, protocolFrom_head] at hhead
  injection hhead with hhead
  injection hhead with hhead
  exact harg hhead.symm

/-- The rest of a run after a sleep. -/
theorem sleep_rest_iff {ctx : Ctx F H} {TD : TimeDelta F} {unread : Nat}
    (harg : pushWakeupStatus ctx.wakeupStatus =
      (Action.sleep TD : Action F H).passedArg p unread) (unread' : Nat)
    (its : List (Iteration F)) :
    (runLoop S K p ctx unread' its).observed =
        protocolFrom S K p ((Action.sleep TD : Action F H).resumeArg p unread) unread' its ↔
      (p.selfPipe = true ∨ its = []) ∧
        (runLoop S K p ctx unread' its).observed =
          protocolFrom S K p (pushWakeupStatus ctx.wakeupStatus) unread' its := by
  by_cases hp : p.selfPipe = true
  · rw [Action.passedArg, if_pos hp] at harg
    rw [harg]
    exact ⟨fun h => ⟨.inl hp, h⟩, fun h => h.2⟩
  · rw [Action.passedArg, if_neg hp] at harg
    cases its with
    | nil => exact iff_of_true rfl ⟨.inr rfl, rfl⟩
    | cons it its =>
        have hne : pushWakeupStatus ctx.wakeupStatus ≠
            (Action.sleep TD : Action F H).resumeArg p unread := by
          rw [harg]
          exact nofun
        refine iff_of_false (runLoop_ne_protocolFrom hne _ _ it its) ?_
        rintro ⟨h | h, -⟩
        · exact hp h
        · cases h

/-- From any context, the rest of a run follows the protocol if and only if it is proper.  The
induction is on the resumes; what is carried is the argument that the next one passes. -/
theorem runLoop_iff (hK : K.Documented) (its : List (Iteration F)) (ctx : Ctx F H)
    (unread : Nat) :
    (runLoop S K p ctx unread its).observed =
        protocolFrom S K p (pushWakeupStatus ctx.wakeupStatus) unread its ↔
      Proper S K p its := by
  induction its generalizing ctx unread with
  | nil => exact iff_of_true rfl trivial
  | cons it its ih =>
      by_cases hnever : it.resumed = .never
      · rw [runLoop, protocolFrom, Proper, hnever]
        exact iff_of_true rfl trivial
      · have hstep := runLoop_cons (S := S) (p := p) hK ctx unread it its hnever
        rw [protocolFrom_cons _ _ _ _ hnever, Proper]
        cases ha : it.resumed.action S K with
        | none =>
            rw [ha] at hstep
            exact iff_of_true hstep trivial
        | some a =>
            rw [ha] at hstep
            obtain ⟨ctx', hrun, harg⟩ := hstep
            have hlength : (Event.resume (pushWakeupStatus ctx.wakeupStatus) ::
                a.truncated.events S K p it.transfer).length =
                (Event.resume (pushWakeupStatus ctx.wakeupStatus) ::
                  a.events S K p it.transfer).length :=
              congrArg (· + 1) (length_truncated_events a it.transfer)
            rw [hrun]
            dsimp only
            rw [append_observed_eq_iff hlength, List.cons_eq_cons]
            cases a with
            | request params =>
                rw [Action.passedArg, Action.resumeArg, ite_self] at harg
                rw [Action.resumeArg, ← harg, ih]
                exact ⟨fun h => h.2, fun h => ⟨⟨rfl, rfl⟩, h⟩⟩
            | callCb what =>
                rw [Action.passedArg, Action.resumeArg, ite_self] at harg
                rw [Action.resumeArg, ← harg, ih, truncated_callCb_events_iff]
                exact ⟨fun h => ⟨h.1.2, h.2⟩, fun h => ⟨⟨rfl, h.1⟩, h.2⟩⟩
            | sleep TD =>
                rw [sleep_rest_iff harg, ih]
                exact ⟨fun h => h.2, fun h => ⟨⟨rfl, rfl⟩, h⟩⟩

/-- A run follows the protocol if and only if no resume follows a sleep without a self-pipe and no
string for the callback has a NUL byte in it. -/
theorem run_iff (hK : K.Documented) (easyInit : Bool) (its : List (Iteration F)) :
    (run S K p easyInit its).observed = protocol S K p easyInit its ↔
      (easyInit = true → Proper S K p its) := by
  cases easyInit with
  | false => exact iff_of_true rfl nofun
  | true => exact (runLoop_iff hK its (initCtx S K) 0).trans ⟨fun h _ => h, fun h => h rfl⟩

/-! ## Two planners -/

/-- Integers for doubles. -/
def intHost : Host Int where
  double :=
    { isNan := fun _ => false
      le := fun x y => decide (x ≤ y)
      lt := fun x y => decide (x < y)
      mul := fun x y => x * y
      ofInt := id
      toInt := id }
  maxi := 2 ^ 63 - 1
  otherTypename := lit "function"
  otherKeyTypename := lit "boolean"

/-- A libcurl that accepts every option: a handle is what has been set on it. -/
def recordingCurl : Curl (List (CurlOption × CurlValue)) where
  fresh := []
  reset _ := []
  setopt h which v := .ok (h ++ [(which, v)])

theorem recordingCurl_documented : recordingCurl.Documented where
  reset_eq _ := rfl
  setopt_ok h which v _ := ⟨h ++ [(which, v)], rfl⟩

/-- `{action = action, [key] = value}`. -/
def yieldTable (action key : Bytes) (value : Arg Int) : Resumed Int :=
  .yields [.table fun k =>
    if k = lit "action" then .string action else if k = key then value else .nil]

/-- No transfer is made. -/
def noTransfer : Transfer := ⟨[], [], .error []⟩

/-- A request that is answered, a call of the callback, a sleep during which `wake_up()` is called,
and the end of the planner. -/
def requestAndSleep : List (Iteration Int) :=
  [⟨yieldTable (lit "request") (lit "params")
      (.table 0 [(.str (lit "url"), .string (lit "http://localhost"))]),
    ⟨[lit "ok"], [], .ok 200⟩, 0⟩,
    ⟨yieldTable (lit "call_cb") (lit "what") (.string (lit "done")), noTransfer, 0⟩,
    ⟨yieldTable (lit "sleep") (lit "period") (.number 5), noTransfer, 1⟩,
    ⟨.finishes, noTransfer, 0⟩]

theorem run_requestAndSleep :
    (run intHost recordingCurl ⟨{}, true⟩ true requestAndSleep).observed =
      protocol intHost recordingCurl ⟨{}, true⟩ true requestAndSleep := by
  refine (run_iff recordingCurl_documented true requestAndSleep).mpr fun _ => ?_
  exact ⟨by decide, .inl rfl, trivial⟩

/-- A sleep, and the end of the planner. -/
def sleepOnce : List (Iteration Int) :=
  [⟨yieldTable (lit "sleep") (lit "period") (.number 5), noTransfer, 0⟩,
    ⟨.finishes, noTransfer, 0⟩]

/-- A call of the callback with a string that has a NUL byte in it. -/
def callCbWithNul : List (Iteration Int) :=
  [⟨yieldTable (lit "call_cb") (lit "what") (.string [97, 0, 98]), noTransfer, 0⟩]

/-- Without a self-pipe, the resume after a sleep passes nil.  With or without one, the callback
gets a part of the string. -/
theorem run_departs :
    (run intHost recordingCurl ⟨{}, false⟩ true sleepOnce).observed ≠
        protocol intHost recordingCurl ⟨{}, false⟩ true sleepOnce ∧
      (run intHost recordingCurl ⟨{}, true⟩ true callCbWithNul).observed ≠
        protocol intHost recordingCurl ⟨{}, true⟩ true callCbWithNul := by
  constructor
  · intro h
    rcases ((runLoop_iff recordingCurl_documented _ _ 0).mp h).1 with hpipe | hits
    · cases hpipe
    · cases hits
  · intro h
    exact absurd ((runLoop_iff recordingCurl_documented _ _ 0).mp h).1 (by decide)

end Luastatus.Web

import Luastatus.Lib.Mutex
import Luastatus.Lua.Arg
import Luastatus.Lua.Error
import Luastatus.Pipev2.Child

/-!
# The pids that pipev2 signals

`kill` is called with a number, so what matters is whose number it is at that moment.  Here the
pids are the integers of the source, with the two sentinels, and `launch`, `kill` and `waitpid` may
answer anything that the system may answer: `launch` or `fdopen` may fail, `waitpid` may fail with
the child running, and a signal may not be delivered.  The threads and the places at which they
can be interrupted are those of the model of the child process.

A run is recorded by its labels.  `Record` keeps of them what was spawned, published and waited
for, and `RunInv` says, for each place of `run`, what the record is and what `child_pid` is.  The
only place at which the two do not fit together is the one between `waitpid` and the assignment
that follows it.  There `run` holds `child_mtx`, so no other thread is in `l_kill`'s critical
section.
-/

namespace Luastatus.Pipev2.Signals

open Text (Bytes lit)
open Transition Mutex

/-! ## The signal's number -/

/-- `SIG_SPECS`, with the numbers of Linux. -/
def sigSpecs : List (Bytes × Int) :=
  [(lit "SIGABRT", 6), (lit "SIGALRM", 14), (lit "SIGBUS", 7), (lit "SIGCHLD", 17),
    (lit "SIGCONT", 18), (lit "SIGFPE", 8), (lit "SIGHUP", 1), (lit "SIGILL", 4),
    (lit "SIGINT", 2), (lit "SIGKILL", 9), (lit "SIGPIPE", 13), (lit "SIGQUIT", 3),
    (lit "SIGSEGV", 11), (lit "SIGSTOP", 19), (lit "SIGTERM", 15), (lit "SIGTSTP", 20),
    (lit "SIGTTIN", 21), (lit "SIGTTOU", 22), (lit "SIGUSR1", 10), (lit "SIGUSR2", 12),
    (lit "SIGURG", 23)]

def sigTerm : Int := 15

def sigKill : Int := 9

/-- `ESRCH`. -/
def esrch : Int := 3

def sigdbLookupNumByName (sigName : Bytes) : Int :=
  match sigSpecs.find? (·.1 = sigName) with
  | some spec => spec.2
  | none => -1

/-- The argument of `kill`. -/
inductive KillArg where
  | noneOrNil
  /-- A number, by what `lua_tointeger` gives for it. -/
  | number (n : Int)
  | string (s : Bytes)
  | other (typename : Bytes)
deriving DecidableEq, Repr

/-- `fetch_sig_num`.  The integer is cut to an `int`. -/
def fetchSigNum : KillArg → Except Lua.LuaError Int
  | .noneOrNil => .ok sigTerm
  | .number n =>
      let res := n.bmod (2 ^ 32)
      if res < 0 then .error (.argError 1 (lit "number is negative or out of range")) else .ok res
  | .string s =>
      let res := sigdbLookupNumByName (Lua.cstr s)
      if res < 0 then .error (.argError 1 (lit "unknown signal name")) else .ok res
  | .other typename =>
      .error (.error (lit "expected number of string as argument, found " ++ typename))

/-- A number that comes out is not one that `kill` takes for a failed lookup. -/
theorem fetchSigNum_nonneg {arg : KillArg} {sig : Int} (h : fetchSigNum arg = .ok sig) :
    0 ≤ sig := by
  cases arg with
  | noneOrNil =>
      cases h
      decide
  | number n =>
      simp only [fetchSigNum] at h
      split at h
      · cases h
      · rename_i hn
        cases h
        exact Int.not_lt.mp hn
  | string s =>
      simp only [fetchSigNum] at h
      split at h
      · cases h
      · rename_i hn
        cases h
        exact Int.not_lt.mp hn
  | other typename => cases h

/-! ## States -/

/-- `PID_NOT_SPAWNED_YET`. -/
def pidNotSpawnedYet : Int := 0

/-- `PID_ALREADY_TERMINATED`. -/
def pidAlreadyTerminated : Int := -1

/-- `LaunchResult`. -/
structure LaunchResult where
  pid : Int
  fdStdin : Int
  fdStdout : Int
deriving DecidableEq, Repr

/-- A result of a successful `launch`: a process, and the pipes that were asked for. -/
structure LaunchResult.Valid (o : Options) (res : LaunchResult) : Prop where
  pid : 0 < res.pid
  fdStdin : if o.pipeStdin then 0 ≤ res.fdStdin else res.fdStdin = -1
  fdStdout : 0 ≤ res.fdStdout

/-- What `l_kill` gives to Lua. -/
inductive KillRet where
  /-- `true` -/
  | killed
  /-- `false`, with the text of the error. -/
  | failed (errnum : Int)
  /-- An error is thrown: "process has not been created yet". -/
  | notCreated
deriving DecidableEq, Repr

/-- Where Lua code is with respect to the functions of the plugin. -/
inductive FnPc where
  /-- In neither of them. -/
  | lua
  | killLocking (sig : Int)
  | killLocked (sig : Int)
  /-- `l_kill` has read `child_pid`. -/
  | killFetched (sig pid : Int)
  | killDone (ret : KillRet)
  /-- After the unlock. -/
  | killReturning (ret : KillRet)
  | writeLocking
  | writeLocked
  /-- `l_write_to_stdin` has read `child_stdin_fd`. -/
  | writeFetched (fd : Int)
  /-- In `utils_full_write`. -/
  | writing
deriving DecidableEq, Repr

/-- Where `run` is. -/
inductive RunPc where
  | start
  /-- In `do_spawn`, after `launch`. -/
  | launched (res : LaunchResult)
  /-- In `do_cleanup_leftover`, before `kill`. -/
  | leftover (res : LaunchResult)
  /-- In `do_cleanup_leftover`, before `utils_waitpid`. -/
  | leftoverWait (res : LaunchResult)
  /-- In `do_spawn`, before the lock. -/
  | spawned (res : LaunchResult)
  | publishing (res : LaunchResult)
  | published
  | reading
  /-- Before the Lua lock of a call. -/
  | call (w : What)
  /-- In the callback. -/
  | cb (w : What) (k : FnPc)
  /-- Before `do_wait`. -/
  | readEnded
  /-- In `do_wait`, before `utils_waitpid`. -/
  | waiting
  /-- In `do_wait`, after `utils_waitpid`. -/
  | waited
  /-- In `do_wait`, before the unlock. -/
  | cleared
  | pausing
  | returned
deriving DecidableEq, Repr

/-- Where the event watcher's thread is. -/
inductive HandlerPc where
  | idle
  /-- In the event function. -/
  | event (k : FnPc)
deriving DecidableEq, Repr

/-- A state of the plugin's instance and its child. -/
structure State where
  child : Child
  childPid : Int
  childStdinFd : Int
  /-- The holder of `child_mtx`. -/
  childMtx : Option Thread
  /-- The holder of the widget's Lua lock. -/
  luaMtx : Option Thread
  run : RunPc
  handler : HandlerPc
deriving DecidableEq, Repr

/-- The place of a thread in the plugin's functions, if it executes Lua code. -/
def State.fn (s : State) : Thread → Option FnPc
  | .run => match s.run with
      | .cb _ k => some k
      | _ => none
  | .handler => match s.handler with
      | .event k => some k
      | _ => none

/-- Move a thread that executes Lua code to another place. -/
def State.setFn (s : State) (t : Thread) (k : FnPc) : State :=
  match t with
  | .run => match s.run with
      | .cb w _ => { s with run := .cb w k }
      | _ => s
  | .handler => { s with handler := .event k }

/-! ## Steps -/

/-- `l_kill` with the mutex held and `child_pid` read: the arguments of the system call, if it is
made, and what is to be returned.  The system call fails with the error `answer`, if that is not
`none`. -/
def killDecision (pid sig : Int) (answer : Option Int) : Option (Int × Int) × KillRet :=
  if 0 < pid then
    match answer with
    | none => (some (pid, sig), .killed)
    | some errnum => (some (pid, sig), .failed errnum)
  else if pid = pidNotSpawnedYet then (none, .notCreated)
  else (none, .failed esrch)

/-- What a thread does in a step, as far as it matters. -/
inductive Act where
  | lock
  | unlock
  /-- `posix_spawnp` gives a process. -/
  | spawn (pid : Int)
  /-- `child_pid` is set to a process. -/
  | publish (pid : Int)
  /-- A call of `kill` is decided: the system call, if one is made, and the result. -/
  | kill (syscall : Option (Int × Int)) (ret : KillRet)
  /-- `l_kill` returns or throws. -/
  | killReturn (ret : KillRet)
  /-- `fetch_sig_num` throws. -/
  | badArg (e : Lua.LuaError)
  /-- `kill(leftover.pid, SIGKILL)`. -/
  | killLeftover (pid : Int)
  /-- `utils_waitpid` returns; `ok` if it has reaped the process. -/
  | waitpid (pid : Int) (ok : Bool)
  /-- The assertion of `utils_waitpid` fails.  There is no state after it. -/
  | abort
  | other
deriving DecidableEq, Repr

/-- Who moves, and what it does. -/
inductive Label where
  | thread (t : Thread) (a : Act)
  | child
deriving DecidableEq, Repr

/-- The arguments of the system call `kill`, if the step makes it. -/
def Label.syscall : Label → Option (Int × Int)
  | .thread _ (.kill call _) => call
  | .thread _ (.killLeftover pid) => some (pid, sigKill)
  | _ => none

/-- The step of a thread `t` in `l_kill`, `l_write_to_stdin`, or from Lua code into one of them:
the place after it and the holder of `child_mtx` after it. -/
inductive FnStep (o : Options) (t : Thread) (s : State) :
    FnPc → Act → FnPc → Option Thread → Prop where
  | killBadArg : fetchSigNum arg = .error e → FnStep o t s .lua (.badArg e) .lua s.childMtx
  | kill : fetchSigNum arg = .ok sig → FnStep o t s .lua .other (.killLocking sig) s.childMtx
  | killLock : s.childMtx = none →
      FnStep o t s (.killLocking sig) .lock (.killLocked sig) (some t)
  | killFetch : FnStep o t s (.killLocked sig) .other (.killFetched sig s.childPid) s.childMtx
  | killDecide : killDecision pid sig answer = (call, ret) →
      FnStep o t s (.killFetched sig pid) (.kill call ret) (.killDone ret) s.childMtx
  | killUnlock : FnStep o t s (.killDone ret) .unlock (.killReturning ret) none
  | killReturn : FnStep o t s (.killReturning ret) (.killReturn ret) .lua s.childMtx
  /-- Without the option `pipe_stdin` an error is thrown before the lock. -/
  | write : o.pipeStdin = true → FnStep o t s .lua .other .writeLocking s.childMtx
  | writeLock : s.childMtx = none → FnStep o t s .writeLocking .lock .writeLocked (some t)
  | writeFetch : FnStep o t s .writeLocked .other (.writeFetched s.childStdinFd) s.childMtx
  | writeUnlock : FnStep o t s (.writeFetched fd) .unlock (if fd < 0 then .lua else .writing) none
  | writeEnd : FnStep o t s .writing .other .lua s.childMtx

/-- Where `run` goes after a call. -/
def afterCall : What → RunPc
  | .hello => .reading
  | .line => .reading
  | .bye => .pausing

/-- The steps; `sep` says that the event function lives in the separate state. -/
inductive Step (o : Options) (sep : Bool) : State → Label → State → Prop where
  /-- `launch` creates the process. -/
  | launch : s.run = .start → LaunchResult.Valid o res →
      Step o sep s (.thread .run (.spawn res.pid))
        { s with run := .launched res, child := .alive true }
  | launchFail : s.run = .start → Step o sep s (.thread .run .other) { s with run := .returned }
  | fdopen : s.run = .launched res → Step o sep s (.thread .run .other)
      { s with run := .spawned res }
  | fdopenFail : s.run = .launched res → Step o sep s (.thread .run .other)
      { s with run := .leftover res }
  | killLeftover : s.run = .leftover res → Step o sep s (.thread .run (.killLeftover res.pid))
      { s with run := .leftoverWait res }
  | waitLeftover : s.run = .leftoverWait res → 0 < res.pid → s.child = .exited →
      Step o sep s (.thread .run (.waitpid res.pid true))
        { s with run := .returned, child := .reaped }
  | waitLeftoverFail : s.run = .leftoverWait res → 0 < res.pid →
      Step o sep s (.thread .run (.waitpid res.pid false)) { s with run := .returned }
  | waitLeftoverAbort : s.run = .leftoverWait res → ¬ 0 < res.pid →
      Step o sep s (.thread .run .abort) s
  | publishLock : s.run = .spawned res → s.childMtx = none → Step o sep s (.thread .run .lock)
      { s with run := .publishing res, childMtx := some .run }
  | publish : s.run = .publishing res → Step o sep s (.thread .run (.publish res.pid))
      { s with run := .published, childStdinFd := res.fdStdin, childPid := res.pid }
  | publishUnlock : s.run = .published → Step o sep s (.thread .run .unlock)
      { s with run := if o.greet then .call .hello else .reading, childMtx := none }
  /-- `getdelim` returns a chunk. -/
  | readLine : s.run = .reading → Step o sep s (.thread .run .other)
      { s with run := .call .line }
  /-- `getdelim` finds the end of the stream: the child has closed it or is gone. -/
  | readEof : s.run = .reading → s.child ≠ .alive true → Step o sep s (.thread .run .other)
      { s with run := .readEnded }
  | readError : s.run = .reading → Step o sep s (.thread .run .other) { s with run := .readEnded }
  | callBegin : s.run = .call w → s.luaMtx = none → Step o sep s (.thread .run .other)
      { s with run := .cb w .lua, luaMtx := some .run }
  | callEnd : s.run = .cb w .lua → Step o sep s (.thread .run .other)
      { s with run := afterCall w, luaMtx := none }
  | waitLock : s.run = .readEnded → s.childMtx = none → Step o sep s (.thread .run .lock)
      { s with run := .waiting, childMtx := some .run }
  | waitpid : s.run = .waiting → 0 < s.childPid → s.child = .exited →
      Step o sep s (.thread .run (.waitpid s.childPid true))
        { s with run := .waited, child := .reaped }
  | waitpidFail : s.run = .waiting → 0 < s.childPid →
      Step o sep s (.thread .run (.waitpid s.childPid false)) { s with run := .waited }
  | waitpidAbort : s.run = .waiting → ¬ 0 < s.childPid →
      Step o sep s (.thread .run .abort) s
  | waitClear : s.run = .waited → Step o sep s (.thread .run .other)
      { s with run := .cleared, childPid := pidAlreadyTerminated }
  | waitUnlock : s.run = .cleared → Step o sep s (.thread .run .unlock)
      { s with run := if o.bye then .call .bye else .returned, childMtx := none }
  | eventBegin : s.handler = .idle → sep = false → s.luaMtx = none →
      Step o sep s (.thread .handler .other)
        { s with handler := .event .lua, luaMtx := some .handler }
  | eventEnd : s.handler = .event .lua → sep = false → Step o sep s (.thread .handler .other)
      { s with handler := .idle, luaMtx := none }
  | sepEventBegin : s.handler = .idle → sep = true → Step o sep s (.thread .handler .other)
      { s with handler := .event .lua }
  | sepEventEnd : s.handler = .event .lua → sep = true → Step o sep s (.thread .handler .other)
      { s with handler := .idle }
  | fn : s.fn t = some k → FnStep o t s k a k' m → Step o sep s (.thread t a)
      { s.setFn t k' with childMtx := m }
  | closeStdout : s.child = .alive true → Step o sep s .child { s with child := .alive false }
  | exit : s.child = .alive b → Step o sep s .child { s with child := .exited }

/-- The state that `init` leaves. -/
def initState : State where
  child := .notSpawned
  childPid := pidNotSpawnedYet
  childStdinFd := -1
  childMtx := none
  luaMtx := none
  run := .start
  handler := .idle

/-- The plugin's instance and its child, as a system. -/
def system (o : Options) (sep : Bool) : System State Label where
  init s := s = initState
  step := Step o sep

/-! ## Who holds the mutex -/

/-- The places at which `child_mtx` is held. -/
def FnPc.holds : FnPc → Bool
  | .killLocked _ | .killFetched _ _ | .killDone _ | .writeLocked | .writeFetched _ => true
  | .lua | .killLocking _ | .killReturning _ | .writeLocking | .writing => false

/-- The places at which `run` holds `child_mtx`. -/
def RunPc.holds : RunPc → Bool
  | .publishing _ | .published | .waiting | .waited | .cleared => true
  | .cb _ k => k.holds
  | _ => false

/-- The places at which the event watcher's thread holds `child_mtx`. -/
def HandlerPc.holds : HandlerPc → Bool
  | .idle => false
  | .event k => k.holds

/-- By its place, the thread holds `child_mtx`. -/
def State.holds (s : State) : Thread → Bool
  | .run => s.run.holds
  | .handler => s.handler.holds

variable {o : Options} {sep : Bool} {s s' : State} {l : Label} {t u : Thread} {k k' : FnPc}

theorem State.holds_of_fn (h : s.fn t = some k) : s.holds t = k.holds := by
  cases t with
  | run =>
      cases hr : s.run <;> simp only [fn, hr] at h <;> cases h
      simp only [holds, hr, RunPc.holds]
  | handler =>
      cases hr : s.handler <;> simp only [fn, hr] at h <;> cases h
      simp only [holds, hr, HandlerPc.holds]

theorem State.fn_setFn (h : s.fn t = some k) (k' : FnPc) (m : Option Thread) :
    State.fn { s.setFn t k' with childMtx := m } t = some k' := by
  cases t with
  | run =>
      cases hr : s.run <;> simp only [fn, hr] at h <;> cases h
      simp [fn, setFn, hr]
  | handler => simp [fn, setFn]

theorem State.setFn_of_ne (h : u ≠ t) (k' : FnPc) (m : Option Thread) :
    State.fn { s.setFn t k' with childMtx := m } u = s.fn u ∧
      State.holds { s.setFn t k' with childMtx := m } u = s.holds u := by
  cases t with
  | run =>
      cases u with
      | run => exact absurd rfl h
      | handler => cases hr : s.run <;> simp [fn, holds, setFn, hr]
  | handler =>
      cases u with
      | run => simp [fn, holds, setFn]
      | handler => exact absurd rfl h

theorem State.childPid_setFn (s : State) (t : Thread) (k : FnPc) :
    (s.setFn t k).childPid = s.childPid := by
  cases t with
  | run => cases hr : s.run <;> simp [setFn, hr]
  | handler => rfl

/-- A step in one of the functions is a move of its thread. -/
theorem FnStep.move {a : Act} {m : Option Thread} (h : FnStep o t s k a k' m) :
    Move t s.childMtx k.holds m k'.holds := by
  cases h with
  | killLock hfree | writeLock hfree =>
      rw [hfree]
      exact .lock
  | killUnlock => exact .unlock
  | writeUnlock =>
      split <;> exact .unlock
  | killBadArg _ | kill _ | killFetch | killDecide _ | killReturn | write _ | writeFetch
  | writeEnd => exact .keep

/-- A step of `run` outside of the functions. -/
theorem excl_run (hs : Excl s.childMtx s.holds)
    (hmove : Move .run s.childMtx s.run.holds s'.childMtx s'.run.holds)
    (hh : s'.handler = s.handler) : Excl s'.childMtx s'.holds := by
  refine hs.move (t := .run) hmove fun u hu => ?_
  cases u with
  | run => exact absurd rfl hu
  | handler => rw [State.holds, State.holds, hh]

theorem excl_step (hs : Excl s.childMtx s.holds) (h : Step o sep s l s') :
    Excl s'.childMtx s'.holds := by
  have hkeep {s' : State} (hm : s'.childMtx = s.childMtx) (hr : s'.run.holds = s.run.holds)
      (hh : s'.handler = s.handler) : Excl s'.childMtx s'.holds := by
    refine excl_run hs ?_ hh
    rw [hm, hr]
    exact .keep
  cases h with
  | launch hpc _ | launchFail hpc | fdopen hpc | fdopenFail hpc | killLeftover hpc
  | waitLeftover hpc _ _ | waitLeftoverFail hpc _ | publish hpc
  | readLine hpc | readEof hpc _ | readError hpc | callBegin hpc _ | waitpid hpc _ _
  | waitpidFail hpc _ | waitClear hpc =>
      exact hkeep rfl (by rw [hpc]; rfl) rfl
  | waitLeftoverAbort _ _ | waitpidAbort _ _ => exact hs
  | @callEnd _ w hpc => exact hkeep rfl (by rw [hpc]; cases w <;> rfl) rfl
  | publishLock hpc hfree | waitLock hpc hfree =>
      refine excl_run hs ?_ rfl
      rw [hfree]
      exact .lock
  | publishUnlock hpc =>
      refine excl_run hs ?_ rfl
      rw [hpc]
      cases o.greet <;> exact .unlock
  | waitUnlock hpc =>
      refine excl_run hs ?_ rfl
      rw [hpc]
      cases o.bye <;> exact .unlock
  | eventBegin hpc _ _ | eventEnd hpc _ | sepEventBegin hpc _ | sepEventEnd hpc _ =>
      refine hs.congr rfl fun u => ?_
      cases u with
      | run => rfl
      | handler =>
          rw [State.holds, State.holds, hpc]
          rfl
  | @fn k t _ a k' m hfn hst =>
      refine hs.move (t := t) ?_ fun u hu => (State.setFn_of_ne hu k' m).2
      rw [State.holds_of_fn hfn, State.holds_of_fn (State.fn_setFn hfn k' m)]
      exact hst.move
  | closeStdout _ | exit _ => exact hkeep rfl rfl rfl

/-! ## The record of a run -/

/-- What the labels say about processes. -/
structure Record where
  /-- The processes that were created. -/
  spawned : List Int := []
  /-- The values that `child_pid` was given in `do_spawn`. -/
  published : List Int := []
  /-- The processes that were waited for. -/
  waited : List Int := []
deriving DecidableEq, Repr

def Label.note : Label → Record → Record
  | .thread _ (.spawn pid), r => { r with spawned := pid :: r.spawned }
  | .thread _ (.publish pid), r => { r with published := pid :: r.published }
  | .thread _ (.waitpid pid _), r => { r with waited := pid :: r.waited }
  | _, r => r

/-- The record of the labels, newest first. -/
def record : List Label → Record
  | [] => {}
  | l :: h => l.note (record h)

/-- No process was published. -/
structure Unpublished (r : Record) (childPid : Int) : Prop where
  published : r.published = []
  pid : childPid = pidNotSpawnedYet

/-- `launch` has given `res`, which is not published. -/
structure Launched (r : Record) (childPid : Int) (res : LaunchResult) : Prop extends
    Unpublished r childPid where
  pos : 0 < res.pid
  spawned : r.spawned = [res.pid]
  waited : r.waited = []

/-- The process is published and was not waited for. -/
structure Running (r : Record) (childPid : Int) : Prop where
  pos : 0 < childPid
  spawned : r.spawned = [childPid]
  published : r.published = [childPid]
  waited : r.waited = []

/-- The process was published and waited for. -/
structure Ended (r : Record) (childPid : Int) : Prop where
  published : r.published ≠ []
  waited : r.waited ≠ []
  pid : childPid = pidAlreadyTerminated

/-- `child_pid` fits what has happened. -/
inductive Phase (r : Record) (childPid : Int) : Prop where
  | unpublished (h : Unpublished r childPid)
  | running (h : Running r childPid)
  | ended (h : Ended r childPid)

/-- The record and `child_pid` during a call. -/
def CallInv (r : Record) (childPid : Int) : What → Prop
  | .hello => Running r childPid
  | .line => Running r childPid
  | .bye => Ended r childPid

/-- The record and `child_pid` at the places of `run`. -/
def RunInv (r : Record) (childPid : Int) : RunPc → Prop
  | .start => r = {} ∧ childPid = pidNotSpawnedYet
  | .launched res => Launched r childPid res
  | .leftover res => Launched r childPid res
  | .leftoverWait res => Launched r childPid res
  | .spawned res => Launched r childPid res
  | .publishing res => Launched r childPid res
  | .published => Running r childPid
  | .reading => Running r childPid
  | .call w => CallInv r childPid w
  | .cb w _ => CallInv r childPid w
  | .readEnded => Running r childPid
  | .waiting => Running r childPid
  -- `child_pid` is stale here
  | .waited => r.published ≠ [] ∧ r.waited ≠ []
  | .cleared => Ended r childPid
  | .pausing => Ended r childPid
  | .returned => Unpublished r childPid ∨ Ended r childPid

variable {r : Record} {childPid : Int}

theorem CallInv.phase {w : What} (h : CallInv r childPid w) : Phase r childPid := by
  cases w with
  | hello | line => exact .running h
  | bye => exact .ended h

/-- There is one place at which `child_pid` does not fit. -/
theorem RunInv.phase {pc : RunPc} (h : RunInv r childPid pc) (hpc : pc ≠ .waited) :
    Phase r childPid := by
  cases pc with
  | start =>
      obtain ⟨rfl, hpid⟩ := h
      exact .unpublished ⟨rfl, hpid⟩
  | launched res | leftover res | leftoverWait res | spawned res | publishing res =>
      exact .unpublished h.toUnpublished
  | published | reading | readEnded | waiting => exact .running h
  | call w => exact CallInv.phase h
  | cb w k => exact CallInv.phase h
  | waited => exact absurd rfl hpc
  | cleared | pausing => exact .ended h
  | returned => exact h.elim .unpublished .ended

/-- Nothing happens to processes in the functions. -/
theorem FnStep.note {a : Act} {m : Option Thread} (h : FnStep o t s k a k' m) (r : Record) :
    Label.note (.thread u a) r = r := by
  cases h <;> rfl

theorem RunInv.step (hs : RunInv r s.childPid s.run) (h : Step o sep s l s') :
    RunInv (l.note r) s'.childPid s'.run := by
  cases h with
  | launch hpc hres =>
      rw [hpc] at hs
      obtain ⟨rfl, hpid⟩ := hs
      exact ⟨⟨rfl, hpid⟩, hres.pid, rfl, rfl⟩
  | launchFail hpc =>
      rw [hpc] at hs
      obtain ⟨rfl, hpid⟩ := hs
      exact .inl ⟨rfl, hpid⟩
  | fdopen hpc | fdopenFail hpc | killLeftover hpc | publishLock hpc _ | readEof hpc _
  | readLine hpc | readError hpc | callBegin hpc _ | waitLock hpc _ =>
      rw [hpc] at hs
      exact hs
  | waitLeftover hpc _ _ | waitLeftoverFail hpc _ =>
      rw [hpc] at hs
      exact .inl ⟨hs.published, hs.pid⟩
  | publish hpc =>
      rw [hpc] at hs
      exact ⟨hs.pos, hs.spawned, congrArg _ hs.published, hs.waited⟩
  | publishUnlock hpc =>
      rw [hpc] at hs
      cases o.greet <;> exact hs
  | @callEnd _ w hpc =>
      rw [hpc] at hs
      cases w <;> exact hs
  | waitpid hpc _ _ | waitpidFail hpc _ =>
      rw [hpc] at hs
      have hpub : r.published ≠ [] := by
        rw [Running.published hs]
        exact List.cons_ne_nil _ _
      exact ⟨hpub, List.cons_ne_nil _ _⟩
  | waitClear hpc =>
      rw [hpc] at hs
      exact ⟨hs.1, hs.2, rfl⟩
  | waitUnlock hpc =>
      rw [hpc] at hs
      cases o.bye with
      | true => exact hs
      | false => exact .inr hs
  | @fn k t _ a k' m hfn hst =>
      rw [hst.note]
      cases t with
      | run =>
          cases hpc : s.run <;> simp only [State.fn, hpc] at hfn <;> cases hfn
          rw [hpc] at hs
          simp only [State.setFn, hpc]
          exact hs
      | handler => exact hs
  | waitLeftoverAbort _ _ | waitpidAbort _ _ | eventBegin _ _ _ | eventEnd _ _ | sepEventBegin _ _
  | sepEventEnd _ _ | closeStdout _ | exit _ => exact hs

/-! ## What `l_kill` has read -/

/-- A thread is at a place of the functions because it was there before, or has begun to execute
Lua code, or has come there by a step of them. -/
theorem Step.fn_cases (h : Step o sep s l s') (hfn : s'.fn u = some k') :
    s.fn u = some k' ∨ k' = .lua ∨
      ∃ k a m, l = .thread u a ∧ s.fn u = some k ∧ FnStep o u s k a k' m := by
  cases h with
  | launch | launchFail | fdopen | fdopenFail | killLeftover | waitLeftover | waitLeftoverFail
  | publishLock | publish | readLine | readEof | readError | waitLock | waitpid | waitpidFail
  | waitClear =>
      cases u with
      | run => cases hfn
      | handler => exact .inl hfn
  | callBegin =>
      cases u with
      | run =>
          cases hfn
          exact .inr (.inl rfl)
      | handler => exact .inl hfn
  | @callEnd _ w _ =>
      cases u with
      | run => cases w <;> cases hfn
      | handler => exact .inl hfn
  | publishUnlock _ =>
      cases u with
      | run => cases hg : o.greet <;> simp [State.fn, hg] at hfn
      | handler => exact .inl hfn
  | waitUnlock _ =>
      cases u with
      | run => cases hb : o.bye <;> simp [State.fn, hb] at hfn
      | handler => exact .inl hfn
  | eventBegin | sepEventBegin =>
      cases u with
      | run => exact .inl hfn
      | handler =>
          cases hfn
          exact .inr (.inl rfl)
  | eventEnd | sepEventEnd =>
      cases u with
      | run => exact .inl hfn
      | handler => cases hfn
  | @fn k t _ a k₁ m hk hst =>
      by_cases he : u = t
      · subst he
        rw [State.fn_setFn hk k₁ m] at hfn
        obtain rfl : k₁ = k' := Option.some.inj hfn
        exact .inr (.inr ⟨_, _, _, rfl, hk, hst⟩)
      · rw [(State.setFn_of_ne he k₁ m).1] at hfn
        exact .inl hfn
  | waitLeftoverAbort | waitpidAbort | closeStdout | exit => exact .inl hfn

/-- `child_pid` is changed by `run` alone, with the mutex held and outside of the functions. -/
theorem Step.childPid_cases (h : Step o sep s l s') :
    s'.childPid = s.childPid ∨ s.holds .run = true ∧ s.fn .run = none := by
  cases h with
  | publish hpc | waitClear hpc =>
      refine .inr ⟨?_, ?_⟩
      · rw [State.holds, hpc]
        rfl
      · rw [State.fn, hpc]
  | @fn k t _ a k' m _ _ => exact .inl (s.childPid_setFn t k')
  | _ => exact .inl rfl

/-- While a thread is in the critical section of a function, `child_pid` does not change. -/
theorem Step.childPid_of_fn (h : Step o sep s l s') (hex : Excl s.childMtx s.holds)
    (hfn : s.fn u = some k) (hk : k.holds = true) : s'.childPid = s.childPid := by
  rcases h.childPid_cases with hpid | ⟨hrun, hnone⟩
  · exact hpid
  · have hu : s.holds u = true := (State.holds_of_fn hfn).trans hk
    cases hex.unique hu hrun
    cases hnone.symm.trans hfn

/-- There is one way to the place after the read. -/
theorem FnStep.fetched {a : Act} {m : Option Thread} {sig pid : Int}
    (h : FnStep o t s k a k' m) (hk : k' = .killFetched sig pid) :
    k = .killLocked sig ∧ pid = s.childPid := by
  cases h with
  | killFetch =>
      cases hk
      exact ⟨rfl, rfl⟩
  | writeUnlock => split at hk <;> cases hk
  | _ => cases hk

/-- In its critical section `l_kill` knows the current `child_pid`. -/
def FetchInv (s : State) : Prop :=
  ∀ t sig pid, s.fn t = some (.killFetched sig pid) → pid = s.childPid

theorem FetchInv.step (hs : FetchInv s) (hex : Excl s.childMtx s.holds) (h : Step o sep s l s') :
    FetchInv s' := by
  intro t sig pid hfn
  rcases h.fn_cases hfn with hold | hlua | ⟨k, a, m, -, hold, hst⟩
  · rw [h.childPid_of_fn hex hold rfl]
    exact hs t sig pid hold
  · cases hlua
  · obtain ⟨rfl, rfl⟩ := hst.fetched rfl
    exact (h.childPid_of_fn hex hold rfl).symm

/-- What a call returns is what was decided in its critical section. -/
def RetInv (h : List Label) (s : State) : Prop :=
  ∀ t ret, s.fn t = some (.killDone ret) ∨ s.fn t = some (.killReturning ret) →
    ∃ call, .thread t (.kill call ret) ∈ h

/-- The ways to the places after the decision. -/
theorem FnStep.decided {a : Act} {m : Option Thread} {ret : KillRet}
    (h : FnStep o t s k a k' m) (hk : k' = .killDone ret ∨ k' = .killReturning ret) :
    (∃ call, a = .kill call ret) ∨ k = .killDone ret := by
  cases h with
  | killDecide _ =>
      rcases hk with hk | hk <;> cases hk
      exact .inl ⟨_, rfl⟩
  | killUnlock =>
      rcases hk with hk | hk <;> cases hk
      exact .inr rfl
  | writeUnlock => split at hk <;> rcases hk with hk | hk <;> cases hk
  | _ => rcases hk with hk | hk <;> cases hk

theorem RetInv.step {h : List Label} (hs : RetInv h s) (hst : Step o sep s l s') :
    RetInv (l :: h) s' := by
  intro t ret hfn
  obtain ⟨k', hk', hfn'⟩ : ∃ k', (k' = .killDone ret ∨ k' = .killReturning ret) ∧
      s'.fn t = some k' :=
    hfn.elim (fun hfn => ⟨_, .inl rfl, hfn⟩) fun hfn => ⟨_, .inr rfl, hfn⟩
  rcases hst.fn_cases hfn' with hold | rfl | ⟨k, a, m, rfl, hold, hfs⟩
  · have hret : ∃ call, .thread t (.kill call ret) ∈ h := by
      refine hs t ret ?_
      rcases hk' with rfl | rfl
      · exact .inl hold
      · exact .inr hold
    exact hret.imp fun _ => List.mem_cons_of_mem _
  · rcases hk' with hk' | hk' <;> cases hk'
  · rcases hfs.decided hk' with ⟨call, rfl⟩ | rfl
    · exact ⟨call, List.mem_cons_self⟩
    · exact (hs t ret (.inl hold)).imp fun _ => List.mem_cons_of_mem _

/-! ## What is signalled -/

/-- What holds after the labels `h`. -/
structure Inv (h : List Label) (s : State) : Prop where
  excl : Excl s.childMtx s.holds
  run : RunInv (record h) s.childPid s.run
  fetch : FetchInv s
  ret : RetInv h s

theorem Inv.step {h : List Label} (hs : Inv h s) (hst : Step o sep s l s') : Inv (l :: h) s' where
  excl := excl_step hs.excl hst
  run := hs.run.step hst
  fetch := hs.fetch.step hs.excl hst
  ret := hs.ret.step hst

theorem inv_hist {h : List Label} (hs : (system o sep).Hist h s) : Inv h s := by
  refine hs.invariant (P := Inv) (fun s hi => ?_) fun h s l t _ hinv hst => hinv.step hst
  cases hi
  refine ⟨fun t => ?_, ⟨rfl, rfl⟩, fun t sig pid hfn => ?_, fun t ret hfn => ?_⟩
  · cases t <;> exact iff_of_false (by rintro ⟨⟩) Bool.false_ne_true
  · cases t <;> cases hfn
  · cases t <;> rcases hfn with hfn | hfn <;> cases hfn

/-- A thread that has read `child_pid` in `l_kill` keeps `run` from making it stale. -/
theorem Inv.phase_of_fetched {h : List Label} {sig pid : Int} (hs : Inv h s)
    (hfn : s.fn t = some (.killFetched sig pid)) : Phase (record h) pid := by
  rw [hs.fetch t sig pid hfn]
  refine hs.run.phase fun hpc => ?_
  have ht : s.holds t = true := State.holds_of_fn hfn
  have hrun : s.holds .run = true := by
    rw [State.holds, hpc]
    rfl
  cases hs.excl.unique ht hrun
  rw [State.fn, hpc] at hfn
  cases hfn

/-- The assertion of `utils_waitpid` holds. -/
theorem no_abort {h : List Label} (hs : (system o sep).Hist h s) (hst : Step o sep s l s') :
    l ≠ .thread .run .abort := by
  have hrun := (inv_hist hs).run
  rintro rfl
  cases hst with
  | waitLeftoverAbort hpc hpid =>
      rw [hpc] at hrun
      exact hpid hrun.pos
  | waitpidAbort hpc hpid =>
      rw [hpc] at hrun
      exact hpid (Running.pos hrun)
  | fn _ hfn => cases hfn

/-- What a call of `kill` does in its critical section, by what has happened before: the system
call, if it makes one, and what it returns. -/
structure KillCall (r : Record) (call : Option (Int × Int)) (ret : KillRet) : Prop where
  unpublished : r.published = [] → call = none ∧ ret = .notCreated
  running : r.published ≠ [] → r.waited = [] → ∃ pid sig, call = some (pid, sig)
  ended : r.published ≠ [] → r.waited ≠ [] → call = none ∧ ret = .failed esrch

/-- The system call is about the only process that was created, and nobody has waited for it. -/
structure Owned (r : Record) (pid : Int) : Prop where
  pos : 0 < pid
  spawned : r.spawned = [pid]
  waited : r.waited = []

section Decision

variable {sig pid : Int} {answer : Option Int} {call : Option (Int × Int)} {ret : KillRet}

/-- The decision, by the phase in which it is made. -/
theorem killDecision_killCall (h : killDecision pid sig answer = (call, ret))
    (hphase : Phase r pid) : KillCall r call ret := by
  cases hphase with
  | unpublished hu =>
      rw [hu.pid] at h
      cases h
      exact ⟨fun _ => ⟨rfl, rfl⟩, fun hp => absurd hu.published hp,
        fun hp => absurd hu.published hp⟩
  | running hr =>
      have hpub : r.published ≠ [] := by
        rw [hr.published]
        exact List.cons_ne_nil _ _
      simp only [killDecision, if_pos hr.pos] at h
      refine ⟨fun hp => absurd hp hpub, fun _ _ => ⟨pid, sig, ?_⟩, fun _ hw => absurd hr.waited hw⟩
      cases answer <;> cases h <;> rfl
  | ended ho =>
      rw [ho.pid] at h
      cases h
      exact ⟨fun hp => absurd hp ho.published, fun _ hw => absurd hw ho.waited,
        fun _ _ => ⟨rfl, rfl⟩⟩

/-- Only a positive pid is signalled, and it is the one that was read. -/
theorem killDecision_syscall {p n : Int} (h : killDecision pid sig answer = (some (p, n), ret)) :
    0 < pid ∧ p = pid := by
  unfold killDecision at h
  split at h
  · rename_i hpos
    refine ⟨hpos, ?_⟩
    cases answer <;> cases h <;> rfl
  · split at h <;> cases h

theorem killDecision_owned {p n : Int} (h : killDecision pid sig answer = (some (p, n), ret))
    (hphase : Phase r pid) : Owned r p := by
  obtain ⟨hpos, rfl⟩ := killDecision_syscall h
  cases hphase with
  | unpublished hu => exact absurd hpos (hu.pid ▸ Int.lt_irrefl 0)
  | running hr => exact ⟨hr.pos, hr.spawned, hr.waited⟩
  | ended ho =>
      rw [ho.pid] at hpos
      exact absurd hpos (by decide)

end Decision

variable {h : List Label}

/-- A decision is made at the place after the read. -/
theorem FnStep.decides {call : Option (Int × Int)} {ret : KillRet} {m : Option Thread}
    (hst : FnStep o t s k (.kill call ret) k' m) :
    ∃ sig pid answer, k = .killFetched sig pid ∧ killDecision pid sig answer = (call, ret) := by
  cases hst with
  | killDecide hd => exact ⟨_, _, _, rfl, hd⟩

theorem Step.decides {call : Option (Int × Int)} {ret : KillRet}
    (hst : Step o sep s (.thread t (.kill call ret)) s') :
    ∃ sig pid answer, s.fn t = some (.killFetched sig pid) ∧
      killDecision pid sig answer = (call, ret) := by
  cases hst with
  | fn hfn hst =>
      obtain ⟨sig, pid, answer, rfl, hd⟩ := hst.decides
      exact ⟨sig, pid, answer, hfn, hd⟩

theorem kill_killCall {call : Option (Int × Int)} {ret : KillRet} (hs : Inv h s)
    (hst : Step o sep s (.thread t (.kill call ret)) s') : KillCall (record h) call ret := by
  obtain ⟨sig, pid, answer, hfn, hd⟩ := hst.decides
  exact killDecision_killCall hd (hs.phase_of_fetched hfn)

/-- Both places of the source that call `kill`. -/
theorem syscall_owned {pid sig : Int} (hs : Inv h s) (hst : Step o sep s l s')
    (hl : l.syscall = some (pid, sig)) : Owned (record h) pid := by
  cases l with
  | child => cases hl
  | thread t a =>
      cases a with
      | kill call ret =>
          obtain rfl : call = some (pid, sig) := hl
          obtain ⟨n, p, answer, hfn, hd⟩ := hst.decides
          exact killDecision_owned hd (hs.phase_of_fetched hfn)
      | killLeftover p =>
          obtain ⟨rfl, -⟩ := Prod.mk.inj (Option.some.inj hl)
          have hrun := hs.run
          cases hst with
          | killLeftover hpc =>
              rw [hpc] at hrun
              exact ⟨hrun.pos, hrun.spawned, hrun.waited⟩
          | fn _ hfn => cases hfn
      | _ => cases hl

theorem killReturn_decided {ret : KillRet} (hs : Inv h s)
    (hst : Step o sep s (.thread t (.killReturn ret)) s') :
    ∃ call, .thread t (.kill call ret) ∈ h := by
  cases hst with
  | fn hfn hst =>
      cases hst with
      | killReturn => exact hs.ret t ret (.inr hfn)

/-- However the threads, the child and the failures of the system calls are interleaved: the
system call `kill` is made only with the pid of the process that was created and before it was
waited for, and a call from Lua throws before the process is published and fails after it was
waited for, without a system call. -/
theorem signals_owned (hs : (system o sep).Hist h s) (hst : Step o sep s l s') :
    (∀ pid sig, l.syscall = some (pid, sig) → Owned (record h) pid) ∧
    (∀ t call ret, l = .thread t (.kill call ret) → KillCall (record h) call ret) ∧
    ∀ t ret, l = .thread t (.killReturn ret) → ∃ call, .thread t (.kill call ret) ∈ h := by
  have hinv : Inv h s := inv_hist hs
  refine ⟨fun pid sig hl => syscall_owned hinv hst hl, ?_, ?_⟩
  · rintro t call ret rfl
    exact kill_killCall hinv hst
  · rintro t ret rfl
    exact killReturn_decided hinv hst

/-- What `launch` gives in the run below. -/
def spawnedResult : LaunchResult := ⟨4242, -1, 5⟩

/-- The event function is about to signal a child that was published. -/
def signallingState : State where
  child := .alive true
  childPid := 4242
  childStdinFd := -1
  childMtx := some .handler
  luaMtx := some .handler
  run := .reading
  handler := .event (.killFetched 15 4242)

def signallingHist : List Label :=
  [.thread .handler .other, .thread .handler .lock, .thread .handler .other,
    .thread .handler .other, .thread .run .unlock, .thread .run (.publish 4242),
    .thread .run .lock, .thread .run .other, .thread .run (.spawn 4242)]

theorem signallingState_hist : (system {} false).Hist signallingHist signallingState := by
  let M := system {} false
  have hvalid : LaunchResult.Valid {} spawnedResult := ⟨by decide, rfl, by decide⟩
  have hlaunch : M.Hist _ _ := .step (.init rfl) (.launch rfl hvalid)
  have hfdopen : M.Hist _ _ := .step hlaunch (.fdopen rfl)
  have hlock : M.Hist _ _ := .step hfdopen (.publishLock rfl rfl)
  have hpublish : M.Hist _ _ := .step hlock (.publish rfl)
  have hreading : M.Hist _ _ := .step hpublish (.publishUnlock rfl)
  have hevent : M.Hist _ _ := .step hreading (.eventBegin rfl rfl rfl)
  have hsig : fetchSigNum .noneOrNil = .ok 15 := rfl
  have hkill : M.Hist _ _ := .step hevent (.fn (t := .handler) rfl (.kill hsig))
  have hkillLock : M.Hist _ _ := .step hkill (.fn (t := .handler) rfl (.killLock rfl))
  exact .step hkillLock (.fn (t := .handler) rfl .killFetch)

theorem signals_owned_running :
    Owned (record signallingHist) 4242 ∧
      KillCall (record signallingHist) (some (4242, 15)) .killed := by
  have hd : killDecision 4242 15 none = (some (4242, 15), .killed) := rfl
  have hstep : Step {} false signallingState
      (.thread .handler (.kill (some (4242, 15)) .killed)) _ :=
    .fn rfl (.killDecide hd)
  obtain ⟨howned, hcall, -⟩ := signals_owned signallingState_hist hstep
  exact ⟨howned 4242 15 rfl, hcall _ _ _ rfl⟩

end Luastatus.Pipev2.Signals

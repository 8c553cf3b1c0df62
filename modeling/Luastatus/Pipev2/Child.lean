import Luastatus.Lib.Mutex
import Luastatus.Lib.Transition
import Luastatus.Pipev2.Lines

/-!
# The child process of the pipev2 plugin

Two threads use the record of the child process: the widget's thread, which executes `run` and
the callback, and the event watcher's thread, which executes the event function.  The pid and the
pipe to the child are guarded by `child_mtx`.  The functions `kill` and `write_to_stdin` may be
called from both threads.  The event function needs the widget's Lua lock, unless it lives in the
separate state.

A thread is cut where the other one can run in between: at each lock, at each unlock and around
each system call.  The child closes its standard output and exits when it wants to: a signal that
it receives is one of its reasons.

`do_wait` holds `child_mtx` while `waitpid` blocks.  If the child has not exited by then, nobody
can signal it any more: `kill` blocks on the mutex, and the mutex is held until the child exits
(`doWait_locks_kill_out`).  A child that closes its standard output and goes on running leads there
(`closed_stdout_locks_kill_out`).  In every run in which the child has exited whenever `do_wait`
takes the mutex, a live child can be signalled at any time (`kill_available`).
-/

namespace Luastatus.Pipev2

open Transition Mutex

/-! ## States -/

/-- The threads. -/
inductive Thread where
  | run
  | handler
deriving DecidableEq, Repr

/-- The process that `launch` creates. -/
inductive Child where
  | notSpawned
  | alive (stdoutOpen : Bool)
  /-- Terminated and not waited for. -/
  | exited
  | reaped
deriving DecidableEq, Repr

/-- `child_pid`. -/
inductive ChildPid where
  /-- `PID_NOT_SPAWNED_YET`. -/
  | notSpawnedYet
  /-- The pid of the process. -/
  | pid
  /-- `PID_ALREADY_TERMINATED`. -/
  | alreadyTerminated
deriving DecidableEq, Repr

/-- Where Lua code is with respect to the functions of the plugin. -/
inductive FnPc where
  /-- In neither of them. -/
  | lua
  | killLocking
  | killLocked
  /-- `kill` has read `child_pid`. -/
  | killFetched (p : ChildPid)
  | killDone
  | writeLocking
  | writeLocked
  /-- `write_to_stdin` has read `child_stdin_fd`; the flag says whether it is not negative. -/
  | writeFetched (fd : Bool)
  /-- In `utils_full_write`. -/
  | writing
deriving DecidableEq, Repr

/-- Why the callback is called. -/
inductive What where
  | hello
  | line
  | bye
deriving DecidableEq, Repr

/-- Where `run` is. -/
inductive RunPc where
  | start
  /-- In `do_spawn`, after `launch`. -/
  | launched
  /-- In `do_cleanup_leftover`, before `kill`. -/
  | leftover
  /-- In `do_cleanup_leftover`, before `utils_waitpid`. -/
  | leftoverWait
  /-- In `do_spawn`, before the lock. -/
  | spawned
  | publishing
  | published
  | reading
  /-- Before the Lua lock of a call. -/
  | call (w : What)
  /-- In the callback. -/
  | cb (w : What) (k : FnPc)
  /-- Before `do_wait`. -/
  | readEnded
  /-- In `do_wait`, before `utils_waitpid`. -/
  | waiting
  /-- In `do_wait`, after `utils_waitpid`. -/
  | waited
  /-- In `do_wait`, before the unlock. -/
  | cleared
  | pausing
  | returned
deriving DecidableEq, Repr

/-- Where the event watcher's thread is. -/
inductive HandlerPc where
  | idle
  /-- In the event function. -/
  | event (k : FnPc)
deriving DecidableEq, Repr

/-- A state of the plugin's instance and its child. -/
structure State where
  child : Child
  childPid : ChildPid
  /-- `child_stdin_fd` is not negative. -/
  stdinFd : Bool
  /-- The holder of `child_mtx`. -/
  childMtx : Option Thread
  /-- The holder of the widget's Lua lock. -/
  luaMtx : Option Thread
  run : RunPc
  handler : HandlerPc
deriving DecidableEq, Repr

/-- The child runs: it was spawned and has not exited. -/
def State.ChildRuns (s : State) : Prop := ∃ b, s.child = .alive b

/-- The place of a thread in the plugin's functions, if it executes Lua code. -/
def State.fn (s : State) : Thread → Option FnPc
  | .run => match s.run with
      | .cb _ k => some k
      | _ => none
  | .handler => match s.handler with
      | .event k => some k
      | _ => none

/-- Move a thread that executes Lua code to another place. -/
def State.setFn (s : State) (t : Thread) (k : FnPc) : State :=
  match t with
  | .run => match s.run with
      | .cb w _ => { s with run := .cb w k }
      | _ => s
  | .handler => { s with handler := .event k }

/-! ## Steps -/

/-- The result of `kill`. -/
inductive KillResult where
  /-- The system call is made. -/
  | syscall
  /-- "process has not been created yet" -/
  | notCreated
  /-- `false`, with the text of `ESRCH`. -/
  | noSuchProcess
deriving DecidableEq, Repr

/-- `l_kill` with the fetched pid. -/
def killResult : ChildPid → KillResult
  | .pid => .syscall
  | .notSpawnedYet => .notCreated
  | .alreadyTerminated => .noSuchProcess

/-- What a thread does in a step, as far as it matters. -/
inductive Act where
  | lock
  | unlock
  | kill (r : KillResult)
  /-- `kill(leftover.pid, SIGKILL)`. -/
  | killLeftover
  /-- `utils_waitpid` returns. -/
  | waitpid
  | other
deriving DecidableEq, Repr

/-- Who moves, and what it does. -/
inductive Label where
  | thread (t : Thread) (a : Act)
  | child
deriving DecidableEq, Repr

/-- The step of a thread `t` in `l_kill`, `l_write_to_stdin`, or from Lua code into one of them:
the place after it and the holder of `child_mtx` after it. -/
inductive FnStep (o : Options) (t : Thread) (s : State) :
    FnPc → Act → FnPc → Option Thread → Prop where
  | kill : FnStep o t s .lua .other .killLocking s.childMtx
  | killLock : s.childMtx = none → FnStep o t s .killLocking .lock .killLocked (some t)
  | killFetch : FnStep o t s .killLocked .other (.killFetched s.childPid) s.childMtx
  | killCall : FnStep o t s (.killFetched p) (.kill (killResult p)) .killDone s.childMtx
  | killUnlock : FnStep o t s .killDone .unlock .lua none
  /-- Without the option `pipe_stdin` an error is thrown before the lock. -/
  | write : o.pipeStdin = true → FnStep o t s .lua .other .writeLocking s.childMtx
  | writeLock : s.childMtx = none → FnStep o t s .writeLocking .lock .writeLocked (some t)
  | writeFetch : FnStep o t s .writeLocked .other (.writeFetched s.stdinFd) s.childMtx
  | writeUnlock : FnStep o t s (.writeFetched fd) .unlock (if fd then .writing else .lua) none
  | writeEnd : FnStep o t s .writing .other .lua s.childMtx

/-- Where `run` goes after a call. -/
def afterCall : What → RunPc
  | .hello => .reading
  | .line => .reading
  | .bye => .pausing

/-- The steps; `sep` says that the event function lives in the separate state. -/
inductive Step (o : Options) (sep : Bool) : State → Label → State → Prop where
  /-- `launch` creates the process. -/
  | launch : s.run = .start → Step o sep s (.thread .run .other)
      { s with run := .launched, child := .alive true }
  | launchFail : s.run = .start → Step o sep s (.thread .run .other) { s with run := .returned }
  | fdopen : s.run = .launched → Step o sep s (.thread .run .other) { s with run := .spawned }
  | fdopenFail : s.run = .launched → Step o sep s (.thread .run .other)
      { s with run := .leftover }
  | killLeftover : s.run = .leftover → Step o sep s (.thread .run .killLeftover)
      { s with run := .leftoverWait }
  | waitLeftover : s.run = .leftoverWait → s.child = .exited →
      Step o sep s (.thread .run .waitpid) { s with run := .returned, child := .reaped }
  | publishLock : s.run = .spawned → s.childMtx = none → Step o sep s (.thread .run .lock)
      { s with run := .publishing, childMtx := some .run }
  | publish : s.run = .publishing → Step o sep s (.thread .run .other)
      { s with run := .published, childPid := .pid, stdinFd := o.pipeStdin }
  | publishUnlock : s.run = .published → Step o sep s (.thread .run .unlock)
      { s with run := if o.greet then .call .hello else .reading, childMtx := none }
  /-- `getdelim` returns a chunk. -/
  | readLine : s.run = .reading → Step o sep s (.thread .run .other)
      { s with run := .call .line }
  /-- `getdelim` finds the end of the stream: the child has closed it or is gone. -/
  | readEof : s.run = .reading → s.child ≠ .alive true → Step o sep s (.thread .run .other)
      { s with run := .readEnded }
  | readError : s.run = .reading → Step o sep s (.thread .run .other) { s with run := .readEnded }
  | callBegin : s.run = .call w → s.luaMtx = none → Step o sep s (.thread .run .other)
      { s with run := .cb w .lua, luaMtx := some .run }
  | callEnd : s.run = .cb w .lua → Step o sep s (.thread .run .other)
      { s with run := afterCall w, luaMtx := none }
  | waitLock : s.run = .readEnded → s.childMtx = none → Step o sep s (.thread .run .lock)
      { s with run := .waiting, childMtx := some .run }
  | waitpid : s.run = .waiting → s.child = .exited → Step o sep s (.thread .run .waitpid)
      { s with run := .waited, child := .reaped }
  | waitClear : s.run = .waited → Step o sep s (.thread .run .other)
      { s with run := .cleared, childPid := .alreadyTerminated }
  | waitUnlock : s.run = .cleared → Step o sep s (.thread .run .unlock)
      { s with run := if o.bye then .call .bye else .returned, childMtx := none }
  | eventBegin : s.handler = .idle → sep = false → s.luaMtx = none →
      Step o sep s (.thread .handler .other)
        { s with handler := .event .lua, luaMtx := some .handler }
  | eventEnd : s.handler = .event .lua → sep = false → Step o sep s (.thread .handler .other)
      { s with handler := .idle, luaMtx := none }
  | sepEventBegin : s.handler = .idle → sep = true → Step o sep s (.thread .handler .other)
      { s with handler := .event .lua }
  | sepEventEnd : s.handler = .event .lua → sep = true → Step o sep s (.thread .handler .other)
      { s with handler := .idle }
  | fn : s.fn t = some k → FnStep o t s k a k' m → Step o sep s (.thread t a)
      { s.setFn t k' with childMtx := m }
  | closeStdout : s.child = .alive true → Step o sep s .child { s with child := .alive false }
  | exit : s.child = .alive b → Step o sep s .child { s with child := .exited }

/-- The state before `run` is called. -/
def initState : State where
  child := .notSpawned
  childPid := .notSpawnedYet
  stdinFd := false
  childMtx := none
  luaMtx := none
  run := .start
  handler := .idle

/-- The plugin's instance and its child, as a system. -/
def system (o : Options) (sep : Bool) : System State Label where
  init s := s = initState
  step := Step o sep

/-! ## Availability of the child -/

/-- The steps of a thread. -/
def Label.IsOf (t : Thread) (l : Label) : Prop := ∃ a, l = .thread t a

/-- A thread has no step. -/
def Blocked (o : Options) (sep : Bool) (s : State) (t : Thread) : Prop :=
  ∀ a s', ¬ Step o sep s (.thread t a) s'

/-- By steps of its own the thread comes to a state in which `child_mtx` is free. -/
def CanRelease (o : Options) (sep : Bool) (t : Thread) (s : State) : Prop :=
  ∃ s', (system o sep).Moves (Label.IsOf t) s s' ∧ s'.childMtx = none

/-- `child_mtx` is free, or its holder can release it by steps of its own. -/
def MtxAvailable (o : Options) (sep : Bool) (s : State) : Prop :=
  s.childMtx = none ∨ ∃ t, s.childMtx = some t ∧ CanRelease o sep t s

/-- The event function waits in `kill` for the mutex, and neither thread can move. -/
def Hung (o : Options) (sep : Bool) (s : State) : Prop :=
  s.handler = .event .killLocking ∧ Blocked o sep s .handler ∧ Blocked o sep s .run

/-- A running child can be signalled. -/
structure KillAvailable (o : Options) (sep : Bool) (s : State) : Prop where
  mtx : MtxAvailable o sep s
  not_hung : ¬ Hung o sep s

/-! ## Who holds the mutex -/

/-- The places at which `child_mtx` is held. -/
def FnPc.holds : FnPc → Bool
  | .killLocked | .killFetched _ | .killDone | .writeLocked | .writeFetched _ => true
  | .lua | .killLocking | .writeLocking | .writing => false

/-- The places at which `run` holds `child_mtx`. -/
def RunPc.holds : RunPc → Bool
  | .publishing | .published | .waiting | .waited | .cleared => true
  | .cb _ k => k.holds
  | _ => false

/-- The places at which the event watcher's thread holds `child_mtx`. -/
def HandlerPc.holds : HandlerPc → Bool
  | .idle => false
  | .event k => k.holds

/-- By its place, the thread holds `child_mtx`. -/
def State.holds (s : State) : Thread → Bool
  | .run => s.run.holds
  | .handler => s.handler.holds

/-- The mutex is held by the thread that is in a critical section. -/
def MtxInv (s : State) : Prop := ∀ t, s.childMtx = some t ↔ s.holds t = true

theorem State.holds_of_fn {s : State} {t : Thread} {k : FnPc} (h : s.fn t = some k) :
    s.holds t = k.holds := by
  cases t with
  | run =>
      cases hr : s.run <;> simp only [fn, hr] at h <;> cases h
      simp only [holds, hr, RunPc.holds]
  | handler =>
      cases hr : s.handler <;> simp only [fn, hr] at h <;> cases h
      simp only [holds, hr, HandlerPc.holds]

theorem State.fn_setFn {s : State} {t : Thread} {k : FnPc} (h : s.fn t = some k) (k' : FnPc)
    (m : Option Thread) : State.fn { s.setFn t k' with childMtx := m } t = some k' := by
  cases t with
  | run =>
      cases hr : s.run <;> simp only [fn, hr] at h <;> cases h
      simp [fn, setFn, hr]
  | handler => simp [fn, setFn]

theorem State.holds_setFn_of_ne {s : State} {t u : Thread} (h : u ≠ t) (k' : FnPc)
    (m : Option Thread) : State.holds { s.setFn t k' with childMtx := m } u = s.holds u := by
  cases t with
  | run =>
      cases u with
      | run => exact absurd rfl h
      | handler => cases hr : s.run <;> simp [holds, setFn, hr]
  | handler =>
      cases u with
      | run => simp [holds, setFn]
      | handler => exact absurd rfl h

theorem State.child_setFn (s : State) (t : Thread) (k : FnPc) :
    (s.setFn t k).child = s.child := by
  cases t with
  | run => cases hr : s.run <;> simp [setFn, hr]
  | handler => rfl

/-- A step in one of the functions is a move of its thread. -/
theorem FnStep.move {o : Options} {t : Thread} {s : State} {k k' : FnPc} {a : Act}
    {m : Option Thread} (h : FnStep o t s k a k' m) :
    Move t s.childMtx k.holds m k'.holds := by
  cases h with
  | killLock hfree | writeLock hfree =>
      rw [hfree]
      exact .lock
  | killUnlock => exact .unlock
  | @writeUnlock fd => cases fd <;> exact .unlock
  | kill | killFetch | killCall | write _ | writeFetch | writeEnd => exact .keep

/-- A step of `run` outside of the functions. -/
theorem MtxInv.run_move {s t : State} (hs : MtxInv s)
    (hmove : Move .run s.childMtx s.run.holds t.childMtx t.run.holds)
    (hh : t.handler = s.handler) : MtxInv t := by
  refine Excl.move (t := .run) hs hmove fun u hu => ?_
  cases u with
  | run => exact absurd rfl hu
  | handler => rw [State.holds, State.holds, hh]

theorem MtxInv.step {o : Options} {sep : Bool} {s t : State} {l : Label} (hs : MtxInv s)
    (h : Step o sep s l t) : MtxInv t := by
  have hkeep {t : State} (hm : t.childMtx = s.childMtx) (hr : t.run.holds = s.run.holds)
      (hh : t.handler = s.handler) : MtxInv t := by
    refine hs.run_move ?_ hh
    rw [hm, hr]
    exact .keep
  cases h with
  | launch hpc | fdopen hpc | fdopenFail hpc | launchFail hpc | killLeftover hpc | publish hpc
  | readLine hpc | readError hpc | waitClear hpc | waitLeftover hpc _ | readEof hpc _
  | callBegin hpc _ | waitpid hpc _ =>
      exact hkeep rfl (by rw [hpc]; rfl) rfl
  | @callEnd _ w hpc => exact hkeep rfl (by rw [hpc]; cases w <;> rfl) rfl
  | publishLock hpc hfree | waitLock hpc hfree =>
      refine hs.run_move ?_ rfl
      rw [hfree]
      exact .lock
  | publishUnlock hpc =>
      refine hs.run_move ?_ rfl
      rw [hpc]
      cases o.greet <;> exact .unlock
  | waitUnlock hpc =>
      refine hs.run_move ?_ rfl
      rw [hpc]
      cases o.bye <;> exact .unlock
  | eventBegin hpc _ _ | eventEnd hpc _ | sepEventBegin hpc _ | sepEventEnd hpc _ =>
      refine Excl.congr hs rfl fun u => ?_
      cases u with
      | run => rfl
      | handler =>
          rw [State.holds, State.holds, hpc]
          rfl
  | @fn k u _ a k' m hfn hst =>
      refine Excl.move (t := u) hs ?_ fun v hv => State.holds_setFn_of_ne hv k' m
      rw [State.holds_of_fn hfn, State.holds_of_fn (State.fn_setFn hfn k' m)]
      exact hst.move
  | closeStdout _ | exit _ => exact hkeep rfl rfl rfl

theorem mtxInv_reachable {o : Options} {sep : Bool} {s : State}
    (hs : (system o sep).Reachable s) : MtxInv s := by
  refine hs.invariant (fun s hi => ?_) fun s l t ih h => ih.step h
  cases hi
  intro t
  cases t <;> simp [initState, State.holds, RunPc.holds, HandlerPc.holds]

/-! ## Releasing the mutex -/

variable {o : Options} {sep : Bool}

theorem CanRelease.of_free {t : Thread} {s : State} (h : s.childMtx = none) :
    CanRelease o sep t s :=
  ⟨s, .refl, h⟩

theorem CanRelease.of_step {t : Thread} {a : Act} {s s' : State}
    (h : Step o sep s (.thread t a) s') (hr : CanRelease o sep t s') : CanRelease o sep t s := by
  obtain ⟨u, hmoves, hu⟩ := hr
  exact ⟨u, .head ⟨_, ⟨a, rfl⟩, h⟩ hmoves, hu⟩

/-- Neither function does anything in its critical section that can block. -/
theorem canRelease_of_fn {s : State} {t : Thread} {k : FnPc} (h : s.fn t = some k)
    (hk : k.holds = true) : CanRelease o sep t s := by
  have hdone {s : State} (h : s.fn t = some .killDone) : CanRelease o sep t s :=
    .of_step (.fn h .killUnlock) (.of_free rfl)
  have hkill {s : State} {p : ChildPid} (h : s.fn t = some (.killFetched p)) :
      CanRelease o sep t s :=
    .of_step (.fn h .killCall) (hdone (State.fn_setFn h _ _))
  have hwrite {s : State} {fd : Bool} (h : s.fn t = some (.writeFetched fd)) :
      CanRelease o sep t s :=
    .of_step (.fn h .writeUnlock) (.of_free rfl)
  cases k with
  | lua | killLocking | writeLocking | writing => cases hk
  | killLocked => exact .of_step (.fn h .killFetch) (hkill (State.fn_setFn h _ _))
  | killFetched p => exact hkill h
  | killDone => exact hdone h
  | writeLocked => exact .of_step (.fn h .writeFetch) (hwrite (State.fn_setFn h _ _))
  | writeFetched fd => exact hwrite h

/-- The only place at which `run` holds the mutex and needs the child to let it go is
`utils_waitpid`. -/
theorem canRelease_run {s : State} (hholds : s.run.holds = true)
    (hwait : s.run = .waiting → s.child = .exited) : CanRelease o sep .run s := by
  have hcleared {s : State} (h : s.run = .cleared) : CanRelease o sep .run s :=
    .of_step (.waitUnlock h) (.of_free rfl)
  have hwaited {s : State} (h : s.run = .waited) : CanRelease o sep .run s :=
    .of_step (.waitClear h) (hcleared rfl)
  have hpublished {s : State} (h : s.run = .published) : CanRelease o sep .run s :=
    .of_step (.publishUnlock h) (.of_free rfl)
  cases hpc : s.run with
  | publishing => exact .of_step (.publish hpc) (hpublished rfl)
  | published => exact hpublished hpc
  | waiting => exact .of_step (.waitpid hpc (hwait hpc)) (hwaited rfl)
  | waited => exact hwaited hpc
  | cleared => exact hcleared hpc
  | cb w k =>
      rw [hpc] at hholds
      exact canRelease_of_fn (k := k) (by simp [State.fn, hpc]) hholds
  | start | launched | leftover | leftoverWait | spawned | reading | call w | readEnded | pausing
  | returned =>
      rw [hpc] at hholds
      cases hholds

theorem canRelease_handler {s : State} (hholds : s.handler.holds = true) :
    CanRelease o sep .handler s := by
  cases hpc : s.handler with
  | idle =>
      rw [hpc] at hholds
      cases hholds
  | event k =>
      rw [hpc] at hholds
      exact canRelease_of_fn (k := k) (by simp [State.fn, hpc]) hholds

/-- A thread whose steps lead out of its critical section is not blocked in it. -/
theorem CanRelease.not_blocked {t : Thread} {s : State} (h : CanRelease o sep t s)
    (hm : s.childMtx ≠ none) : ¬ Blocked o sep s t := by
  intro hb
  obtain ⟨s', hmoves, hfree⟩ := h
  cases Relation.ReflTransGen.cases_head hmoves with
  | inl he => exact hm (he ▸ hfree)
  | inr hstep =>
      obtain ⟨u, ⟨_, ⟨a, rfl⟩, hst⟩, _⟩ := hstep
      exact hb a u hst

/-! ## Runs in which the child has exited before it is waited for -/

/-- `do_wait` locks the mutex only when the child has exited. -/
def WaitsForExited (s : State) (l : Label) : Prop :=
  l = .thread .run .lock → s.run = .readEnded → s.child = .exited

/-- While `run` is in `utils_waitpid` of `do_wait`, the child has exited. -/
def WaitInv (s : State) : Prop := s.run = .waiting → s.child = .exited

theorem State.run_setFn_ne_waiting {s : State} {t : Thread} {k : FnPc}
    (h : (s.setFn t k).run = .waiting) : s.run = .waiting := by
  cases t with
  | run => cases hr : s.run <;> simp [setFn, hr] at h ⊢
  | handler => exact h

theorem WaitInv.step {s t : State} {l : Label} (hs : WaitInv s) (hl : WaitsForExited s l)
    (h : Step o sep s l t) : WaitInv t := by
  intro ht
  cases h with
  | waitLock hpc _ => exact hl rfl hpc
  | fn hfn _ => exact (s.child_setFn _ _).trans (hs (State.run_setFn_ne_waiting ht))
  | eventBegin | eventEnd | sepEventBegin | sepEventEnd => exact hs ht
  | closeStdout hc =>
      rw [hs ht] at hc
      cases hc
  | exit _ => rfl
  | publishUnlock _ => cases hg : o.greet <;> simp [hg] at ht
  | waitUnlock _ => cases hb : o.bye <;> simp [hb] at ht
  | @callEnd _ w _ => cases w <;> simp [afterCall] at ht
  | _ => cases ht

theorem waitInv_reachable {s : State}
    (hs : ((system o sep).guard WaitsForExited).Reachable s) : WaitInv s := by
  refine hs.invariant (fun s hi => ?_) fun s l t ih h => ih.step h.1 h.2
  cases hi
  intro ht
  cases ht

/-- In a run in which the child has exited whenever `do_wait` takes the mutex, the child can be
signalled in every state, as long as it runs and after. -/
theorem kill_available {s : State} (hs : ((system o sep).guard WaitsForExited).Reachable s) :
    KillAvailable o sep s := by
  have hinv : MtxInv s := mtxInv_reachable hs.of_guard
  have hwait : WaitInv s := waitInv_reachable hs
  have hrelease : ∀ t, s.childMtx = some t → CanRelease o sep t s := by
    intro t ht
    have hholds := (hinv t).mp ht
    cases t with
    | run => exact canRelease_run hholds hwait
    | handler => exact canRelease_handler hholds
  refine ⟨?_, ?_⟩
  · cases hm : s.childMtx with
    | none => exact .inl hm
    | some t => exact .inr ⟨t, hm, hrelease t hm⟩
  · rintro ⟨hpc, hbh, hbr⟩
    have hfn : s.fn .handler = some .killLocking := by simp [State.fn, hpc]
    cases hm : s.childMtx with
    | none => exact hbh _ _ (.fn hfn (.killLock hm))
    | some t =>
        have hne : s.childMtx ≠ none := by simp [hm]
        cases t with
        | run => exact (hrelease .run hm).not_blocked hne hbr
        | handler => exact (hrelease .handler hm).not_blocked hne hbh

/-- The child runs and `run` reads what it writes. -/
def readingState : State where
  child := .alive true
  childPid := .pid
  stdinFd := false
  childMtx := none
  luaMtx := none
  run := .reading
  handler := .idle

/-- `do_wait` is not near while the child is launched. -/
theorem readingState_reachable :
    ((system {} false).guard WaitsForExited).Reachable readingState := by
  let M := (system {} false).guard WaitsForExited
  have hinit : M.Reachable initState := .init rfl
  have hlaunch : M.Reachable _ := .step hinit ⟨fun h _ => (by cases h), .launch rfl⟩
  have hfdopen : M.Reachable _ := .step hlaunch ⟨fun h _ => (by cases h), .fdopen rfl⟩
  have hlock : M.Reachable _ := .step hfdopen ⟨fun _ h => (by cases h), .publishLock rfl rfl⟩
  have hpublish : M.Reachable _ := .step hlock ⟨fun h _ => (by cases h), .publish rfl⟩
  exact .step hpublish ⟨fun h _ => (by cases h), .publishUnlock rfl⟩

theorem kill_available_reading : readingState.ChildRuns ∧ KillAvailable {} false readingState :=
  ⟨⟨true, rfl⟩, kill_available readingState_reachable⟩

/-! ## Waiting for a child that runs -/

/-- `run` has no step while it waits for a child that runs. -/
theorem blocked_waiting {s : State} (hpc : s.run = .waiting) (hc : s.ChildRuns) :
    Blocked o sep s .run := by
  obtain ⟨b, hb⟩ := hc
  intro a s' h
  cases h with
  | waitpid _ hexit =>
      rw [hb] at hexit
      cases hexit
  | fn hfn _ => simp [State.fn, hpc] at hfn
  | _ => simp_all

/-- Whenever `do_wait` takes the mutex while the child runs, `kill` is locked out until the child
exits. -/
theorem doWait_locks_kill_out {s t : State} (h : Step o sep s (.thread .run .lock) t)
    (hpc : s.run = .readEnded) (hc : s.ChildRuns) : t.ChildRuns ∧ ¬ MtxAvailable o sep t := by
  cases h with
  | publishLock hpc' _ =>
      rw [hpc] at hpc'
      cases hpc'
  | fn hfn _ => simp [State.fn, hpc] at hfn
  | waitLock _ _ =>
      refine ⟨hc, ?_⟩
      rintro (hfree | ⟨u, hu, hrelease⟩)
      · cases hfree
      · cases hu
        exact hrelease.not_blocked (by simp) (blocked_waiting rfl hc)

/-- The child has closed its standard output and runs, `run` waits for it to exit, and the event
function waits in `kill`. -/
def hungState : State where
  child := .alive false
  childPid := .pid
  stdinFd := false
  childMtx := some .run
  luaMtx := some .handler
  run := .waiting
  handler := .event .killLocking

theorem hungState_reachable : (system {} false).Reachable hungState := by
  let M := system {} false
  have hclose : M.Reachable _ := .step readingState_reachable.of_guard (.closeStdout rfl)
  have heof : M.Reachable _ := .step hclose (.readEof rfl (by simp))
  have hwait : M.Reachable _ := .step heof (.waitLock rfl rfl)
  have hevent : M.Reachable _ := .step hwait (.eventBegin rfl rfl rfl)
  have hfn : { hungState with handler := .event .lua }.fn .handler = some .lua := rfl
  exact .step hevent (.fn hfn .kill)

/-- A child that closes its standard output and goes on running until it is signalled is never
signalled. -/
theorem closed_stdout_locks_kill_out :
    (system {} false).Reachable hungState ∧ hungState.ChildRuns ∧ Hung {} false hungState ∧
      ¬ ∀ o sep s, (system o sep).Reachable s → s.ChildRuns → KillAvailable o sep s := by
  have hruns : hungState.ChildRuns := ⟨false, rfl⟩
  have hung : Hung {} false hungState := by
    refine ⟨rfl, ?_, blocked_waiting rfl hruns⟩
    intro a s' h
    cases h with
    | fn hfn hst =>
        cases hfn
        cases hst with
        | killLock hm => cases hm
    | eventBegin hpc | eventEnd hpc | sepEventBegin hpc | sepEventEnd hpc => cases hpc
  refine ⟨hungState_reachable, hruns, hung, fun h => ?_⟩
  exact (h {} false hungState hungState_reachable hruns).not_hung hung

end Luastatus.Pipev2

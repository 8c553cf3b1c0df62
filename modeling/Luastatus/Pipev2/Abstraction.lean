import Luastatus.Pipev2.Signals

/-!
# The two models of the child process

The model of the signals has the pids, the descriptors and the results of the source; the model of
the child process keeps of them whether the pid is a process, whether the descriptor is one, and
whether the system call is made.  `State.abs` forgets the rest.

Every step of the first model is a step of the second one, or changes nothing there: an argument
that `kill` refuses, and the return from `kill` after the unlock (`Step.abs`).  The exception is a
`waitpid` that fails, which the second model leaves out.  So the child can be signalled in the runs
of the first model, too, under the condition that `kill_available` has (`abs_reachable`).
-/

namespace Luastatus.Pipev2.Signals

open Transition Mutex

/-! ## What is kept -/

/-- What `child_pid` is. -/
def childPidOf (pid : Int) : ChildPid :=
  if 0 < pid then .pid
  else if pid = pidNotSpawnedYet then .notSpawnedYet
  else .alreadyTerminated

def FnPc.abs : FnPc → Pipev2.FnPc
  | .lua => .lua
  | .killLocking _ => .killLocking
  | .killLocked _ => .killLocked
  | .killFetched _ pid => .killFetched (childPidOf pid)
  | .killDone _ => .killDone
  | .killReturning _ => .lua
  | .writeLocking => .writeLocking
  | .writeLocked => .writeLocked
  | .writeFetched fd => .writeFetched (decide (0 ≤ fd))
  | .writing => .writing

def RunPc.abs : RunPc → Pipev2.RunPc
  | .start => .start
  | .launched _ => .launched
  | .leftover _ => .leftover
  | .leftoverWait _ => .leftoverWait
  | .spawned _ => .spawned
  | .publishing _ => .publishing
  | .published => .published
  | .reading => .reading
  | .call w => .call w
  | .cb w k => .cb w k.abs
  | .readEnded => .readEnded
  | .waiting => .waiting
  | .waited => .waited
  | .cleared => .cleared
  | .pausing => .pausing
  | .returned => .returned

def HandlerPc.abs : HandlerPc → Pipev2.HandlerPc
  | .idle => .idle
  | .event k => .event k.abs

def State.abs (s : State) : Pipev2.State where
  child := s.child
  childPid := childPidOf s.childPid
  stdinFd := decide (0 ≤ s.childStdinFd)
  childMtx := s.childMtx
  luaMtx := s.luaMtx
  run := s.run.abs
  handler := s.handler.abs

def killResultOf : Option (Int × Int) → KillRet → KillResult
  | some _, _ => .syscall
  | none, .notCreated => .notCreated
  | none, _ => .noSuchProcess

/-- The step of the other model, if there is one. -/
def Act.abs : Act → Option Pipev2.Act
  | .lock => some .lock
  | .unlock => some .unlock
  | .spawn _ => some .other
  | .publish _ => some .other
  | .kill call ret => some (.kill (killResultOf call ret))
  | .killReturn _ => none
  | .badArg _ => none
  | .killLeftover _ => some .killLeftover
  | .waitpid _ _ => some .waitpid
  | .abort => none
  | .other => some .other

def Label.abs : Label → Option Pipev2.Label
  | .thread t a => a.abs.map (.thread t)
  | .child => some .child

/-- The label is not that of a `waitpid` that fails. -/
def Label.WaitOk (l : Label) : Prop := ∀ t pid, l ≠ .thread t (.waitpid pid false)

variable {o : Options} {sep : Bool} {s s' : State} {l : Label} {t : Thread} {k k' : FnPc}

/-! ## Steps of the functions -/

/-- The decision in `l_kill` depends on what `child_pid` is. -/
theorem killResult_childPidOf {pid sig : Int} {answer : Option Int} {call : Option (Int × Int)}
    {ret : KillRet} (h : killDecision pid sig answer = (call, ret)) :
    killResult (childPidOf pid) = killResultOf call ret := by
  unfold killDecision at h
  unfold childPidOf
  by_cases hpos : 0 < pid
  · rw [if_pos hpos] at h ⊢
    cases answer <;> cases h <;> rfl
  · rw [if_neg hpos] at h ⊢
    by_cases hz : pid = pidNotSpawnedYet
    · rw [if_pos hz] at h ⊢
      cases h
      rfl
    · rw [if_neg hz] at h ⊢
      cases h
      rfl

theorem State.abs_fn (h : s.fn t = some k) : s.abs.fn t = some k.abs := by
  cases t with
  | run =>
      cases hr : s.run <;> simp only [fn, hr] at h <;> cases h
      simp [Pipev2.State.fn, abs, RunPc.abs, hr]
  | handler =>
      cases hr : s.handler <;> simp only [fn, hr] at h <;> cases h
      simp [Pipev2.State.fn, abs, HandlerPc.abs, hr]

theorem State.abs_setFn (h : s.fn t = some k) (k' : FnPc) (m : Option Thread) :
    State.abs { s.setFn t k' with childMtx := m } =
      { s.abs.setFn t k'.abs with childMtx := m } := by
  cases t with
  | run =>
      cases hr : s.run <;> simp only [fn, hr] at h <;> cases h
      simp [Pipev2.State.setFn, setFn, abs, RunPc.abs, hr]
  | handler => rfl

/-- A thread that stays where it is. -/
theorem setFn_self {s : Pipev2.State} {k : Pipev2.FnPc} (h : s.fn t = some k) :
    { s.setFn t k with childMtx := s.childMtx } = s := by
  obtain ⟨child, childPid, stdinFd, childMtx, luaMtx, run, handler⟩ := s
  cases t with
  | run =>
      cases run <;> simp only [Pipev2.State.fn] at h <;> cases h
      rfl
  | handler =>
      cases handler <;> simp only [Pipev2.State.fn] at h <;> cases h
      rfl

/-- What a step in one of the functions is in the other model. -/
def FnStepAbs (o : Options) (t : Thread) (s : State) (k : FnPc) (a : Act) (k' : FnPc)
    (m : Option Thread) : Prop :=
  match a.abs with
  | none => k'.abs = k.abs ∧ m = s.childMtx
  | some b => Pipev2.FnStep o t s.abs k.abs b k'.abs m

theorem FnStep.abs {a : Act} {m : Option Thread} (h : FnStep o t s k a k' m) :
    FnStepAbs o t s k a k' m := by
  cases h with
  | killBadArg _ => exact ⟨rfl, rfl⟩
  | kill _ => exact .kill
  | killLock hfree => exact .killLock hfree
  | killFetch => exact .killFetch
  | killDecide hd =>
      show Pipev2.FnStep o t s.abs _ (.kill (killResultOf _ _)) _ _
      rw [← killResult_childPidOf hd]
      exact .killCall
  | killUnlock => exact .killUnlock
  | killReturn => exact ⟨rfl, rfl⟩
  | write hp => exact .write hp
  | writeLock hfree => exact .writeLock hfree
  | writeFetch => exact .writeFetch
  | @writeUnlock fd =>
      have hplace : (if fd < 0 then FnPc.lua else .writing).abs =
          if decide (0 ≤ fd) then .writing else .lua := by
        by_cases hneg : fd < 0
        · rw [if_pos hneg, if_neg (by simpa using hneg)]
          rfl
        · rw [if_neg hneg, if_pos (by simpa using hneg)]
          rfl
      show Pipev2.FnStep o t s.abs _ .unlock (FnPc.abs _) none
      rw [hplace]
      exact .writeUnlock
  | writeEnd => exact .writeEnd

/-! ## Steps of the plugin -/

/-- What `launch` gave, while `run` has it. -/
def RunPc.launchResult? : RunPc → Option LaunchResult
  | .launched res | .leftover res | .leftoverWait res | .spawned res | .publishing res => some res
  | _ => none

/-- What `launch` gave is valid. -/
def ResultInv (o : Options) (s : State) : Prop :=
  ∀ res, s.run.launchResult? = some res → res.Valid o

theorem ResultInv.step (hs : ResultInv o s) (h : Step o sep s l s') : ResultInv o s' := by
  intro res hres
  cases h with
  | launch hpc hvalid =>
      cases hres
      exact hvalid
  | fdopen hpc | fdopenFail hpc | killLeftover hpc | publishLock hpc _ =>
      cases hres
      exact hs _ (congrArg RunPc.launchResult? hpc)
  | @fn k t _ a k' m hfn hst =>
      cases t with
      | run =>
          cases hpc : s.run <;> simp only [State.fn, hpc] at hfn <;> cases hfn
          simp only [State.setFn, hpc] at hres
          cases hres
      | handler => exact hs res hres
  | @callEnd _ w _ => cases w <;> cases hres
  | publishUnlock _ => cases hg : o.greet <;> simp [RunPc.launchResult?, hg] at hres
  | waitUnlock _ => cases hb : o.bye <;> simp [RunPc.launchResult?, hb] at hres
  | waitLeftoverAbort _ _ | waitpidAbort _ _ | eventBegin _ _ _ | eventEnd _ _
  | sepEventBegin _ _ | sepEventEnd _ _ | closeStdout _ | exit _ => exact hs res hres
  | _ => cases hres

theorem resultInv_reachable (hs : (system o sep).Reachable s) : ResultInv o s := by
  refine hs.invariant (fun s hi => ?_) fun s l t ih h => ih.step h
  cases hi
  intro res hres
  cases hres

/-- A step of the plugin is a step of the other model, or changes nothing there. -/
theorem Step.abs (hs : ResultInv o s) (h : Step o sep s l s') (hl : l.WaitOk) :
    (Pipev2.system o sep).stepOption s.abs l.abs s'.abs := by
  have hrun {pc : RunPc} (hpc : s.run = pc) : s.abs.run = pc.abs := congrArg RunPc.abs hpc
  have hhandler {pc : HandlerPc} (hpc : s.handler = pc) : s.abs.handler = pc.abs :=
    congrArg HandlerPc.abs hpc
  cases h with
  | launch hpc _ => exact .launch (hrun hpc)
  | launchFail hpc => exact .launchFail (hrun hpc)
  | fdopen hpc => exact .fdopen (hrun hpc)
  | fdopenFail hpc => exact .fdopenFail (hrun hpc)
  | killLeftover hpc => exact .killLeftover (hrun hpc)
  | waitLeftover hpc _ hexit => exact .waitLeftover (hrun hpc) hexit
  | waitLeftoverFail _ _ => exact absurd rfl (hl _ _)
  | waitLeftoverAbort _ _ => exact rfl
  | publishLock hpc hfree => exact .publishLock (hrun hpc) hfree
  | @publish _ res hpc =>
      have hvalid : res.Valid o := hs res (congrArg RunPc.launchResult? hpc)
      have hpid : childPidOf res.pid = .pid := if_pos hvalid.pid
      have hfd : decide (0 ≤ res.fdStdin) = o.pipeStdin := by
        have hfd := hvalid.fdStdin
        cases hp : o.pipeStdin with
        | true =>
            rw [hp] at hfd
            exact decide_eq_true hfd
        | false =>
            rw [hp] at hfd
            rw [show res.fdStdin = -1 from hfd]
            rfl
      show Pipev2.Step o sep s.abs _ { s.abs with
        run := .published, childPid := childPidOf res.pid, stdinFd := decide (0 ≤ res.fdStdin) }
      rw [hpid, hfd]
      exact .publish (hrun hpc)
  | publishUnlock hpc =>
      have hplace : (if o.greet then RunPc.call .hello else .reading).abs =
          if o.greet then .call .hello else .reading := by
        cases o.greet <;> rfl
      show Pipev2.Step o sep s.abs _ { s.abs with run := RunPc.abs _, childMtx := none }
      rw [hplace]
      exact .publishUnlock (hrun hpc)
  | readLine hpc => exact .readLine (hrun hpc)
  | readEof hpc hchild => exact .readEof (hrun hpc) hchild
  | readError hpc => exact .readError (hrun hpc)
  | callBegin hpc hfree => exact .callBegin (hrun hpc) hfree
  | @callEnd _ w hpc =>
      have hplace : (afterCall w).abs = Pipev2.afterCall w := by
        cases w <;> rfl
      show Pipev2.Step o sep s.abs _ { s.abs with run := RunPc.abs _, luaMtx := none }
      rw [hplace]
      exact .callEnd (hrun hpc)
  | waitLock hpc hfree => exact .waitLock (hrun hpc) hfree
  | waitpid hpc _ hexit => exact .waitpid (hrun hpc) hexit
  | waitpidFail _ _ => exact absurd rfl (hl _ _)
  | waitpidAbort _ _ => exact rfl
  | waitClear hpc => exact .waitClear (hrun hpc)
  | waitUnlock hpc =>
      have hplace : (if o.bye then RunPc.call .bye else .returned).abs =
          if o.bye then .call .bye else .returned := by
        cases o.bye <;> rfl
      show Pipev2.Step o sep s.abs _ { s.abs with run := RunPc.abs _, childMtx := none }
      rw [hplace]
      exact .waitUnlock (hrun hpc)
  | eventBegin hpc hsep hfree => exact .eventBegin (hhandler hpc) hsep hfree
  | eventEnd hpc hsep => exact .eventEnd (hhandler hpc) hsep
  | sepEventBegin hpc hsep => exact .sepEventBegin (hhandler hpc) hsep
  | sepEventEnd hpc hsep => exact .sepEventEnd (hhandler hpc) hsep
  | @fn k u _ a k' m hfn hst =>
      have hfn' : s.abs.fn u = some k.abs := State.abs_fn hfn
      have habs : FnStepAbs o u s k a k' m := hst.abs
      rw [State.abs_setFn hfn k' m, Label.abs]
      unfold FnStepAbs at habs
      cases ha : a.abs with
      | none =>
          rw [ha] at habs
          obtain ⟨hk, rfl⟩ := habs
          rw [hk]
          exact setFn_self hfn'
      | some b =>
          rw [ha] at habs
          exact .fn hfn' habs
  | closeStdout hchild => exact .closeStdout hchild
  | exit hchild => exact .exit hchild

/-- A condition on the runs of the other model. -/
def AbsMeets (C : Pipev2.State → Pipev2.Label → Prop) (s : State) (l : Label) : Prop :=
  ∀ b, l.abs = some b → C s.abs b

/-- A run in which no `waitpid` fails is a run of the other model, and its steps meet a condition
there if they do so here. -/
theorem abs_reachable {C : Pipev2.State → Pipev2.Label → Prop}
    (hs : ((system o sep).guard fun s l => l.WaitOk ∧ AbsMeets C s l).Reachable s) :
    ((Pipev2.system o sep).guard C).Reachable s.abs := by
  refine hs.map (f := State.abs) (g := Label.abs) ?_ ?_
  · intro s hi
    cases hi
    rfl
  · intro s l t hreach hst
    obtain ⟨⟨hl, hC⟩, hst⟩ := hst
    have habs := hst.abs (resultInv_reachable hreach.of_guard) hl
    cases hlabel : l.abs with
    | none =>
        rw [hlabel] at habs
        exact habs
    | some b =>
        rw [hlabel] at habs
        exact ⟨hC b hlabel, habs⟩

/-- If moreover the child has exited whenever `do_wait` takes the mutex, a running child can be
signalled. -/
theorem abs_kill_available
    (hs : ((system o sep).guard fun s l => l.WaitOk ∧ AbsMeets WaitsForExited s l).Reachable s) :
    KillAvailable o sep s.abs :=
  kill_available (abs_reachable hs)

end Luastatus.Pipev2.Signals

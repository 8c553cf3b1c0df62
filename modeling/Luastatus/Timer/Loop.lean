import Luastatus.Lib.Transition
import Luastatus.LibLs.EvloopLfuncs

/-!
# The timer plugin

The plugin calls its widget once at the beginning, and then each time the period is over, somebody
has touched the FIFO, or the widget has been woken up.  The threads that may push a period or wake
the widget up are not synchronised with its loop except by the lock of the pushed period and by the
pipe: they may do so between any two steps, and so may the widget itself, in its call.

`Protocol` says what the history of a run is.  Every call has exactly one reason; a pushed period is
used for the next wait that begins; and no wake-up is lost, not even one for which the pipe has no
room.
-/

namespace Luastatus.Timer

open Luastatus.LibLs
open Lua
open Transition

/-- The argument of a call. -/
inductive What where
  | hello
  | timeout
  | fifo
  | selfPipe
deriving DecidableEq, Repr

/-- What `init` stores in `Priv`. -/
structure Priv (F : Type) where
  period : F
  /-- There is a path of a FIFO. -/
  fifo : Bool
  /-- The self-pipe has been opened. -/
  selfPipe : Bool
deriving DecidableEq, Repr

/-- What `ls_poll` answers. -/
inductive Polled where
  | failed
  | timedOut
  /-- Which members of `pfds` have `revents`. -/
  | ready (fifo selfPipe : Bool)
deriving DecidableEq, Repr

/-- Where `run` is. -/
inductive Pc (F : Type) where
  /-- In front of `make_call`. -/
  | calling (what : What)
  /-- In `make_call`, after `call_begin`. -/
  | inCall (what : What)
  /-- In front of `ls_fifo_device_open`. -/
  | opening
  | fetching
  | polling (TD : TimeDelta F)
  | finished
deriving DecidableEq, Repr

/-- The thread of the widget, and what it shares with the others. -/
structure State (F : Type) where
  pc : Pc F
  dev : FifoDevice
  pushedTmo : PushedTimeout F
  /-- The number of bytes in the self-pipe, if there is one. -/
  selfPipe : Option Nat
deriving DecidableEq, Repr

/-- What happens. -/
inductive Label (F : Type) where
  /-- Some thread calls `push_period`. -/
  | pushPeriod (args : List (CallArg F))
  /-- Some thread calls `wake_up`. -/
  | wakeUp (r : WakeUp)
  | callBegin (what : What)
  | callEnd (what : What)
  /-- `ls_fifo_device_open`; whether `ls_open_fifo` succeeds if it is called. -/
  | openFifo (opened : Bool)
  | fetch (TD : TimeDelta F)
  | poll (TD : TimeDelta F) (r : Polled)

variable {F : Type} (O : DoubleOps F) (C : Coercions F) (room : Nat) (p : Priv F)

/-- `default_tmo`; `init` has checked the period. -/
def defaultTmo : TimeDelta F := lsDoubleToTD O p.period (lsTDForever O)

/-- A self-pipe with something to read in it. -/
def State.readable (s : State F) : Bool := s.selfPipe.any (0 < ·)

/-- What `poll` may answer.  It does not wait if there is something to read, and it waits forever if
the timeout is negative. -/
def Polled.Possible (s : State F) (TD : TimeDelta F) : Polled → Prop
  | failed => True
  | timedOut => lsTDToPollMsTmo O TD ≠ -1 ∧ s.readable = false
  | ready fifo selfPipe =>
      (fifo || selfPipe) = true ∧ (fifo = true → s.dev.isOpen = true) ∧ selfPipe = s.readable

/-- The loop, behind the call of `ls_poll`. -/
def afterPoll (s : State F) : Polled → State F
  | .failed => { s with pc := .finished, dev := lsFifoDeviceNew }
  | .timedOut => { s with pc := .calling .timeout }
  | .ready true _ => { s with pc := .calling .fifo }
  | .ready false true =>
      { s with pc := .calling .selfPipe, selfPipe := s.selfPipe.map (· - 1) }
  | .ready false false => { s with pc := .opening }

/-- The loop, behind `make_call`. -/
def afterCall (s : State F) (what : What) : State F :=
  { s with pc := .opening, dev := if what = .fifo then lsFifoDeviceNew else s.dev }

/-- A step of some thread. -/
inductive Step : State F → Label F → State F → Prop where
  | pushPeriod {s : State F} {args : List (CallArg F)} {q : PushedTimeout F}
      (h : lsPushedTimeoutLfunc O C args = .ok q) :
      Step s (.pushPeriod args) { s with pushedTmo := q }
  /-- An error is thrown. -/
  | notPushed {s : State F} {args : List (CallArg F)} {e : LuaError}
      (h : lsPushedTimeoutLfunc O C args = .error e) : Step s (.pushPeriod args) s
  | wakeUp {s : State F} :
      Step s (.wakeUp (lsSelfPipeLfunc room s.selfPipe).1)
        { s with selfPipe := (lsSelfPipeLfunc room s.selfPipe).2 }
  | callBegin {s : State F} {what : What} (h : s.pc = .calling what) :
      Step s (.callBegin what) { s with pc := .inCall what }
  | callEnd {s : State F} {what : What} (h : s.pc = .inCall what) :
      Step s (.callEnd what) (afterCall s what)
  | openFifo {s : State F} (h : s.pc = .opening) (opened : Bool) :
      Step s (.openFifo opened)
        { s with pc := .fetching, dev := lsFifoDeviceOpen s.dev p.fifo opened }
  | fetch {s : State F} (h : s.pc = .fetching) :
      Step s (.fetch (lsPushedTimeoutFetch O s.pushedTmo (defaultTmo O p)).1)
        { s with pc := .polling (lsPushedTimeoutFetch O s.pushedTmo (defaultTmo O p)).1
                 pushedTmo := (lsPushedTimeoutFetch O s.pushedTmo (defaultTmo O p)).2 }
  | poll {s : State F} {TD : TimeDelta F} {r : Polled} (h : s.pc = .polling TD)
      (hr : r.Possible O s TD) : Step s (.poll TD r) (afterPoll s r)

/-- The state in which `run` begins. -/
def initState : State F where
  pc := .calling .hello
  dev := lsFifoDeviceNew
  pushedTmo := lsPushedTimeoutInit O
  selfPipe := if p.selfPipe then some 0 else none

/-- The plugin and the threads around it. -/
def system : System (State F) (Label F) where
  init s := s = initState O p
  step := Step O C room p

/-! ## What a history says -/

/-- A call that has begun. -/
def Label.begun : Label F → Option What
  | callBegin what => some what
  | _ => none

/-- The reason for a call. -/
def Label.reason : Label F → Option What
  | poll _ .timedOut => some .timeout
  | poll _ (.ready true _) => some .fifo
  | poll _ (.ready false true) => some .selfPipe
  | _ => none

/-- A time delta that has been fetched. -/
def Label.fetched : Label F → Option (TimeDelta F)
  | fetch TD => some TD
  | _ => none

/-- A time delta for which the plugin has waited. -/
def Label.waited : Label F → Option (TimeDelta F)
  | poll TD _ => some TD
  | _ => none

/-- What a step does to the pushed period. -/
def Label.timeoutEvent : Label F → Option (Timeouts.Event F)
  | pushPeriod args =>
      match lsPushedTimeoutLfunc O C args with
      | .ok q => some (.push q.value)
      | .error _ => none
  | fetch TD => some (.fetch TD)
  | _ => none

/-- The number of bytes that have been written to the self-pipe. -/
def wakeUps (h : List (Label F)) : Nat :=
  h.countP fun | .wakeUp .written => true | _ => false

/-- The number of bytes that have been read from it. -/
def answered (h : List (Label F)) : Nat := (h.filterMap Label.reason).count .selfPipe

/-- The call that is to begin. -/
def Pc.due : Pc F → List What
  | calling what => [what]
  | _ => []

/-- The wait that is to begin. -/
def Pc.ahead : Pc F → List (TimeDelta F)
  | polling TD => [TD]
  | _ => []

/-- What holds of every run with the labels `h`, newest first, that ends in the state `s`. -/
structure Protocol (h : List (Label F)) (s : State F) : Prop where
  /-- The first call is "hello", and each other call has one reason, in this order. -/
  calls : s.pc.due ++ h.filterMap Label.begun = h.filterMap Label.reason ++ [.hello]
  /-- The plugin waits once for each time delta that it fetches. -/
  waits : s.pc.ahead ++ h.filterMap Label.waited = h.filterMap Label.fetched
  /-- Each of them is the period that has been pushed last since the one before, or the default. -/
  periods : Timeouts.Right O (defaultTmo O p) (h.filterMap (Label.timeoutEvent O C))
  /-- There is a call for each byte in the self-pipe, or the byte is still there. -/
  wakeUps : wakeUps h = answered h + s.selfPipe.getD 0
  /-- If the pipe is full, then there is an earlier wake-up whose call is still to come. -/
  full : ∀ h₁ h₂, h = h₁ ++ .wakeUp .full :: h₂ → answered h₂ < Timer.wakeUps h₂
  /-- A wait is over only if it was not to last forever and there is nothing to wake up for. -/
  timedOut : ∀ h₁ h₂ TD, h = h₁ ++ .poll TD .timedOut :: h₂ →
    lsTDToPollMsTmo O TD ≠ -1 ∧ answered h₂ = Timer.wakeUps h₂
  /-- A call for the FIFO is one with the FIFO open. -/
  fifo : s.pc = .calling .fifo ∨ s.pc = .inCall .fifo → s.dev.isOpen = true

/-! ## The invariant -/

section Steps

variable {O C room p} {s s' : State F} {l : Label F}

/-- A step begins a call that is due, or it is the reason for one. -/
theorem Step.due (h : Step O C room p s l s') :
    s'.pc.due ++ l.begun.toList = l.reason.toList ++ s.pc.due := by
  cases h with
  | pushPeriod | notPushed | wakeUp => simp [Label.begun, Label.reason]
  | callBegin h => simp [Label.begun, Label.reason, h, Pc.due]
  | callEnd h => simp [Label.begun, Label.reason, h, Pc.due, afterCall]
  | openFifo h | fetch h => simp [Label.begun, Label.reason, h, Pc.due]
  | @poll _ r h hr =>
      rw [h]
      match r with
      | .failed | .timedOut | .ready true _ | .ready false true | .ready false false => rfl

/-- A step fetches a time delta, or it is the wait for one. -/
theorem Step.ahead (h : Step O C room p s l s') :
    s'.pc.ahead ++ l.waited.toList = l.fetched.toList ++ s.pc.ahead := by
  cases h with
  | pushPeriod | notPushed | wakeUp => simp [Label.waited, Label.fetched]
  | callBegin h | openFifo h => simp [Label.waited, Label.fetched, h, Pc.ahead]
  | callEnd h => simp [Label.waited, Label.fetched, h, Pc.ahead, afterCall]
  | fetch h => simp [Label.waited, Label.fetched, h, Pc.ahead]
  | @poll _ r h hr =>
      rw [h]
      match r with
      | .failed | .timedOut | .ready true _ | .ready false true | .ready false false => rfl

/-- The bytes in the self-pipe, before and after a step. -/
theorem Step.bytes (h : Step O C room p s l s') :
    s'.selfPipe.getD 0 + answered [l] = s.selfPipe.getD 0 + wakeUps [l] := by
  cases h with
  | pushPeriod | notPushed | callBegin | callEnd | openFifo | fetch => rfl
  | wakeUp =>
      cases hpipe : s.selfPipe with
      | none => rfl
      | some n =>
          by_cases hn : n < room
          · simp only [lsSelfPipeLfunc, if_pos hn]
            rfl
          · simp only [lsSelfPipeLfunc, if_neg hn]
            rfl
  | @poll _ r _ hr =>
      cases r with
      | failed | timedOut => rfl
      | ready fifo selfPipe =>
          cases fifo with
          | true => rfl
          | false =>
              cases selfPipe with
              | false => rfl
              | true =>
                  obtain ⟨-, -, hread⟩ := hr
                  cases hpipe : s.selfPipe with
                  | none =>
                      rw [State.readable, hpipe] at hread
                      cases hread
                  | some n =>
                      have hpos : 0 < n := by simpa [State.readable, hpipe] using hread
                      simp [afterPoll, hpipe, answered, wakeUps, Label.reason]
                      omega

theorem answered_cons {h : List (Label F)} : answered (l :: h) = answered [l] + answered h := by
  simp only [answered, List.filterMap_cons, List.filterMap_nil]
  cases l.reason with
  | none => simp
  | some what => simp [List.count_cons, Nat.add_comm]

theorem wakeUps_cons {h : List (Label F)} : wakeUps (l :: h) = wakeUps [l] + wakeUps h := by
  rw [wakeUps, wakeUps, wakeUps, List.countP_cons, List.countP_cons, List.countP_nil]
  omega

/-- What a step does to the pushed period. -/
theorem Step.timeouts (hO : O.Lawful) (h : Step O C room p s l s') {es : List (Timeouts.Event F)}
    (hi : Timeouts.Inv O (defaultTmo O p) es s.pushedTmo) :
    Timeouts.Inv O (defaultTmo O p) ((l.timeoutEvent O C).toList ++ es) s'.pushedTmo := by
  cases h with
  | wakeUp | callBegin | callEnd | openFifo => exact hi
  | pushPeriod hq =>
      simp only [Label.timeoutEvent, hq]
      exact hi.push hq
  | notPushed he =>
      simp only [Label.timeoutEvent, he]
      exact hi
  | fetch => exact hi.fetch hO
  | @poll _ r _ _ =>
      match r with
      | .failed | .timedOut | .ready true _ | .ready false true | .ready false false => exact hi

/-- A call for the FIFO is one with the FIFO open. -/
def State.FifoOpen (s : State F) : Prop :=
  s.pc = .calling .fifo ∨ s.pc = .inCall .fifo → s.dev.isOpen = true

theorem Step.fifoOpen (h : Step O C room p s l s') (hi : s.FifoOpen) : s'.FifoOpen := by
  cases h with
  | pushPeriod | notPushed | wakeUp => exact hi
  | callBegin h =>
      intro hpc
      cases hpc with
      | inl hpc => cases hpc
      | inr hpc =>
          cases hpc
          exact hi (.inl h)
  | callEnd | openFifo | fetch =>
      intro hpc
      rcases hpc with hpc | hpc <;> cases hpc
  | @poll _ r _ hr =>
      intro hpc
      match r with
      | .ready true _ => exact hr.2.1 rfl
      | .failed | .timedOut | .ready false true | .ready false false =>
          rcases hpc with hpc | hpc <;> cases hpc

end Steps

section Runs

variable {O C room p} {s : State F} {h : List (Label F)}

theorem wakeUps_eq (hs : (system O C room p).Hist h s) :
    wakeUps h = answered h + s.selfPipe.getD 0 := by
  induction hs with
  | init hi =>
      rw [show _ = _ from hi]
      cases hp : p.selfPipe <;> simp [initState, wakeUps, answered, hp]
  | step _ hst ih =>
      have hbytes := Step.bytes hst
      rw [answered_cons, wakeUps_cons]
      omega

theorem full_answered (hroom : 0 < room) {h₁ h₂ : List (Label F)}
    (hs : (system O C room p).Hist (h₁ ++ .wakeUp .full :: h₂) s) : answered h₂ < wakeUps h₂ := by
  obtain ⟨t, u, ht, hst⟩ := hs.step_of_append
  have hbytes := wakeUps_eq ht
  generalize hl : Label.wakeUp WakeUp.full = l at hst
  cases hst with
  | wakeUp =>
      injection hl with hfull
      cases hpipe : t.selfPipe with
      | none =>
          rw [hpipe] at hfull
          cases hfull
      | some n =>
          rw [hpipe, lsSelfPipeLfunc] at hfull
          split at hfull
          · cases hfull
          · rw [hpipe, Option.getD_some] at hbytes
            omega
  | _ => cases hl

theorem timedOut_answered {h₁ h₂ : List (Label F)} {TD : TimeDelta F}
    (hs : (system O C room p).Hist (h₁ ++ .poll TD .timedOut :: h₂) s) :
    lsTDToPollMsTmo O TD ≠ -1 ∧ answered h₂ = wakeUps h₂ := by
  obtain ⟨t, u, ht, hst⟩ := hs.step_of_append
  have hbytes := wakeUps_eq ht
  cases hst with
  | poll _ hr =>
      refine ⟨hr.1, ?_⟩
      have hread := hr.2
      cases hpipe : t.selfPipe with
      | none => simp_all
      | some n =>
          have hn : n = 0 := by simpa [State.readable, hpipe] using hread
          rw [hpipe, hn] at hbytes
          exact hbytes.symm

theorem timeouts_inv (hO : O.Lawful) (hs : (system O C room p).Hist h s) :
    Timeouts.Inv O (defaultTmo O p) (h.filterMap (Label.timeoutEvent O C)) s.pushedTmo := by
  refine hs.invariant_shown (P := fun ts s => Timeouts.Inv O (defaultTmo O p) ts s.pushedTmo)
    (fun s hi => ?_) fun s l t ts hi hst => Step.timeouts hO hst hi
  rw [show _ = _ from hi]
  exact Timeouts.inv_init

theorem due_begun (hs : (system O C room p).Hist h s) :
    s.pc.due ++ h.filterMap Label.begun = h.filterMap Label.reason ++ [.hello] := by
  refine hs.conserve (fun s => s.pc.due) (fun s hi => ?_) fun s l t hst => Step.due hst
  rw [show _ = _ from hi]
  rfl

theorem ahead_waited (hs : (system O C room p).Hist h s) :
    s.pc.ahead ++ h.filterMap Label.waited = h.filterMap Label.fetched := by
  rw [← List.append_nil (h.filterMap Label.fetched)]
  refine hs.conserve (fun s => s.pc.ahead) (fun s hi => ?_) fun s l t hst => Step.ahead hst
  rw [show _ = _ from hi]
  rfl

theorem fifoOpen (hs : (system O C room p).Hist h s) : s.FifoOpen := by
  induction hs with
  | init hi =>
      rw [show _ = _ from hi]
      intro hpc
      rcases hpc with hpc | hpc <;> cases hpc
  | step _ hst ih => exact Step.fifoOpen hst ih

/-- The protocol of the plugin, in every run.  The pipe has room for at least one byte. -/
theorem protocol (hO : O.Lawful) (hroom : 0 < room) (hs : (system O C room p).Hist h s) :
    Protocol O C p h s where
  calls := due_begun hs
  waits := ahead_waited hs
  periods := (timeouts_inv hO hs).right
  wakeUps := wakeUps_eq hs
  full _ _ he := full_answered hroom (he ▸ hs)
  timedOut _ _ _ he := timedOut_answered (he ▸ hs)
  fifo := fifoOpen hs

end Runs

/-- A period is pushed in the first call, and the widget is woken up before the period begins. -/
def wokenUp : List (Label Int) :=
  [.poll ⟨5⟩ (.ready false true), .fetch ⟨5⟩, .openFifo false, .wakeUp .written, .callEnd .hello,
    .pushPeriod [.number 5], .callBegin .hello]

theorem protocol_wokenUp :
    let C : Coercions Int := { toString := fun _ => [], ofString := fun _ => none }
    ∃ s, s.pc = .calling .selfPipe ∧ Protocol wholeDoubles C ⟨1, false, true⟩ wokenUp s := by
  intro C
  let p : Priv Int := ⟨1, false, true⟩
  have h0 : (system wholeDoubles C 1 p).Hist [] (initState wholeDoubles p) := .init rfl
  have h1 := h0.step (.callBegin rfl)
  have hpush : lsPushedTimeoutLfunc wholeDoubles C [.number 5] = .ok ⟨5⟩ := rfl
  have h2 := h1.step (.pushPeriod hpush)
  have h3 := h2.step (.callEnd rfl)
  have h4 := h3.step .wakeUp
  have h5 := h4.step (.openFifo rfl false)
  have h6 := h5.step (.fetch rfl)
  have h7 := h6.step (.poll (r := .ready false true) rfl ⟨rfl, fun h => (by cases h), rfl⟩)
  exact ⟨_, rfl, protocol wholeDoubles_lawful Nat.one_pos h7⟩

end Luastatus.Timer

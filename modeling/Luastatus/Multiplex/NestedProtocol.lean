import Luastatus.Multiplex.Nested

/-!
# The protocol of the nested widgets

The Lua state of a nested widget is entered by its own thread and by the outer code that calls
`call_event`.  While its mutex is free, the stack holds the error handler and nothing else; while a
party is in a cycle on it, the stack has the shape that the place of the party calls for.
`CellInv` says this for one nested widget, and one lemma per kind of move says that it survives.

`nested_protocol` is the statement for every run: no assertion fails, each party runs the function
it means to run, and what goes into the queue is what `cb` has returned.
-/

namespace Luastatus.Multiplex.Nested

open Fallible (bind_eq_ok)
open Text (Bytes)
open Lua
open Transition
open Luastatus.Core (LRef)

/-! ## Cycles -/

/-- The thread of a nested widget holds the mutex. -/
def RunnerPc.inCycle : RunnerPc → Bool
  | .absent | .idle | .exiting | .done => false
  | _ => true

/-- What the stack looks like in a cycle of the thread of a nested widget. -/
def RunnerPc.Shape : RunnerPc → LuaStack → Prop
  | .opened k, st => st = List.replicate k .data ++ [.cb, .errorHandler]
  | .running f, st => f = .cb ∧ st = [.errorHandler]
  | .returned (some v), st => st = [.result v, .errorHandler]
  | .reported, st => ∃ st', st = st' ++ [.errorHandler]
  | _, st => st = [.errorHandler]

/-- The outer code holds the mutex. -/
def EventPc.inCycle : EventPc → Bool
  | .waiting => false
  | _ => true

/-- What the stack looks like in a cycle of the outer code. -/
def EventPc.Shape (r : LRef) (d : Bytes) : EventPc → LuaStack → Prop
  | .opened, st => st = [.string d, eventSlot r, .errorHandler]
  | .running f arg, st => f = .event ∧ arg = .string d ∧ r = .func ∧ st = [.errorHandler]
  | _, st => st = [.errorHandler]

/-- A call of the event function: its data and where it is. -/
abbrev EventCall := Bytes × EventPc

/-- Which parties hold the mutex by their places. -/
def holds (pc : RunnerPc) (ev : Option EventCall) : Party → Bool
  | .runner => pc.inCycle
  | .outer => ev.any fun x => x.2.inCycle

/-- The invariant of a nested widget with the event function `r`, with the outer code at `ev`. -/
structure CellInv (r : LRef) (ev : Option EventCall) (c : Cell) : Prop where
  noFailure : c.assertFailed = false
  excl : Mutex.Excl c.mtx (holds c.pc ev)
  free : c.mtx = none → c.stack = [.errorHandler]
  shape : c.pc.inCycle = true → c.pc.Shape c.stack
  evShape : ∀ d e, ev = some (d, e) → e.inCycle = true → e.Shape r d c.stack

variable {r : LRef} {ev ev' : Option EventCall} {c c' : Cell} {d : Bytes} {e e' : EventPc}

theorem CellInv.initial (r : LRef) : CellInv r none .initial where
  noFailure := rfl
  excl p := by cases p <;> simp [Cell.initial, holds, RunnerPc.inCycle]
  free _ := rfl
  shape h := by cases h
  evShape _ _ h := by cases h

@[simp] theorem setTop1_append (st : LuaStack) (x : Slot) : setTop1 (st ++ [x]) = [x] := by
  simp [setTop1]

@[simp] theorem check_assertFailed (c : Cell) (b : Bool) :
    (c.check b).assertFailed = (c.assertFailed || !b) := rfl

/-! ## Moves of the thread of a nested widget -/

section Runner

/-- While the thread is in a cycle, the outer code is not. -/
theorem CellInv.outer_out (h : CellInv r ev c) (hin : c.pc.inCycle = true) :
    holds c.pc ev .outer = false := by
  cases ho : holds c.pc ev .outer with
  | false => rfl
  | true =>
      have hrunner : holds c.pc ev .runner = true := hin
      cases h.excl.unique hrunner ho

/-- The part of the invariant that the outer code has, when the thread moves. -/
theorem CellInv.evShape_of_out (hout : holds c.pc ev .outer = false) (c' : Cell) (d : Bytes)
    (e : EventPc) (hev : ev = some (d, e)) (he : e.inCycle = true) : e.Shape r d c'.stack := by
  subst hev
  exact absurd (he.symm.trans hout) (by decide)

/-- A move inside a cycle. -/
theorem CellInv.runner_inside (h : CellInv r ev c) (hin : c.pc.inCycle = true)
    (hin' : c'.pc.inCycle = true) (hmtx : c'.mtx = c.mtx) (hshape : c'.pc.Shape c'.stack)
    (hok : c'.assertFailed = false) : CellInv r ev c' where
  noFailure := hok
  excl := h.excl.congr hmtx fun p => by
    cases p with
    | runner => exact hin'.trans hin.symm
    | outer => rfl
  free hm := by
    have hheld : c.mtx = some .runner := (h.excl .runner).mpr hin
    cases (hmtx.symm.trans hm).symm.trans hheld
  shape _ := hshape
  evShape := CellInv.evShape_of_out (h.outer_out hin) c'

/-- A move outside of any cycle. -/
theorem CellInv.runner_outside (h : CellInv r ev c) (hout : c.pc.inCycle = false) {pc : RunnerPc}
    (hout' : pc.inCycle = false) : CellInv r ev (c.pcAt pc) where
  noFailure := h.noFailure
  excl := h.excl.congr rfl fun p => by
    cases p with
    | runner => exact hout'.trans hout.symm
    | outer => rfl
  free := h.free
  shape hin := by cases hout'.symm.trans hin
  evShape := h.evShape

theorem CellInv.shape_at (h : CellInv r ev c) {pc : RunnerPc} (hpc : c.pc = pc)
    (hin : pc.inCycle = true) : pc.Shape c.stack := by
  subst hpc
  exact h.shape hin

/-- A move that takes the mutex. -/
theorem CellInv.runner_enter (h : CellInv r ev c) (hfree : c.mtx = none) {pc : RunnerPc}
    (hin' : pc.inCycle = true) (hshape : pc.Shape [.errorHandler]) :
    CellInv r ev ((c.lock .runner).pcAt pc) where
  noFailure := h.noFailure
  excl := by
    have hout : holds c.pc ev .runner = false := by
      cases ho : holds c.pc ev .runner with
      | false => rfl
      | true => cases hfree.symm.trans ((h.excl .runner).mpr ho)
    refine h.excl.move (t := .runner) ?_ fun p hp => ?_
    · rw [hfree, hout, show holds ((c.lock .runner).pcAt pc).pc ev .runner = true from hin']
      exact .lock
    · cases p with
      | runner => exact absurd rfl hp
      | outer => rfl
  free hm := by cases hm
  shape _ := by
    show pc.Shape c.stack
    rw [h.free hfree]
    exact hshape
  evShape d e hev he := by
    have hheld : c.mtx = some .outer := (h.excl .outer).mpr (by rw [hev]; exact he)
    cases hfree.symm.trans hheld

/-- A move that gives the mutex up. -/
theorem CellInv.runner_leave (h : CellInv r ev c) (hin : c.pc.inCycle = true)
    (hs : c.stack = [.errorHandler]) {pc : RunnerPc} (hout' : pc.inCycle = false) :
    CellInv r ev (c.unlock.pcAt pc) where
  noFailure := h.noFailure
  excl := by
    have hheld : c.mtx = some .runner := (h.excl .runner).mpr hin
    refine h.excl.move (t := .runner) ?_ fun p hp => ?_
    · rw [hheld, show holds c.pc ev .runner = true from hin,
        show holds (c.unlock.pcAt pc).pc ev .runner = false from hout']
      exact .unlock
    · cases p with
      | runner => exact absurd rfl hp
      | outer => rfl
  free _ := hs
  shape hin' := by cases hout'.symm.trans hin'
  evShape := CellInv.evShape_of_out (h.outer_out hin) c

/-- A move of the thread keeps the invariant. -/
theorem CellInv.runner_move {o : Option Outcome} (h : CellInv r ev c) (hmove : RunnerMove c o c') :
    CellInv r ev c' := by
  cases hmove with
  | callBegin hpc hfree => exact h.runner_enter hfree rfl rfl
  | callBegun hpc =>
      have hs : c.stack = [.errorHandler] := h.shape_at hpc rfl
      refine h.runner_inside (by rw [hpc]; rfl) rfl rfl ?_ ?_
      · show _ :: c.stack = _
        rw [hs]
        rfl
      · show (c.assertFailed || _) = false
        rw [h.noFailure, hs]
        rfl
  | @callPush k hpc =>
      have hs : c.stack = List.replicate k .data ++ [.cb, .errorHandler] := h.shape_at hpc rfl
      refine h.runner_inside (by rw [hpc]; rfl) rfl rfl ?_ h.noFailure
      show _ :: c.stack = _
      rw [hs]
      rfl
  | @callPop k hpc =>
      have hs : c.stack = List.replicate (k + 1) .data ++ [.cb, .errorHandler] :=
        h.shape_at hpc rfl
      refine h.runner_inside (by rw [hpc]; rfl) rfl rfl ?_ h.noFailure
      show c.stack.drop 1 = _
      rw [hs]
      rfl
  | @callCancel k hpc =>
      have hs : c.stack = List.replicate k .data ++ [.cb, .errorHandler] := h.shape_at hpc rfl
      refine h.runner_inside (by rw [hpc]; rfl) rfl rfl ?_ h.noFailure
      show setTop1 c.stack = _
      rw [hs, show [Slot.cb, .errorHandler] = [.cb] ++ [.errorHandler] from rfl,
        ← List.append_assoc]
      exact setTop1_append _ _
  | @callEnd arg f rest hpc hst =>
      have hs : c.stack = [.data, .cb, .errorHandler] := h.shape_at hpc rfl
      cases hst.symm.trans hs
      refine h.runner_inside (by rw [hpc]; rfl) rfl rfl ⟨rfl, rfl⟩ ?_
      show (c.assertFailed || _) = false
      rw [h.noFailure, hs]
      rfl
  | @callOk f v hpc =>
      obtain ⟨-, hs⟩ : f = .cb ∧ c.stack = [.errorHandler] := h.shape_at hpc rfl
      refine h.runner_inside (by rw [hpc]; rfl) rfl rfl ?_ h.noFailure
      show _ :: c.stack = _
      rw [hs]
  | @callFail f hpc =>
      obtain ⟨-, hs⟩ : f = .cb ∧ c.stack = [.errorHandler] := h.shape_at hpc rfl
      exact h.runner_inside (by rw [hpc]; rfl) rfl rfl hs h.noFailure
  | @newData v x rest hpc hst =>
      have hs : c.stack = [.result v, .errorHandler] := h.shape_at hpc rfl
      exact h.runner_inside (by rw [hpc]; rfl) rfl rfl ⟨[.result v], hs⟩ h.noFailure
  | luaError hpc =>
      have hs : c.stack = [.errorHandler] := h.shape_at hpc rfl
      exact h.runner_inside (by rw [hpc]; rfl) rfl rfl ⟨[], hs⟩ h.noFailure
  | callSettle hpc =>
      obtain ⟨st, hs⟩ : ∃ st, c.stack = st ++ [Slot.errorHandler] := h.shape_at hpc rfl
      refine h.runner_inside (by rw [hpc]; rfl) rfl rfl ?_ h.noFailure
      show setTop1 c.stack = _
      rw [hs]
      exact setTop1_append _ _
  | callUnlock hpc => exact h.runner_leave (by rw [hpc]; rfl) (h.shape_at hpc rfl) rfl
  | runReturns hpc => exact h.runner_outside (by rw [hpc]; rfl) rfl
  | pluginExited hpc => exact h.runner_outside (by rw [hpc]; rfl) rfl

/-- What a thread reports as new data is what `cb` has returned. -/
theorem CellInv.newData_eq {v : CbValue} (h : CellInv r ev c)
    (hmove : RunnerMove c (some (.newData v)) c') : c.pc = .returned (some v) := by
  generalize ho : some (Outcome.newData v) = o at hmove
  cases hmove with
  | @newData w x rest hpc hst =>
      have hs : c.stack = [.result w, .errorHandler] := h.shape_at hpc rfl
      cases hst.symm.trans hs
      cases ho
      exact hpc
  | _ => cases ho

end Runner

/-! ## Moves of the outer code -/

section Event

/-- While the outer code is in a cycle, the thread is not. -/
theorem CellInv.runner_out (h : CellInv r (some (d, e)) c) (hin : e.inCycle = true) :
    c.pc.inCycle = false := by
  cases ho : c.pc.inCycle with
  | false => rfl
  | true =>
      have hrunner : holds c.pc (some (d, e)) .runner = true := ho
      have houter : holds c.pc (some (d, e)) .outer = true := hin
      cases h.excl.unique hrunner houter

/-- The outer code enters or leaves `l_call_event` without the mutex. -/
theorem CellInv.outer_at (h : CellInv r ev c) (hout : holds c.pc ev .outer = false)
    (hout' : holds c.pc ev' .outer = false) : CellInv r ev' c where
  noFailure := h.noFailure
  excl := h.excl.congr rfl fun p => by
    cases p with
    | runner => rfl
    | outer => exact hout'.trans hout.symm
  free := h.free
  shape := h.shape
  evShape := CellInv.evShape_of_out hout' c

/-- A move inside a cycle. -/
theorem CellInv.event_inside (h : CellInv r (some (d, e)) c) (hin : e.inCycle = true)
    (hin' : e'.inCycle = true) (hpc : c'.pc = c.pc) (hmtx : c'.mtx = c.mtx)
    (hshape : e'.Shape r d c'.stack) (hok : c'.assertFailed = false) :
    CellInv r (some (d, e')) c' where
  noFailure := hok
  excl := h.excl.congr hmtx fun p => by
    cases p with
    | runner => exact congrArg RunnerPc.inCycle hpc
    | outer => exact hin'.trans hin.symm
  free hm := by
    have hheld : c.mtx = some .outer := (h.excl .outer).mpr hin
    cases (hmtx.symm.trans hm).symm.trans hheld
  shape hrun := by
    rw [hpc, h.runner_out hin] at hrun
    cases hrun
  evShape d' e'' hev _ := by
    cases hev
    exact hshape

/-- A move of the outer code keeps the invariant. -/
theorem CellInv.event_move (h : CellInv r (some (d, e)) c) (hmove : EventMove r d c e c' e') :
    CellInv r (some (d, e')) c' := by
  cases hmove with
  | lock hfree =>
      refine ⟨h.noFailure, ?_, fun hm => ?_, fun hin => ?_, fun d' e'' hev _ => ?_⟩
      · refine h.excl.move (t := .outer) ?_ fun p hp => ?_
        · rw [hfree]
          exact .lock
        · cases p with
          | runner => rfl
          | outer => exact absurd rfl hp
      · cases hm
      · have hheld : c.mtx = some .runner := (h.excl .runner).mpr hin
        cases hfree.symm.trans hheld
      · cases hev
        exact h.free hfree
  | begun =>
      have hs : c.stack = [.errorHandler] := h.evShape d .begun rfl rfl
      refine h.event_inside rfl rfl rfl rfl ?_ ?_
      · show _ :: _ :: c.stack = _
        rw [hs]
      · show (c.assertFailed || _) = false
        rw [h.noFailure, hs]
        rfl
  | discard hr =>
      have hs : c.stack = [.string d, eventSlot r, .errorHandler] := h.evShape d .opened rfl rfl
      refine h.event_inside rfl rfl rfl rfl ?_ ?_
      · show c.stack.drop 2 = _
        rw [hs]
        rfl
      · show (c.assertFailed || _) = false
        rw [h.noFailure, hs]
        rfl
  | @call arg f rest hr hst =>
      have hs : c.stack = [.string d, eventSlot r, .errorHandler] := h.evShape d .opened rfl rfl
      cases hst.symm.trans hs
      have hfunc : r = .func := by
        cases r with
        | refnil => exact absurd rfl hr
        | func => rfl
      refine h.event_inside rfl rfl rfl rfl ⟨by rw [hfunc]; rfl, rfl, hfunc, rfl⟩ ?_
      show (c.assertFailed || _) = false
      rw [h.noFailure, hs]
      rfl
  | @ok f arg =>
      exact h.event_inside rfl rfl rfl rfl (h.evShape d _ rfl rfl).2.2.2 h.noFailure
  | @fail f arg =>
      exact h.event_inside rfl rfl rfl rfl (h.evShape d _ rfl rfl).2.2.2 h.noFailure

/-- The outer code gives the mutex up. -/
theorem CellInv.event_unlock {res : EventResult} (h : CellInv r (some (d, .leaving res)) c) :
    CellInv r none c.unlock where
  noFailure := h.noFailure
  excl := by
    have hheld : c.mtx = some .outer := (h.excl .outer).mpr rfl
    refine h.excl.move (t := .outer) ?_ fun p hp => ?_
    · rw [hheld]
      exact .unlock
    · cases p with
      | runner => rfl
      | outer => exact absurd rfl hp
  free _ := h.evShape d (.leaving res) rfl rfl
  shape hin := by cases (h.runner_out rfl).symm.trans hin
  evShape _ _ hev := by cases hev

end Event

/-! ## The plugin -/

variable {src : Sources} {W : Runners src} {F : Type} {C : Coercions F} {greet : Bool}
  {s s' : State src} {l : Label src.count}

/-- The call of the event function of the nested widget `i`. -/
def OuterPc.callOn {n : Nat} (i : Fin n) : OuterPc n → Option EventCall
  | .calling _ j d e => if j = i then some (d, e) else none
  | _ => none

/-- The thread of the nested widget `i` has been created, or will not be. -/
def ConsumerPc.isPast (i : Nat) : ConsumerPc → Bool
  | .spawning | .greeting | .inHello => false
  | .starting k => i < k
  | .fetching | .fetched _ | .inUpdate => true

/-- The invariant of the plugin. -/
structure Inv (W : Runners src) (s : State src) : Prop where
  cells : ∀ i r, W i = some r → CellInv r (s.outer.callOn i) (s.cells i)
  failed : ∀ i, W i = none → s.cells i = .initial
  unstarted : ∀ i : Fin src.count, s.consumer.isPast i = false → (s.cells i).pc = .absent
  calls : ∀ f i d e, s.outer = .calling f i d e → (W i).isSome

theorem Inv.init : Inv W (initState src) where
  cells _ r _ := .initial r
  failed _ _ := rfl
  unstarted _ _ := rfl
  calls _ _ _ _ h := by cases h

/-- A thread that has not been created does not move. -/
theorem RunnerMove.pc_ne_absent {o : Option Outcome} (h : RunnerMove c o c') :
    c.pc ≠ .absent := by
  cases h with
  | callBegin hpc _ => rw [hpc]; simp
  | callEnd hpc _ => rw [hpc]; simp
  | newData hpc _ => rw [hpc]; simp
  | _ hpc => rw [hpc]; simp

theorem Inv.runner_step {o : Option Outcome} {i : Fin src.count} (h : Inv W s)
    (hmove : RunnerMove (s.cells i) o c') (q : Multiplex.State src.count) :
    Inv W { s.setCell i c' with conq := q } where
  cells j r hr := by
    show CellInv r _ (Function.update s.cells i c' j)
    by_cases hj : j = i
    · subst hj
      rw [Function.update_self]
      exact (h.cells j r hr).runner_move hmove
    · rw [Function.update_of_ne hj]
      exact h.cells j r hr
  failed j hj := by
    have hne : j ≠ i := by
      rintro rfl
      exact hmove.pc_ne_absent (by rw [h.failed j hj]; rfl)
    exact (Function.update_of_ne hne c' s.cells).trans (h.failed j hj)
  unstarted j hj := by
    have hne : j ≠ i := by
      rintro rfl
      exact hmove.pc_ne_absent (h.unstarted j hj)
    exact (congrArg Cell.pc (Function.update_of_ne hne c' s.cells)).trans (h.unstarted j hj)
  calls := h.calls

/-- A step that moves the consumer, and the outer code if it is in no call. -/
theorem Inv.consumer_step (h : Inv W s) (hcells : s'.cells = s.cells)
    (hpast : ∀ i : Fin src.count, s'.consumer.isPast i = false → s.consumer.isPast i = false)
    (hcall : ∀ i, s'.outer.callOn i = s.outer.callOn i)
    (hcalls : ∀ f i d e, s'.outer = .calling f i d e → s.outer = .calling f i d e) :
    Inv W s' where
  cells i r hr := by
    rw [hcells, hcall]
    exact h.cells i r hr
  failed i hi := by
    rw [hcells]
    exact h.failed i hi
  unstarted i hi := by
    rw [hcells]
    exact h.unstarted i (hpast i hi)
  calls f i d e he := h.calls f i d e (hcalls f i d e he)

/-- The outer code moves in a nested widget, or gives its mutex up. -/
theorem Inv.event_step {f : OuterFn} {i : Fin src.count} (h : Inv W s)
    (hout : s.outer = .calling f i d e) (hpc : c'.pc = (s.cells i).pc) {o : OuterPc src.count}
    (hcell : ∀ r, W i = some r → CellInv r (some (d, e)) (s.cells i) →
      CellInv r (o.callOn i) c')
    (hother : ∀ j, j ≠ i → o.callOn j = none)
    (hcalls : ∀ g j d e, o = .calling g j d e → j = i) :
    Inv W ((s.setCell i c').outerAt o) where
  cells j r hr := by
    have hj := h.cells j r hr
    rw [hout] at hj
    show CellInv r (o.callOn j) (Function.update s.cells i c' j)
    by_cases he : j = i
    · subst he
      rw [Function.update_self]
      rw [OuterPc.callOn, if_pos rfl] at hj
      exact hcell r hr hj
    · rw [Function.update_of_ne he, hother j he]
      rwa [OuterPc.callOn, if_neg (Ne.symm he)] at hj
  failed j hj := by
    have hne : j ≠ i := by
      rintro rfl
      have := h.calls f j d e hout
      rw [hj] at this
      cases this
    exact (Function.update_of_ne hne c' s.cells).trans (h.failed j hj)
  unstarted j hj := by
    show (Function.update s.cells i c' j).pc = .absent
    by_cases he : j = i
    · subst he
      rw [Function.update_self, hpc]
      exact h.unstarted j hj
    · rw [Function.update_of_ne he]
      exact h.unstarted j hj
  calls g j d' e' ho := by
    rw [hcalls g j d' e' ho]
    exact h.calls f i d e hout

theorem lCallEvent_eq_inl {spawned : Bool} {args : List (CallArg F)} {i : Fin src.count}
    (h : lCallEvent C W spawned args = .ok (.inl (i, d))) : (W i).isSome := by
  unfold lCallEvent at h
  obtain ⟨name, -, h⟩ := bind_eq_ok.mp h
  cases hfind : wspecListFind src.wspecs (toCString name) with
  | none =>
      rw [hfind] at h
      cases h
  | some j =>
      rw [hfind] at h
      obtain ⟨data, -, h⟩ := bind_eq_ok.mp h
      cases spawned with
      | false => cases h
      | true =>
          cases hW : W j with
          | none =>
              simp only [hW] at h
              cases h
          | some r =>
              simp only [hW] at h
              cases h
              rw [hW]
              rfl

theorem EventMove.pc_eq (h : EventMove r d c e c' e') : c'.pc = c.pc := by
  cases h <;> rfl

/-- The thread of a nested widget is created, or not. -/
theorem Inv.start_step {k : Fin src.count} (created : Bool) (h : Inv W s)
    (hpc : s.consumer = .starting k) :
    Inv W ((if (W k).isSome && created then s.setCell k ((s.cells k).pcAt .idle) else s).consumerAt
      (.starting (k + 1))) := by
  have habsent : (s.cells k).pc = .absent := by
    refine h.unstarted k ?_
    rw [hpc]
    exact decide_eq_false (Nat.lt_irrefl k)
  have hpast {i : Fin src.count} (hi : (ConsumerPc.starting (k + 1)).isPast i = false) :
      i ≠ k ∧ s.consumer.isPast i = false := by
    have hle : ¬ i.val < k.val + 1 := of_decide_eq_false hi
    refine ⟨fun he => hle (by omega), ?_⟩
    rw [hpc]
    exact decide_eq_false (by omega)
  cases hcond : (W k).isSome && created with
  | false =>
      exact h.consumer_step rfl (fun i hi => (hpast hi).2) (fun _ => rfl) fun _ _ _ _ he => he
  | true =>
      have hsome : (W k).isSome = true := (Bool.and_eq_true_iff.mp hcond).1
      exact {
        cells := fun i r hr => by
          show CellInv r (s.outer.callOn i) (Function.update s.cells k _ i)
          by_cases hi : i = k
          · subst hi
            rw [Function.update_self]
            exact (h.cells i r hr).runner_outside (by rw [habsent]; rfl) rfl
          · rw [Function.update_of_ne hi]
            exact h.cells i r hr
        failed := fun i hi => by
          have hne : i ≠ k := by
            rintro rfl
            rw [hi] at hsome
            cases hsome
          exact (Function.update_of_ne hne _ s.cells).trans (h.failed i hi)
        unstarted := fun i hi => by
          obtain ⟨hne, hi⟩ := hpast hi
          exact (congrArg Cell.pc (Function.update_of_ne hne _ s.cells)).trans (h.unstarted i hi)
        calls := h.calls }

theorem Inv.step (h : Inv W s) (hst : Step W C greet s l s') : Inv W s' := by
  cases hst with
  | runner i hmove => exact h.runner_step hmove s.conq
  | outcome i o hmove => exact h.runner_step hmove _
  | spawn hpc =>
      refine h.consumer_step rfl (fun i _ => ?_) (fun _ => rfl) fun _ _ _ _ he => he
      rw [hpc]
      rfl
  | hello hpc hout =>
      refine h.consumer_step rfl (fun i _ => ?_) (fun i => ?_) fun _ _ _ _ he => by cases he
      · rw [hpc]
        rfl
      · rw [hout]
        rfl
  | start k created hpc => exact h.start_step created hpc
  | started hpc =>
      exact h.consumer_step rfl (fun i hi => by cases hi) (fun _ => rfl) fun _ _ _ _ he => he
  | wait hpc _ => exact h.consumer_step rfl (fun _ hi => hi) (fun _ => rfl) fun _ _ _ _ he => he
  | spuriousWakeup hpc _ =>
      exact h.consumer_step rfl (fun _ hi => hi) (fun _ => rfl) fun _ _ _ _ he => he
  | fetch mask hpc _ =>
      exact h.consumer_step rfl (fun i hi => by cases hi) (fun _ => rfl) fun _ _ _ _ he => he
  | update hpc hout =>
      refine h.consumer_step rfl (fun i hi => by cases hi) (fun i => ?_)
        fun _ _ _ _ he => by cases he
      rw [hout]
      rfl
  | cbReturns hout =>
      refine h.consumer_step rfl (fun i hi => ?_) (fun i => ?_) fun _ _ _ _ he => by cases he
      · show s.consumer.isPast i = false
        have hi' : s.consumer.afterCb.isPast i = false := hi
        cases hpc : s.consumer <;> rw [hpc] at hi' <;> first | rfl | exact hi'
      · rw [hout]
        rfl
  | eventBegins hout =>
      refine h.consumer_step rfl (fun _ hi => hi) (fun i => ?_) fun _ _ _ _ he => by cases he
      rw [hout]
      rfl
  | eventReturns hout =>
      refine h.consumer_step rfl (fun _ hi => hi) (fun i => ?_) fun _ _ _ _ he => by cases he
      rw [hout]
      rfl
  | callFails _ _ => exact h
  | callAnswers _ _ => exact h
  | @callEvent f args i d hout hcall =>
      refine ⟨fun j r hr => ?_, h.failed, h.unstarted, fun g j d' e' he => ?_⟩
      · have hj := h.cells j r hr
        rw [hout] at hj
        refine hj.outer_at rfl ?_
        simp only [State.outerAt, OuterPc.callOn]
        split <;> rfl
      · cases he
        exact lCallEvent_eq_inl hcall
  | @event f i d e c' e' r hout hr hmove =>
      refine h.event_step hout hmove.pc_eq (fun r' hr' hc => ?_) (fun j hj => ?_)
        fun g j d' e'' he => ?_
      · cases hr.symm.trans hr'
        rw [OuterPc.callOn, if_pos rfl]
        exact hc.event_move hmove
      · exact if_neg (Ne.symm hj)
      · cases he
        rfl
  | @eventUnlock f i d r hout =>
      have hpc : (s.cells i).unlock.pc = (s.cells i).pc := rfl
      refine h.event_step (o := .code f) hout hpc (fun r' _ hc => hc.event_unlock)
        (fun _ _ => rfl) fun _ _ _ _ he => ?_
      cases he

theorem Inv.of_reachable (hs : (system W C greet).Reachable s) : Inv W s := by
  refine hs.invariant (fun s hi => ?_) fun s l t ih hst => ih.step hst
  rw [show s = _ from hi]
  exact .init

/-! ## The protocol -/

/-- A nested widget without a thread reports nothing. -/
theorem no_outcome_initial (o : Outcome) : ¬RunnerMove .initial (some o) c' := by
  generalize ho : some o = x
  intro hmove
  cases hmove with
  | newData hpc | luaError hpc | pluginExited hpc => cases hpc
  | _ => cases ho

/-- In every state of every run, whatever the nested widgets are and however the threads
interleave: no stack assertion has failed; a Lua state whose mutex is free has nothing but the error
handler on its stack; the thread of a nested widget and the outer code are never in it together; a
thread runs `cb`, the value that it is about to report is on top of the stack, and what it reports
is what `cb` has returned; and the outer code runs the event function, of a widget that has one,
with the data of the call. -/
theorem nested_protocol (hs : (system W C greet).Reachable s) (i : Fin src.count) :
    (s.cells i).assertFailed = false ∧
    ((s.cells i).mtx = none → (s.cells i).stack = [.errorHandler]) ∧
    ((s.cells i).pc.inCycle = true → ∀ f d e, s.outer = .calling f i d e → e = .waiting) ∧
    (∀ f, (s.cells i).pc = .running f → f = .cb) ∧
    (∀ v, (s.cells i).pc = .returned (some v) → (s.cells i).stack.head? = some (.result v)) ∧
    (∀ g d f arg, s.outer = .calling g i d (.running f arg) →
      W i = some .func ∧ f = .event ∧ arg = .string d) ∧
    ∀ v s', Step W C greet s (.outcome i (.newData v)) s' →
      (s.cells i).pc = .returned (some v) := by
  have hinv := Inv.of_reachable hs
  cases hW : W i with
  | none =>
      rw [hinv.failed i hW]
      refine ⟨rfl, fun _ => rfl, ?_, ?_, ?_, fun g d f arg h => ?_, fun v s' hstep => ?_⟩
      · intro h
        cases h
      · intro f h
        cases h
      · intro v h
        cases h
      · have hsome := hinv.calls g i d _ h
        rw [hW] at hsome
        cases hsome
      · cases hstep with
        | outcome _ _ hmove =>
            rw [hinv.failed i hW] at hmove
            exact absurd hmove (no_outcome_initial _)
  | some r =>
      have hc := hinv.cells i r hW
      refine ⟨hc.noFailure, hc.free, fun hin f d e he => ?_, fun f hf => ?_, fun v hv => ?_,
        fun g d f arg he => ?_, fun v s' hstep => ?_⟩
      · rw [he, OuterPc.callOn, if_pos rfl] at hc
        cases hcyc : e.inCycle with
        | true => cases hin.symm.trans (hc.runner_out hcyc)
        | false =>
            cases e <;> first | rfl | cases hcyc
      · exact (hc.shape_at hf rfl).1
      · have hs' : (s.cells i).stack = [.result v, .errorHandler] := hc.shape_at hv rfl
        rw [hs']
        rfl
      · rw [he, OuterPc.callOn, if_pos rfl] at hc
        obtain ⟨hf, harg, hr, -⟩ := hc.evShape d _ rfl rfl
        exact ⟨by rw [hr], hf, harg⟩
      · cases hstep with
        | outcome _ _ hmove => exact hc.newData_eq hmove

/-- One data source, with the name `a`. -/
def oneSource : Sources where
  wspecs := [⟨⟨[97], by decide⟩, none⟩]
  checked := rfl

/-- Its index. -/
def onlySource : Fin oneSource.count := ⟨0, Nat.one_pos⟩

/-- The nested widget has returned a string and is about to report it. -/
theorem nested_protocol_returned :
    ∃ (C : Coercions Unit) (s : State oneSource),
      (system (fun _ => some .func) C false).Reachable s ∧
        (s.cells onlySource).pc = .returned (some (.string [120])) ∧
        (s.cells onlySource).stack.head? = some (.result (.string [120])) := by
  let C : Coercions Unit := { toString := fun _ => [48], ofString := fun _ => none }
  have h0 : (system (fun _ => some .func) C false).Reachable (initState oneSource) := .init rfl
  have h1 := h0.step (.spawn rfl)
  have h2 := h1.step (.start onlySource true rfl)
  have h3 := h2.step (.runner onlySource (.callBegin rfl rfl))
  have h4 := h3.step (.runner onlySource (.callBegun rfl))
  have h5 := h4.step (.runner onlySource (.callPush rfl))
  have h6 := h5.step (.runner onlySource (.callEnd rfl rfl))
  have h7 := h6.step (.runner onlySource (.callOk (v := .string [120]) rfl))
  exact ⟨C, _, h7, rfl, (nested_protocol h7 onlySource).2.2.2.2.1 _ rfl⟩

/-- A thread in a cycle can go on: it does not wait for anybody. -/
theorem CellInv.runner_move_of_inCycle {r : LRef} {ev : Option EventCall} {c : Cell}
    (h : CellInv r ev c) (hin : c.pc.inCycle = true) :
    ∃ o c', RunnerMove c o c' ∧ c'.pc ≠ c.pc := by
  cases hpc : c.pc with
  | begun => exact ⟨_, _, .callBegun hpc, RunnerPc.noConfusion⟩
  | opened k => exact ⟨_, _, .callCancel hpc, RunnerPc.noConfusion⟩
  | running f => exact ⟨_, _, .callFail hpc, RunnerPc.noConfusion⟩
  | returned v =>
      cases v with
      | none => exact ⟨_, _, .luaError hpc, RunnerPc.noConfusion⟩
      | some v => exact ⟨_, _, .newData hpc (h.shape_at hpc rfl), RunnerPc.noConfusion⟩
  | reported => exact ⟨_, _, .callSettle hpc, RunnerPc.noConfusion⟩
  | leaving => exact ⟨_, _, .callUnlock hpc, RunnerPc.noConfusion⟩
  | _ =>
      rw [hpc] at hin
      cases hin

/-- The outer code can go on in a nested widget, unless it waits for the mutex. -/
theorem CellInv.event_move_of_ne {r : LRef} {d : Bytes} {e : EventPc} {c : Cell}
    (h : CellInv r (some (d, e)) c) (hne : e ≠ .waiting) :
    (∃ c' e', EventMove r d c e c' e' ∧ e' ≠ e) ∨ ∃ res, e = .leaving res := by
  cases e with
  | waiting => exact absurd rfl hne
  | begun => exact .inl ⟨_, _, .begun, EventPc.noConfusion⟩
  | opened =>
      left
      by_cases hr : r = .refnil
      · exact ⟨_, _, .discard hr, EventPc.noConfusion⟩
      · exact ⟨_, _, .call hr (h.evShape d .opened rfl rfl), EventPc.noConfusion⟩
  | running f arg => exact .inl ⟨_, _, .ok, EventPc.noConfusion⟩
  | leaving res => exact .inr ⟨res, rfl⟩

/-- `call_event` cannot deadlock: in every state of every run in which the outer code is in it,
either the outer code can go on, or it waits for the mutex of the nested widget, the thread of that
widget holds it, and the thread can go on. -/
theorem call_event_progress {f : OuterFn} {i : Fin src.count} {d : Bytes} {e : EventPc}
    (hs : (system W C greet).Reachable s) (hout : s.outer = .calling f i d e) :
    (∃ l s', Step W C greet s l s' ∧ s'.outer ≠ s.outer) ∨
      e = .waiting ∧ (s.cells i).mtx = some .runner ∧
        ∃ l s', Step W C greet s l s' ∧ s'.outer = s.outer ∧
          (s'.cells i).pc ≠ (s.cells i).pc := by
  have hinv := Inv.of_reachable hs
  obtain ⟨r, hr⟩ := Option.isSome_iff_exists.mp (hinv.calls f i d e hout)
  have hc := hinv.cells i r hr
  rw [hout, OuterPc.callOn, if_pos rfl] at hc
  have hmoves {c' : Cell} {e' : EventPc} (hmove : EventMove r d (s.cells i) e c' e')
      (hne : e' ≠ e) : ∃ l s', Step W C greet s l s' ∧ s'.outer ≠ s.outer := by
    refine ⟨_, _, .event r hout hr hmove, fun he => hne ?_⟩
    have he' : OuterPc.calling f i d e' = .calling f i d e := he.trans hout
    cases he'
    rfl
  by_cases hw : e = .waiting
  · subst hw
    cases hm : (s.cells i).mtx with
    | none => exact .inl (hmoves (.lock hm) EventPc.noConfusion)
    | some p =>
        cases p with
        | outer => exact absurd ((hc.excl .outer).mp hm) Bool.false_ne_true
        | runner =>
            obtain ⟨o, c', hmove, hne⟩ := hc.runner_move_of_inCycle ((hc.excl .runner).mp hm)
            have hcell (q : Multiplex.State src.count) :
                (({ s.setCell i c' with conq := q } : State src).cells i).pc ≠ (s.cells i).pc := by
              show (Function.update s.cells i c' i).pc ≠ _
              rwa [Function.update_self]
            refine .inr ⟨rfl, rfl, ?_⟩
            cases o with
            | none => exact ⟨_, _, .runner i hmove, rfl, hcell s.conq⟩
            | some o => exact ⟨_, _, .outcome i o hmove, rfl, hcell _⟩
  · rcases hc.event_move_of_ne hw with ⟨c', e', hmove, hne⟩ | ⟨res, rfl⟩
    · exact .inl (hmoves hmove hne)
    · refine .inl ⟨_, _, .eventUnlock hout, fun he => ?_⟩
      have he' : OuterPc.code f = .calling f i d (.leaving res) := he.trans hout
      cases he'

/-- The outer code waits for the mutex, which the thread of the nested widget holds. -/
theorem call_event_progress_waiting :
    ∃ (C : Coercions Unit) (s : State oneSource),
      s.outer = .calling .event onlySource [100] .waiting ∧
        (s.cells onlySource).mtx = some .runner ∧
        ∃ l s', Step (fun _ => some .func) C false s l s' ∧
          (s'.outer ≠ s.outer ∨
            s'.outer = s.outer ∧ (s'.cells onlySource).pc ≠ (s.cells onlySource).pc) := by
  let C : Coercions Unit := { toString := fun _ => [48], ofString := fun _ => none }
  have h0 : (system (fun _ => some .func) C false).Reachable (initState oneSource) := .init rfl
  have h1 := h0.step (.spawn rfl)
  have h2 := h1.step (.start onlySource true rfl)
  have h3 := h2.step (.runner onlySource (.callBegin rfl rfl))
  have h4 := h3.step (.eventBegins rfl)
  have hcall : lCallEvent C (fun _ : Fin oneSource.count => some .func) true
      [.string [97], .string [100]] = .ok (.inl (onlySource, [100])) := rfl
  have h5 := h4.step (.callEvent rfl hcall)
  obtain ⟨s, hs, hout, hmtx⟩ : ∃ s, (system (fun _ => some .func) C false).Reachable s ∧
      s.outer = .calling .event onlySource [100] .waiting ∧
        (s.cells onlySource).mtx = some .runner := ⟨_, h5, rfl, rfl⟩
  refine ⟨C, s, hout, hmtx, ?_⟩
  rcases call_event_progress hs hout with ⟨l, s', hstep, hne⟩ | ⟨-, -, l, s', hstep, hmoved⟩
  · exact ⟨l, s', hstep, .inl hne⟩
  · exact ⟨l, s', hstep, .inr hmoved⟩

end Luastatus.Multiplex.Nested

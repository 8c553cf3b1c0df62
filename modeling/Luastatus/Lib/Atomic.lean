import Luastatus.Lib.Transition
import Mathlib.Logic.Function.Basic

/-!
# Atomic objects

An object has a value and operations, each of which reads and changes the value at once.  The
atomic object of a set of threads is the specification of a concurrent implementation: a thread
invokes an operation, the operation takes place in a single step, and later the thread gets the
result.  An implementation is correct if each of its histories is one of the atomic object, with
the same invocations and responses: then every call takes effect at one moment between its
invocation and its response.

An operation may also fail, with one of the results that the object names for that, and then it
does not take place.

`Object.after` reads the value off a history, so that what a history of the atomic object says does
not depend on its states (`value_eq`).
-/

namespace Atomic

open Transition

/-- A sequential object with values `σ`, operations `ω` and results `ρ`. -/
structure Object (σ ω ρ : Type*) where
  init : σ
  apply : σ → ω → ρ × σ
  /-- What the operation may end with instead. -/
  fails : ω → ρ → Prop

/-- Where the call of a thread is. -/
inductive Phase (ω ρ : Type*) where
  | idle
  /-- Invoked, and not done yet. -/
  | pending (op : ω)
  /-- Done, with a result that has not been returned yet. -/
  | finished (r : ρ)

/-- A state of the atomic object of the threads `τ`. -/
structure State (τ σ ω ρ : Type*) where
  value : σ
  phase : τ → Phase ω ρ

/-- What happens in a step. -/
inductive Label (τ ω ρ : Type*) where
  | invoke (t : τ) (op : ω)
  /-- The operation takes place. -/
  | commit (t : τ) (op : ω) (r : ρ)
  /-- The operation fails. -/
  | fail (t : τ) (op : ω) (r : ρ)
  | respond (t : τ) (r : ρ)

variable {τ σ ω ρ : Type*} [DecidableEq τ] {O : Object σ ω ρ}

/-- The steps of the atomic object. -/
inductive Step (O : Object σ ω ρ) (s : State τ σ ω ρ) :
    Label τ ω ρ → State τ σ ω ρ → Prop where
  | invoke (t : τ) (op : ω) : s.phase t = .idle →
      Step O s (.invoke t op) { s with phase := Function.update s.phase t (.pending op) }
  | commit (t : τ) (op : ω) : s.phase t = .pending op →
      Step O s (.commit t op (O.apply s.value op).1)
        { value := (O.apply s.value op).2
          phase := Function.update s.phase t (.finished (O.apply s.value op).1) }
  | fail (t : τ) (op : ω) (r : ρ) : s.phase t = .pending op → O.fails op r →
      Step O s (.fail t op r) { s with phase := Function.update s.phase t (.finished r) }
  | respond (t : τ) (r : ρ) : s.phase t = .finished r →
      Step O s (.respond t r) { s with phase := Function.update s.phase t .idle }

/-- The atomic object, before any call. -/
def Object.system (τ : Type*) [DecidableEq τ] (O : Object σ ω ρ) :
    System (State τ σ ω ρ) (Label τ ω ρ) where
  init s := s = { value := O.init, phase := fun _ => .idle }
  step := Step O

/-- The value after a history, newest first. -/
def Object.after (O : Object σ ω ρ) : List (Label τ ω ρ) → σ
  | [] => O.init
  | .commit _ op _ :: h => (O.apply (O.after h) op).2
  | .invoke _ _ :: h | .fail _ _ _ :: h | .respond _ _ :: h => O.after h

variable {h : List (Label τ ω ρ)} {s : State τ σ ω ρ}

theorem value_eq (hs : (O.system τ).Hist h s) : s.value = O.after h := by
  refine hs.invariant (P := fun h s => s.value = O.after h) (fun s hi => ?_)
    fun h s l t _ ih hst => ?_
  · rw [show s = _ from hi]
    rfl
  · cases hst with
    | invoke u op _ => exact ih
    | commit u op _ =>
        show (O.apply s.value op).2 = _
        rw [ih]
        rfl
    | fail u op r _ _ => exact ih
    | respond u r _ => exact ih

end Atomic

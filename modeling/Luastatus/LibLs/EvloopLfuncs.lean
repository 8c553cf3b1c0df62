import Luastatus.LibLs.TimeUtils
import Luastatus.Lua.CallArg
import Mathlib.Tactic.Common

/-!
# What event loops of plugins share

A widget may push a timeout for the next wait of its plugin, and it may wake its plugin up by a byte
in a pipe.  Both are done by Lua functions that any thread may call at any time.  A plugin may also
wait for somebody to touch a FIFO.

`Timeouts.Right` says what a pushed timeout is for, in terms of the pushes and fetches in the order
in which the lock is taken: a fetch gets the value that was pushed last since the fetch before it,
and the default value if there is none.
-/

namespace Luastatus.LibLs

open Text (Bytes lit)
open Lua

variable {F : Type} (O : DoubleOps F)

/-- `LS_TD_FOREVER`. -/
def lsTDForever : TimeDelta F := ⟨lsTmoMax O⟩

/-- `ls_double_to_TD`. -/
def lsDoubleToTD (delta : F) (ifBad : TimeDelta F) : TimeDelta F :=
  (lsDoubleToTDChecked O delta).getD ifBad

/-! ## Pushed timeouts -/

/-- `LS_PushedTimeout`, without its lock: each function below holds it while it accesses the
value. -/
structure PushedTimeout (F : Type) where
  value : F
deriving DecidableEq, Repr

/-- `ls_pushed_timeout_init`. -/
def lsPushedTimeoutInit : PushedTimeout F := ⟨O.ofInt (-1)⟩

/-- `ls_pushed_timeout_fetch`. -/
def lsPushedTimeoutFetch (p : PushedTimeout F) (alt : TimeDelta F) :
    TimeDelta F × PushedTimeout F :=
  if O.lt p.value (O.ofInt 0) then (alt, p)
  else (lsDoubleToTD O p.value (lsTDForever O), ⟨O.ofInt (-1)⟩)

/-- `ls_pushed_timeout_lfunc`: what it stores. -/
def lsPushedTimeoutLfunc (C : Coercions F) (args : List (CallArg F)) :
    Except LuaError (PushedTimeout F) := do
  let arg ← checkNumber C args 1
  if O.le (O.ofInt 0) arg then return ⟨arg⟩
  throw (.argError 1 (lit "invalid timeout"))

namespace Timeouts

/-- A push of a value, or a fetch of a time delta. -/
inductive Event (F : Type) where
  | push (v : F)
  | fetch (TD : TimeDelta F)
deriving DecidableEq, Repr

/-- The value that the next fetch is to get; the newest event comes first. -/
def pending : List (Event F) → Option F
  | .push v :: _ => some v
  | _ => none

/-- The time delta for a value that is not negative. -/
def capped (v : F) : TimeDelta F := ⟨if O.lt (lsTmoMax O) v then lsTmoMax O else v⟩

/-- Each fetch has got what it is to get. -/
def Right (alt : TimeDelta F) : List (Event F) → Prop
  | [] => True
  | .push v :: h => O.le (O.ofInt 0) v = true ∧ Right alt h
  | .fetch TD :: h => TD = ((pending h).map (capped O)).getD alt ∧ Right alt h

/-- What the stored value says of the events. -/
structure Inv (alt : TimeDelta F) (h : List (Event F)) (p : PushedTimeout F) : Prop where
  right : Right O alt h
  value : p.value = (pending h).getD (O.ofInt (-1))

variable {O} {alt : TimeDelta F} {h : List (Event F)} {p p' : PushedTimeout F}

theorem inv_init : Inv O alt [] (lsPushedTimeoutInit O) := ⟨trivial, rfl⟩

theorem lfunc_eq_ok {C : Coercions F} {args : List (CallArg F)} :
    lsPushedTimeoutLfunc O C args = .ok p ↔
      checkNumber C args 1 = .ok p.value ∧ O.le (O.ofInt 0) p.value = true := by
  rw [lsPushedTimeoutLfunc]
  cases checkNumber C args 1 with
  | error e => simp [bind, Except.bind]
  | ok arg =>
      show (if _ then _ else _) = _ ↔ _
      split
      · rename_i hle
        constructor
        · intro h
          cases h
          exact ⟨rfl, hle⟩
        · rintro ⟨h, -⟩
          cases h
          rfl
      · rename_i hle
        constructor
        · intro h
          cases h
        · rintro ⟨h, hle'⟩
          cases h
          exact absurd hle' hle

/-- A push replaces what was to be fetched. -/
theorem Inv.push (hi : Inv O alt h p) {C : Coercions F} {args : List (CallArg F)}
    (hp : lsPushedTimeoutLfunc O C args = .ok p') : Inv O alt (.push p'.value :: h) p' :=
  ⟨⟨(lfunc_eq_ok.mp hp).2, hi.right⟩, rfl⟩

theorem Right.le_of_pending (hr : Right O alt h) {v : F} (hv : pending h = some v) :
    O.le (O.ofInt 0) v = true := by
  cases h with
  | nil => cases hv
  | cons e h =>
      cases e with
      | push w =>
          cases hv
          exact hr.1
      | fetch TD => cases hv

/-- A fetch gets what it is to get, and leaves nothing. -/
theorem Inv.fetch (hO : O.Lawful) (hi : Inv O alt h p) :
    Inv O alt (.fetch (lsPushedTimeoutFetch O p alt).1 :: h) (lsPushedTimeoutFetch O p alt).2 := by
  have hvalue := hi.value
  cases hpend : pending h with
  | none =>
      rw [hpend] at hvalue
      have hneg : O.lt p.value (O.ofInt 0) = true := by
        rw [hvalue]
        refine hO.lt_iff.mpr ⟨?_, ?_⟩
        · exact (hO.ofInt_le (by omega) (by omega) (by omega) (by omega)).mpr (by omega)
        · intro hle
          have := (hO.ofInt_le (by omega) (by omega) (by omega) (by omega)).mp hle
          omega
      rw [lsPushedTimeoutFetch, if_pos hneg]
      exact ⟨⟨by rw [hpend]; rfl, hi.right⟩, hvalue⟩
  | some v =>
      rw [hpend] at hvalue
      have hle := hi.right.le_of_pending hpend
      have hnonneg : ¬ O.lt p.value (O.ofInt 0) = true := by
        rw [show p.value = v from hvalue]
        intro hlt
        exact (hO.lt_iff.mp hlt).2 hle
      rw [lsPushedTimeoutFetch, if_neg hnonneg, show p.value = v from hvalue]
      refine ⟨⟨?_, hi.right⟩, rfl⟩
      rw [hpend]
      simp [lsDoubleToTD, lsDoubleToTDChecked, lsDoubleIsGoodTimeDelta, hle, capped]

end Timeouts

/-! ## Self-pipes -/

/-- What `wake_up` has done. -/
inductive WakeUp where
  | written
  /-- The pipe was full. -/
  | full
  /-- An error is thrown: "self-pipe has not been opened". -/
  | notOpened
deriving DecidableEq, Repr

/-- `ls_self_pipe_lfunc`, for the number of bytes in the pipe, if there is a pipe, and the number of
bytes it has room for. -/
def lsSelfPipeLfunc (room : Nat) : Option Nat → WakeUp × Option Nat
  | none => (.notOpened, none)
  | some n => if n < room then (.written, some (n + 1)) else (.full, some n)

/-! ## FIFO devices -/

/-- `LS_FifoDevice`: whether the FIFO is open. -/
structure FifoDevice where
  isOpen : Bool
deriving DecidableEq, Repr

/-- `ls_fifo_device_new`. -/
def lsFifoDeviceNew : FifoDevice := ⟨false⟩

/-- `ls_fifo_device_open`: whether it calls `ls_open_fifo`, and what comes out if that succeeds or
fails. -/
def lsFifoDeviceOpen (dev : FifoDevice) (hasPath : Bool) (opened : Bool) : FifoDevice :=
  if dev.isOpen then dev else if !hasPath then dev else ⟨opened⟩

end Luastatus.LibLs

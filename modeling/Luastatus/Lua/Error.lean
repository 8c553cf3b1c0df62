import Luastatus.Lib.Bytes

/-!
# Errors that Lua functions throw

A function that may throw is a computation in `Except LuaError`.  The position that `error` puts in
front of a message, and the name of the function that `luaL_argerror` puts there, are left out.
-/

namespace Lua

open Text (Bytes)

/-- What a function throws. -/
inductive LuaError where
  /-- By `error` or `luaL_error`, or a failed `assert`. -/
  | error (msg : Bytes)
  /-- By `luaL_argerror`. -/
  | argError (arg : Nat) (msg : Bytes)
deriving DecidableEq, Repr

/-- `assert(c, msg)`. -/
def luaAssert (c : Prop) [Decidable c] (msg : Bytes) : Except LuaError Unit :=
  if c then .ok () else .error (.error msg)

@[simp] theorem luaAssert_eq_ok {c : Prop} [Decidable c] {msg : Bytes} {u : Unit} :
    luaAssert c msg = .ok u ↔ c := by
  rw [luaAssert]
  split
  · exact iff_of_true rfl ‹_›
  · exact iff_of_false nofun ‹_›

end Lua

import Luastatus.Dbus.Values

/-!
# From D-Bus values to Lua values

`push_gvariant` pushes a value onto the Lua stack.  It counts down a limit at every level, and
`push_gvariant_iterable` counts it down once more.
-/

namespace Luastatus.Dbus

open Text (Bytes ch lit decimal decimalInt)

variable {D T V : Type} (A : Api D T V)

/-- `on_recur_lim`. -/
def onRecurLim : LuaVal D V := .special (lit "depth limit exceeded") true

mutual

/-- `push_gvariant`. -/
def pushGvariant (var : V) : Nat → LuaVal D V
  | 0 => onRecurLim
  | recurlim + 1 =>
      match A.values.classify var with
      | .boolean => .boolean (A.values.getBoolean var)
      | .byte => .string (decimal (A.values.getByte var).toNat)
      | .int k => .string (decimalInt (A.values.getInt k var))
      | .double => .number (.float (A.values.getDouble var))
      | .string => .string (A.values.getString var)
      | .objectPath => .string (A.values.getString var)
      | .signature => .string (A.values.getString var)
      | .variant => pushGvariant (A.values.getVariant var) recurlim
      | .array => pushGvariantIterable var recurlim
      | .tuple => pushGvariantIterable var recurlim
      | .dictEntry => pushGvariantIterable var recurlim
      | .handle => .special (A.types.peekString (A.values.getType var)) false

/-- `push_gvariant_iterable`. -/
def pushGvariantIterable (var : V) : Nat → LuaVal D V
  | 0 => onRecurLim
  | recurlim + 1 =>
      if (A.values.children var).length ≤ luaMaxInteger then
        .table ((A.values.children var).map fun elem => pushGvariant elem recurlim)
      else .special (lit "array would be too big") true

end

/-- `cvt`.  `checkstack` says whether the Lua stack can be extended. -/
def cvt (checkstack : Bool) : Option V → LuaVal D V
  | none => .nil
  | some var =>
      if checkstack then pushGvariant A var 200 else .special (lit "out of memory") true

end Luastatus.Dbus

import Luastatus.Lua.Error

/-!
# Arguments and results of C functions

A C function that is called from Lua gets a list of arguments, numbered from 1.  An argument that
is not there has the type `no value`.
-/

namespace Lua

open Text (Bytes lit)

/-- An argument of a C function; `F` are the numbers. -/
inductive CallArg (F : Type) where
  | nil
  | boolean (b : Bool)
  | number (x : F)
  | string (s : Bytes)
  /-- Another value, with the name of its type. -/
  | other (typeName : Bytes)

/-- How Lua converts between numbers and strings. -/
structure Coercions (F : Type) where
  /-- What `lua_tolstring` makes of a number. -/
  toString : F → Bytes
  /-- The number that a string is converted to, if there is one. -/
  ofString : Bytes → Option F

/-- A result of a C function. -/
inductive Ret where
  | string (s : Bytes)
  | boolean (b : Bool)
deriving DecidableEq, Repr

variable {F : Type}

/-- `luaL_typename`. -/
def CallArg.typeName : Option (CallArg F) → Bytes
  | none => lit "no value"
  | some .nil => lit "nil"
  | some (.boolean _) => lit "boolean"
  | some (.number _) => lit "number"
  | some (.string _) => lit "string"
  | some (.other typeName) => typeName

/-- The error of `luaL_checklstring` and its kin. -/
def typeError (expected : String) (args : List (CallArg F)) (i : Nat) : LuaError :=
  .argError i (lit expected ++ lit " expected, got " ++ CallArg.typeName args[i - 1]?)

/-- `luaL_checklstring(L, i)`. -/
def checkLString (C : Coercions F) (args : List (CallArg F)) (i : Nat) : Except LuaError Bytes :=
  match args[i - 1]? with
  | some (.string s) => .ok s
  | some (.number x) => .ok (C.toString x)
  | _ => .error (typeError "string" args i)

/-- `luaL_checknumber(L, i)`. -/
def checkNumber (C : Coercions F) (args : List (CallArg F)) (i : Nat) : Except LuaError F :=
  match args[i - 1]? with
  | some (.number x) => .ok x
  | some (.string s) =>
      match C.ofString s with
      | some x => .ok x
      | none => .error (typeError "number" args i)
  | _ => .error (typeError "number" args i)

end Lua

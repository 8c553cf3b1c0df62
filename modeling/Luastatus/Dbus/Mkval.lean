import Luastatus.Lua.Arg
import Luastatus.Dbus.Values

/-!
# From Lua values to D-Bus values

`mkval_of_dtype` of the Lua library goes down the type and the value together.  The low-level
library makes the values: `mkval_simple` for the types of one letter, and a function for each kind
of container.

A number of an integer type goes through `lua_tointeger`, a string through `strtoll` or `strtoull`.
-/

namespace Luastatus.Dbus

open Text (Byte Bytes ch lit decimal)
open Lua

variable {D T V : Type} (A : Api D T V)

/-! ## Reading simple values -/

/-- The error of `luaL_checktype` and its kin. -/
def typeError (expected : String) (arg : Nat) (x : LuaVal D V) : LuaError :=
  .argError arg (lit expected ++ lit " expected, got " ++ x.typeName)

/-- `fetch_bool`. -/
def fetchBool (x : LuaVal D V) (arg : Nat) : Except LuaError Bool :=
  match x with
  | .boolean b => .ok b
  | _ => .error (typeError "boolean" arg x)

/-- `fetch_byte`. -/
def fetchByte (x : LuaVal D V) (arg : Nat) : Except LuaError Byte :=
  match x with
  | .number n => .ok (UInt8.ofNat (A.num.luaTointeger n % 256).toNat)
  | .string [b] => .ok b
  | .string _ =>
      .error (.argError arg (lit "string for 'byte' value is not of length 1"))
  | _ => .error (.argError arg (lit "expected either a number of a string"))

/-- `fetch_int`: a `uint64_t`. -/
def fetchInt (x : LuaVal D V) (arg : Nat) (isSigned : Bool) : Except LuaError Int :=
  match x with
  | .number n => .ok (A.num.luaTointeger n % 2 ^ 64)
  | .string s =>
      let s := cstr s
      let res := if isSigned then Text.strtoll s else Text.strtoull s
      if res.erange ∨ s = [] ∨ res.rest ≠ [] then
        .error (.argError arg
          (if isSigned then lit "cannot convert this string to signed integer"
          else lit "cannot convert this string to unsigned integer"))
      else .ok (res.value % 2 ^ 64)
  | _ => .error (.argError arg (lit "expected either a number of a string"))

/-- `luaL_checklstring`. -/
def checkString (x : LuaVal D V) (arg : Nat) : Except LuaError Bytes :=
  match x with
  | .string s => .ok s
  | .number n => .ok (A.num.toString n)
  | _ => .error (typeError "string" arg x)

/-- `luaL_checknumber`. -/
def checkNumber (x : LuaVal D V) (arg : Nat) : Except LuaError D :=
  match x with
  | .number n => .ok (A.num.luaTonumber n)
  | .string s =>
      match A.num.ofString s with
      | some n => .ok (A.num.luaTonumber n)
      | none => .error (typeError "number" arg x)
  | _ => .error (typeError "number" arg x)

/-- `fetch_utf8`. -/
def fetchUtf8 (x : LuaVal D V) (arg : Nat) : Except LuaError Bytes := do
  let s ← checkString A x arg
  if A.values.utf8Validate s then return cstr s
  else .error (.argError arg (lit "this strings contains invalid UTF-8"))

/-- `fetch_gvar_borrow`. -/
def fetchGvarBorrow (x : LuaVal D V) (what : String) : Except LuaError V :=
  match x with
  | .value v => .ok v
  | _ => .error (.error (lit what ++ lit ": is not a '" ++
      lit "io.shdown.luastatus.plugin.dbus.official.Value" ++ lit "' userdata value"))

/-! ## The constructors of the low-level library -/

/-- `l_mkval_simple`. -/
def mkvalSimple (t : T) (x : LuaVal D V) : Except LuaError V :=
  match A.types.peekString t with
  | [sigil] =>
      if sigil = ch 'b' then A.values.newBoolean <$> fetchBool x 2
      else if sigil = ch 'y' then A.values.newByte <$> fetchByte A x 2
      else
        match IntType.ofLetter sigil with
        | some k => (A.values.newInt k <| k.wrap ·) <$> fetchInt A x 2 k.isSigned
        | none =>
            if sigil = ch 'd' then A.values.newDouble <$> checkNumber A x 2
            else if sigil = ch 's' then A.values.newString <$> fetchUtf8 A x 2
            else if sigil = ch 'v' then A.values.newVariant <$> fetchGvarBorrow x "argument #2"
            else if sigil = ch 'o' then do
              let s := cstr (← checkString A x 2)
              if A.values.isObjectPath s then return A.values.newObjectPath s
              else .error (.argError 2 (lit "not a valid D-Bus object path"))
            else if sigil = ch 'g' then do
              let s := cstr (← checkString A x 2)
              if A.values.isSignature s then return A.values.newSignature s
              else .error (.argError 2 (lit "not a valid D-Bus type signature"))
            else if sigil = ch 'h' then
              .error (.error (lit "creation of handles is not supported"))
            else .error (.error (lit "not a simple type"))
  | _ => .error (.error (lit "not a simple type"))

/-- `l_mkval_dict_entry`. -/
def mkvalDictEntry (k v : V) : Except LuaError V :=
  if A.types.isBasic (A.values.getType k) then .ok (A.values.newDictEntry k v)
  else .error (.argError 1 (lit "key is not of a basic type"))

/-- `l_mkval_tuple`. -/
def mkvalTuple (items : List V) : V := A.values.newTuple items

/-- The check of the elements in `l_mkval_array`, from index `i` on. -/
def checkElems (t : T) (i : Nat) : List V → Except LuaError Unit
  | [] => .ok ()
  | v :: vs =>
      if A.types.equal t (A.values.getType v) then checkElems t (i + 1) vs
      else .error (.error (lit "type of array element #" ++ decimal i ++
        lit " doesn't match the passed element type"))

/-- `l_mkval_array`. -/
def mkvalArray (t : T) (elems : List V) : Except LuaError V := do
  checkElems A t 1 elems
  return A.values.newArray t elems

/-! ## Looking into types -/

/-- What `l_get_category` returns. -/
inductive Category where
  | simple
  | array
  | dictEntry
  | tuple
deriving DecidableEq, Repr

/-- `l_get_category`. -/
def getCategory (t : T) : Except LuaError Category :=
  if A.types.isBasic t ∨ A.types.isVariant t then .ok .simple
  else if A.types.isArray t then .ok .array
  else if A.types.isDictEntry t then .ok .dictEntry
  else if A.types.isTuple t then .ok .tuple
  else .error (.argError 1 (lit "unknown type"))

/-- `l_get_elem_type`. -/
def getElemType (t : T) : Except LuaError T :=
  if A.types.isArray t then .ok (A.types.element t)
  else .error (.argError 1 (lit "is not an array type"))

/-- `l_get_item_types`. -/
def getItemTypes (t : T) : Except LuaError (List T) :=
  if A.types.isTuple t then
    if (A.types.items t).length ≤ luaMaxInteger then .ok (A.types.items t)
    else .error (.error (lit "tuple type has too many elements"))
  else .error (.argError 1 (lit "is not a tuple type"))

/-- `l_get_kv_types`. -/
def getKvTypes (t : T) : Except LuaError (T × T) :=
  if A.types.isDictEntry t then .ok (A.types.key t, A.types.value t)
  else .error (.argError 1 (lit "is not a dict entry type"))

/-! ## The conversion -/

mutual

/-- `mkval_of_dtype`. -/
def mkvalOfDtype (dtype : T) (x : LuaVal D V) : Except LuaError V :=
  match getCategory A dtype with
  | .error e => .error e
  | .ok .simple => mkvalSimple A dtype x
  | .ok .array =>
      match x with
      | .table xs => do
          let elemDtype ← getElemType A dtype
          let elems ← mkvalElems elemDtype xs
          mkvalArray A elemDtype elems
      | _ => .error (.error (lit "array type requires a table argument"))
  | .ok .tuple =>
      match x with
      | .table xs => do
          let itemDtypes ← getItemTypes A dtype
          luaAssert (xs.length = itemDtypes.length)
            (lit "length of given array does not match the # of elements in tuple")
          let items ← mkvalItems itemDtypes xs
          return mkvalTuple A items
      | _ => .error (.error (lit "tuple type requires a table argument"))
  | .ok .dictEntry =>
      match x with
      | .table [x₁, x₂] => do
          let (dtypeK, dtypeV) ← getKvTypes A dtype
          let k ← mkvalOfDtype dtypeK x₁
          let v ← mkvalOfDtype dtypeV x₂
          mkvalDictEntry A k v
      | .table _ => do
          let _ ← getKvTypes A dtype
          .error (.error (lit "dict entry type requires array of size 2"))
      | _ => .error (.error (lit "dict entry type requires a table argument"))

/-- `imap` over the elements of an array. -/
def mkvalElems (elemDtype : T) : List (LuaVal D V) → Except LuaError (List V)
  | [] => .ok []
  | x :: xs => do
      let v ← mkvalOfDtype elemDtype x
      let vs ← mkvalElems elemDtype xs
      return v :: vs

/-- `imap` over the items of a tuple. -/
def mkvalItems : List T → List (LuaVal D V) → Except LuaError (List V)
  | _, [] => .ok []
  | [], _ :: _ => .error (.error (lit "attempt to index a nil value"))
  | dtype :: dtypes, x :: xs => do
      let v ← mkvalOfDtype dtype x
      let vs ← mkvalItems dtypes xs
      return v :: vs

end

end Luastatus.Dbus

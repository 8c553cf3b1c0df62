import Luastatus.LibLs.TimeUtils
import Luastatus.Lua.Arg

/-!
# Options of a web request

`parse_opts` reads the `params` table of a request and sets the options of a libcurl handle.  Each
option is an entry of the table `OPTS`, with the function that checks its value and sets it.

libcurl is a parameter: a handle is given by the options that are set on it, and
`curl_easy_setopt` makes another one of it or fails.  `Curl.Documented` is what its documentation
says of resetting a handle and of the options that `make_request` sets.

An error is the text that is stored in `*out_errmsg`.
-/

namespace Luastatus.Web

open Text (Bytes lit decimal)
open Lua (Arg ArgKey Entries arrayValues cstr)
open LibLs

/-! ## libcurl -/

/-- `CURLoption`, as far as the plugin uses it. -/
inductive CurlOption where
  /-- `0`, in the entries of `OPTS` that do not use it. -/
  | zero
  | url
  | httpheader
  | timeoutMs
  | maxfilesize
  | autoreferer
  | customrequest
  | followlocation
  | interface
  | maxredirs
  | tcpKeepalive
  | proxy
  | proxyusername
  | proxypassword
  | copypostfields
  | writefunction
  | writedata
  | headerfunction
  | headerdata
  | verbose
  | debugfunction
  | debugdata
deriving DecidableEq, Repr

/-- The last argument of `curl_easy_setopt`. -/
inductive CurlValue where
  | str (s : Bytes)
  | long (n : Int)
  /-- A `struct curl_slist *`; the null pointer is the empty list. -/
  | slist (items : List Bytes)
  | callbackResp
  | callbackHeader
  | callbackDebug
  /-- `&out->body`. -/
  | responseBody
  /-- `&out->headers`. -/
  | responseHeaders
  /-- `pd`. -/
  | pluginData
deriving DecidableEq, Repr

/-- libcurl; `H` are the handles. -/
structure Curl (H : Type) where
  /-- What `curl_easy_init` returns, unless it fails. -/
  fresh : H
  /-- `curl_easy_reset`. -/
  reset : H → H
  /-- `curl_easy_setopt`; an error is what `curl_easy_strerror` says of it. -/
  setopt : H → CurlOption → CurlValue → Except Bytes H

/-- The options that `make_request` sets. -/
def CurlOption.CannotFail : CurlOption → Prop
  | .writefunction => True
  | .writedata => True
  | .headerfunction => True
  | .headerdata => True
  | .verbose => True
  | .debugfunction => True
  | .debugdata => True
  | _ => False

/-- What the documentation says: `curl_easy_reset` gives all options their default values back, and
`CURLE_OK` is returned for the options that `make_request` sets. -/
structure Curl.Documented {H : Type} (K : Curl H) : Prop where
  reset_eq : ∀ h, K.reset h = K.fresh
  setopt_ok : ∀ h which v, which.CannotFail → ∃ h', K.setopt h which v = .ok h'

/-! ## Errors -/

/-- What the build and the Lua state supply: the operations on doubles, `LS_LUA_MAXI`, and the type
names of the values that are not told apart here. -/
structure Host (F : Type) where
  double : DoubleOps F
  maxi : Nat
  /-- `luaL_typename` of a function, a userdata or a thread. -/
  otherTypename : Bytes
  /-- `luaL_typename` of a table's key that is neither a string nor a number. -/
  otherKeyTypename : Bytes

variable {F H : Type} (S : Host F) (K : Curl H)

/-- `luaL_typename`. -/
def Host.typename : Arg F → Bytes
  | .nil => lit "nil"
  | .boolean _ => lit "boolean"
  | .number _ => lit "number"
  | .string _ => lit "string"
  | .table _ _ => lit "table"
  | .other => S.otherTypename

/-- `luaL_typename` of a key. -/
def Host.keyTypename : ArgKey → Bytes
  | .str _ => lit "string"
  | .index _ => lit "number"
  | .number => lit "number"
  | .other => S.otherKeyTypename

/-- `set_type_error`, with the names of the types. -/
def setTypeError (found expected pre : Bytes) : Bytes :=
  pre ++ lit "expected " ++ expected ++ lit ", found " ++ found

/-- `set_curl_error`. -/
def setCurlError (descr : Bytes) : Bytes := lit "libcurl error: " ++ descr

/-! ## The parameters of a request -/

/-- A set of `REQ_FLAG_NEEDS_HEADERS` and `REQ_FLAG_DEBUG`. -/
structure ReqFlags where
  needsHeaders : Bool := false
  debug : Bool := false
deriving DecidableEq, Repr

/-- `|` on flags. -/
def ReqFlags.or (a b : ReqFlags) : ReqFlags :=
  ⟨a.needsHeaders || b.needsHeaders, a.debug || b.debug⟩

/-- `NextRequestParams`.  The null pointer is the empty list of headers. -/
structure NextRequestParams (H : Type) where
  C : H
  headers : List Bytes := []
  localReqFlags : ReqFlags := {}

/-- The parameters of a request on a new handle. -/
def Curl.freshParams : NextRequestParams H := { C := K.fresh }

/-- `curl_easy_setopt`, and `set_curl_error` if it fails. -/
def easySetopt (dst : NextRequestParams H) (which : CurlOption) (v : CurlValue) :
    Except Bytes (NextRequestParams H) :=
  match K.setopt dst.C which v with
  | .ok C => .ok { dst with C := C }
  | .error descr => .error (setCurlError descr)

/-! ## The values of options -/

/-- What an apply function that returns true leaves: the parameters, and the message if it has
stored one all the same. -/
abbrev Applied (H : Type) := NextRequestParams H × Option Bytes

/-- Set an option and store no message. -/
def applySetopt (dst : NextRequestParams H) (which : CurlOption) (v : CurlValue) :
    Except Bytes (Applied H) :=
  (easySetopt K dst which v).map fun dst => (dst, none)

/-- `apply_str`. -/
def applyStr (dst : NextRequestParams H) (value : Arg F) (which : CurlOption) :
    Except Bytes (Applied H) :=
  match value with
  | .string s => applySetopt K dst which (.str (cstr s))
  | v => .error (setTypeError (S.typename v) (lit "string") [])

/-- `apply_bool`. -/
def applyBool (dst : NextRequestParams H) (value : Arg F) (which : CurlOption) :
    Except Bytes (Applied H) :=
  match value with
  | .boolean flag => applySetopt K dst which (.long (if flag then 1 else 0))
  | v => .error (setTypeError (S.typename v) (lit "boolean") [])

/-- `fetch_int`.  Every negative number counts as -1. -/
def fetchInt (value : Arg F) : Except Bytes Int :=
  match value with
  | .number fp =>
      if S.double.isNan fp then .error (lit "value is NaN")
      else if S.double.lt fp (S.double.ofInt 0) then .ok (-1)
      else if S.double.lt (S.double.ofInt intMax) fp then
        .error (lit "value is greater than INT_MAX (" ++ decimal intMax ++ lit ")")
      else .ok (S.double.toInt fp)
  | v => .error (setTypeError (S.typename v) (lit "number") [])

/-- `apply_long_nonneg`.  A negative number gets its message and is passed on all the same. -/
def applyLongNonneg (dst : NextRequestParams H) (value : Arg F) (which : CurlOption) :
    Except Bytes (Applied H) := do
  let val ← fetchInt S value
  let stored := if val < 0 then some (lit "value is negative") else none
  let dst ← easySetopt K dst which (.long val)
  return (dst, stored)

/-- `apply_long_nonneg_or_minus1`. -/
def applyLongNonnegOrMinus1 (dst : NextRequestParams H) (value : Arg F) (which : CurlOption) :
    Except Bytes (Applied H) := do
  let val ← fetchInt S value
  applySetopt K dst which (.long val)

/-- `table_has_non_numeric_keys`. -/
def tableHasNonNumericKeys (entries : Entries F) : Bool :=
  entries.any fun e => match e.1 with
    | .index _ => false
    | .number => false
    | _ => true

/-- The loop of `apply_headers` over the values of the table. -/
def appendHeaders (headers : List Bytes) : List (Arg F) → Except Bytes (List Bytes)
  | [] => .ok headers
  | .string s :: vs => appendHeaders (headers ++ [cstr s]) vs
  | v :: _ => .error (setTypeError (S.typename v) (lit "string") (lit "array element: "))

/-- `apply_headers`. -/
def applyHeaders (dst : NextRequestParams H) (value : Arg F) (_which : CurlOption) :
    Except Bytes (Applied H) :=
  if dst.headers ≠ [] then .error (lit "the headers were passed multiple times, somehow")
  else
    match value with
    | .table len entries =>
        if tableHasNonNumericKeys entries then
          .error (lit "headers table contains non-numeric keys (it must be an array)")
        else do
          let headers ← appendHeaders S dst.headers (arrayValues len entries)
          applySetopt K { dst with headers := headers } .httpheader (.slist headers)
    | v => .error (setTypeError (S.typename v) (lit "table") [])

/-- `apply_timeout`. -/
def applyTimeout (dst : NextRequestParams H) (value : Arg F) (_which : CurlOption) :
    Except Bytes (Applied H) :=
  match value with
  | .number fp =>
      match lsDoubleToTDChecked S.double fp with
      | none => .error (lit "invalid timeout")
      | some TD =>
          let ms := lsTDToPollMsTmo S.double TD
          applySetopt K dst .timeoutMs (.long (if ms < 0 then intMax else ms))
  | v => .error (setTypeError (S.typename v) (lit "number") [])

/-! ## The table of options -/

/-- `Opt`. -/
structure Opt (F H : Type) where
  spelling : Bytes
  apply : NextRequestParams H → Arg F → CurlOption → Except Bytes (Applied H)
  which : CurlOption

/-- `OPTS`. -/
def opts : List (Opt F H) :=
  [⟨lit "url", applyStr S K, .url⟩,
    ⟨lit "headers", applyHeaders S K, .zero⟩,
    ⟨lit "timeout", applyTimeout S K, .zero⟩,
    ⟨lit "max_file_size", applyLongNonneg S K, .maxfilesize⟩,
    ⟨lit "auto_referer", applyBool S K, .autoreferer⟩,
    ⟨lit "custom_request", applyStr S K, .customrequest⟩,
    ⟨lit "follow_location", applyBool S K, .followlocation⟩,
    ⟨lit "interface", applyStr S K, .interface⟩,
    ⟨lit "max_redirs", applyLongNonnegOrMinus1 S K, .maxredirs⟩,
    ⟨lit "tcp_keepalive", applyBool S K, .tcpKeepalive⟩,
    ⟨lit "proxy", applyStr S K, .proxy⟩,
    ⟨lit "proxy_username", applyStr S K, .proxyusername⟩,
    ⟨lit "proxy_password", applyStr S K, .proxypassword⟩,
    ⟨lit "post_fields", applyStr S K, .copypostfields⟩]

/-- `REQUIRED_OPTION_INDEX`. -/
def requiredOptionIndex : Nat := 0

/-- `find_opt`. -/
def findOpt (spelling : Bytes) : Option (Nat × Opt F H) :=
  (opts S K).zipIdx.findSome? fun (opt, i) =>
    if spelling = opt.spelling then some (i, opt) else none

/-- `check_if_our_flag`. -/
def checkIfOurFlag (dst : NextRequestParams H) (s : Bytes) : Option (NextRequestParams H) :=
  if s = lit "with_headers" then
    some { dst with localReqFlags := { dst.localReqFlags with needsHeaders := true } }
  else if s = lit "debug" then
    some { dst with localReqFlags := { dst.localReqFlags with debug := true } }
  else none

/-- `handle_option`, with `*out_opt_idx`, where nothing is -1. -/
def handleOption (dst : NextRequestParams H) (key : ArgKey) (value : Arg F) :
    Except Bytes (NextRequestParams H × Option Nat) :=
  match key with
  | .str k =>
      match checkIfOurFlag dst (cstr k) with
      | some dst => .ok (dst, none)
      | none =>
          match findOpt S K (cstr k) with
          | none => .error (lit "unknown option '" ++ cstr k ++ lit "'")
          | some (optIdx, opt) =>
              match opt.apply dst value opt.which with
              | .error nested => .error (lit "option '" ++ cstr k ++ lit "': " ++ nested)
              | .ok (dst, _) => .ok (dst, some optIdx)
  | key => .error (setTypeError (S.keyTypename key) (lit "string") (lit "table key: "))

/-- The loop of `parse_opts`: the parameters, and `got_required_option`. -/
def parseOptsLoop (dst : NextRequestParams H) (gotRequiredOption : Bool) :
    Entries F → Except Bytes (NextRequestParams H × Bool)
  | [] => .ok (dst, gotRequiredOption)
  | (key, value) :: rest => do
      let (dst, optIdx) ← handleOption S K dst key value
      parseOptsLoop dst (gotRequiredOption || optIdx == some requiredOptionIndex) rest

/-- `parse_opts`.  It asserts that there are no headers, which `clear_next_req_params` sees to. -/
def parseOpts (dst : NextRequestParams H) (entries : Entries F) :
    Except Bytes (NextRequestParams H) := do
  let (dst, gotRequiredOption) ← parseOptsLoop S K dst false entries
  if gotRequiredOption then return dst
  else
    throw (lit "missing required option '" ++
      ((opts S K)[requiredOptionIndex]?.map (·.spelling)).getD [] ++ lit "'")

end Luastatus.Web

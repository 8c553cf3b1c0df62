import Luastatus.Web.Opts
import Mathlib.Logic.Function.Basic

/-!
# Kinds of options

`documented` is the table of options of the README.  An option has a kind, which tells what values
are valid, and a place where it is held: the handle, or one of the flags.

The functions that apply options are then one for each kind.  `applyKind_eq` says what such a
function does: it rejects the value, or passes something on to libcurl.  `handleOption_str` says the
same of a key and a value.
-/

namespace Luastatus.Web

open Text (Bytes lit decimal)
open Lua (Arg ArgKey Entries arrayValues cstr)
open LibLs

/-! ## The documented options -/

/-- What values are valid. -/
inductive Kind where
  | string
  | boolean
  /-- An array of strings. -/
  | headers
  /-- A time in seconds. -/
  | timeout
  /-- An integer from 0 to `INT_MAX`. -/
  | nonneg
  /-- The same or -1. -/
  | nonnegOrMinus1
deriving DecidableEq, Repr

/-- Where an option is held. -/
inductive Place where
  | handle (which : CurlOption)
  | needsHeaders
  | debug
deriving DecidableEq, Repr

/-- The options by their names. -/
def documented : List (Bytes × Kind × Place) :=
  [(lit "url", .string, .handle .url),
    (lit "headers", .headers, .handle .httpheader),
    (lit "timeout", .timeout, .handle .timeoutMs),
    (lit "max_file_size", .nonneg, .handle .maxfilesize),
    (lit "auto_referer", .boolean, .handle .autoreferer),
    (lit "custom_request", .string, .handle .customrequest),
    (lit "follow_location", .boolean, .handle .followlocation),
    (lit "interface", .string, .handle .interface),
    (lit "max_redirs", .nonnegOrMinus1, .handle .maxredirs),
    (lit "tcp_keepalive", .boolean, .handle .tcpKeepalive),
    (lit "proxy", .string, .handle .proxy),
    (lit "proxy_username", .string, .handle .proxyusername),
    (lit "proxy_password", .string, .handle .proxypassword),
    (lit "post_fields", .string, .handle .copypostfields),
    (lit "with_headers", .boolean, .needsHeaders),
    (lit "debug", .boolean, .debug)]

variable {F H : Type} (S : Host F) (K : Curl H)

/-! ## What the functions accept and pass on -/

/-- The function of a kind. -/
def applyKind (kind : Kind) (dst : NextRequestParams H) (value : Arg F) (which : CurlOption) :
    Except Bytes (Applied H) :=
  match kind with
  | .string => applyStr S K dst value which
  | .boolean => applyBool S K dst value which
  | .headers => applyHeaders S K dst value which
  | .timeout => applyTimeout S K dst value which
  | .nonneg => applyLongNonneg S K dst value which
  | .nonnegOrMinus1 => applyLongNonnegOrMinus1 S K dst value which

/-- The values that the function of a kind does not reject. -/
def AcceptedValue : Kind → Arg F → Prop
  | .string, .string _ => True
  | .boolean, .boolean _ => True
  | .headers, .table len entries =>
      tableHasNonNumericKeys entries = false ∧
        ∀ v ∈ arrayValues len entries, ∃ s, v = .string s
  | .timeout, .number x => S.double.le (S.double.ofInt 0) x
  | .nonneg, .number x => S.double.isNan x = false ∧ ¬ S.double.lt (S.double.ofInt intMax) x
  | .nonnegOrMinus1, .number x =>
      S.double.isNan x = false ∧ ¬ S.double.lt (S.double.ofInt intMax) x
  | _, _ => False

/-- The strings of a list, each up to its first NUL byte. -/
def headerStrings (vs : List (Arg F)) : List Bytes :=
  vs.filterMap fun
    | .string s => some (cstr s)
    | _ => none

/-- The milliseconds of a timeout. -/
def timeoutMs (x : F) : Int :=
  let TD := ⟨if S.double.lt (lsTmoMax S.double) x then lsTmoMax S.double else x⟩
  let ms := lsTDToPollMsTmo S.double TD
  if ms < 0 then intMax else ms

/-- What is passed to `curl_easy_setopt` for a value that is not rejected. -/
def passed : Kind → Arg F → CurlValue
  | .string, .string s => .str (cstr s)
  | .boolean, .boolean flag => .long (if flag then 1 else 0)
  | .headers, .table len entries => .slist (headerStrings (arrayValues len entries))
  | .timeout, .number x => .long (timeoutMs S x)
  | .nonneg, .number x =>
      .long (if S.double.lt x (S.double.ofInt 0) then -1 else S.double.toInt x)
  | .nonnegOrMinus1, .number x =>
      .long (if S.double.lt x (S.double.ofInt 0) then -1 else S.double.toInt x)
  | _, _ => .long 0

/-- The option that is set for a kind. -/
def Kind.option (which : CurlOption) : Kind → CurlOption
  | .headers => .httpheader
  | .timeout => .timeoutMs
  | _ => which

/-- The headers that are left in the parameters. -/
def leftHeaders (headers : List Bytes) : Kind → Arg F → List Bytes
  | .headers, .table len entries => headerStrings (arrayValues len entries)
  | _, _ => headers

/-- The message that is stored for a value that is not rejected. -/
def storedMessage : Kind → Arg F → Option Bytes
  | .nonneg, .number x =>
      if S.double.lt x (S.double.ofInt 0) then some (lit "value is negative") else none
  | _, _ => none

variable {S K}

theorem leftHeaders_of_ne {headers : List Bytes} {kind : Kind} {value : Arg F}
    (h : kind ≠ .headers) : leftHeaders headers kind value = headers := by
  cases kind with
  | headers => exact absurd rfl h
  | string | boolean | timeout | nonneg | nonnegOrMinus1 => rfl

/-- The values that are not rejected, kind by kind. -/
@[elab_as_elim]
theorem accepted_cases {motive : ∀ kind value, AcceptedValue S kind value → Prop}
    (string : ∀ s, motive .string (.string s) trivial)
    (boolean : ∀ flag, motive .boolean (.boolean flag) trivial)
    (headers : ∀ len entries (hkeys : tableHasNonNumericKeys entries = false)
      (hstrings : ∀ v ∈ arrayValues len entries, ∃ s, v = .string s),
      motive .headers (.table len entries) ⟨hkeys, hstrings⟩)
    (timeout : ∀ x (hx : S.double.le (S.double.ofInt 0) x), motive .timeout (.number x) hx)
    (nonneg : ∀ x (hnan : S.double.isNan x = false)
      (hmax : ¬ S.double.lt (S.double.ofInt intMax) x), motive .nonneg (.number x) ⟨hnan, hmax⟩)
    (nonnegOrMinus1 : ∀ x (hnan : S.double.isNan x = false)
      (hmax : ¬ S.double.lt (S.double.ofInt intMax) x),
      motive .nonnegOrMinus1 (.number x) ⟨hnan, hmax⟩)
    {kind : Kind} {value : Arg F} (h : AcceptedValue S kind value) : motive kind value h := by
  cases kind with
  | string =>
      cases value with
      | string s => exact string s
      | nil | boolean _ | number _ | table _ _ | other => cases h
  | boolean =>
      cases value with
      | boolean flag => exact boolean flag
      | nil | string _ | number _ | table _ _ | other => cases h
  | headers =>
      cases value with
      | table len entries => exact headers len entries h.1 h.2
      | nil | boolean _ | string _ | number _ | other => cases h
  | timeout =>
      cases value with
      | number x => exact timeout x h
      | nil | boolean _ | string _ | table _ _ | other => cases h
  | nonneg =>
      cases value with
      | number x => exact nonneg x h.1 h.2
      | nil | boolean _ | string _ | table _ _ | other => cases h
  | nonnegOrMinus1 =>
      cases value with
      | number x => exact nonnegOrMinus1 x h.1 h.2
      | nil | boolean _ | string _ | table _ _ | other => cases h

theorem appendHeaders_strings {headers : List Bytes} {vs : List (Arg F)}
    (h : ∀ v ∈ vs, ∃ s, v = .string s) :
    appendHeaders S headers vs = .ok (headers ++ headerStrings vs) := by
  induction vs generalizing headers with
  | nil => rw [appendHeaders, headerStrings, List.filterMap_nil, List.append_nil]
  | cons v vs ih =>
      obtain ⟨⟨s, rfl⟩, hvs⟩ := List.forall_mem_cons.mp h
      rw [appendHeaders, ih hvs, List.append_assoc]
      rfl

theorem appendHeaders_error {headers : List Bytes} {vs : List (Arg F)}
    (h : ¬ ∀ v ∈ vs, ∃ s, v = .string s) : ∃ e, appendHeaders S headers vs = .error e := by
  induction vs generalizing headers with
  | nil => exact absurd (by simp) h
  | cons v vs ih =>
      cases v with
      | string s =>
          refine ih fun hvs => h ?_
          exact List.forall_mem_cons.mpr ⟨⟨s, rfl⟩, hvs⟩
      | nil | boolean _ | number _ | table _ _ | other => exact ⟨_, rfl⟩

/-- `fetch_int`. -/
theorem fetchInt_accepted {x : F} (hnan : S.double.isNan x = false)
    (hmax : ¬ S.double.lt (S.double.ofInt intMax) x) :
    fetchInt S (.number x) =
      .ok (if S.double.lt x (S.double.ofInt 0) then -1 else S.double.toInt x) := by
  rw [fetchInt, hnan]
  simp only [Bool.false_eq_true, ↓reduceIte, if_neg hmax]
  split
  · rfl
  · rfl

theorem fetchInt_rejected (hD : S.double.Lawful) {value : Arg F}
    (h : ¬ AcceptedValue S .nonneg value) : ∃ e, fetchInt S value = .error e := by
  cases value with
  | number x =>
      rw [fetchInt]
      split
      · exact ⟨_, rfl⟩
      · rename_i hnan
        have hmax : S.double.lt (S.double.ofInt intMax) x := by
          by_contra hmax
          exact h ⟨Bool.not_eq_true _ ▸ hnan, hmax⟩
        have hneg : ¬ S.double.lt x (S.double.ofInt 0) := by
          intro hneg
          have hle := hD.le_trans (hD.lt_iff.mp hmax).1 (hD.lt_iff.mp hneg).1
          exact absurd ((hD.ofInt_le (by decide) (by decide) (by decide) (by decide)).mp hle)
            (by decide)
        rw [if_neg hneg, if_pos hmax]
        exact ⟨_, rfl⟩
  | nil | boolean _ | string _ | table _ _ | other => exact ⟨_, rfl⟩

/-- Numbers that `fetch_int` converts are in the range of `int`. -/
theorem range_of_accepted (hD : S.double.Lawful) {x : F} (hnan : S.double.isNan x = false)
    (hmax : ¬ S.double.lt (S.double.ofInt intMax) x) (hneg : ¬ S.double.lt x (S.double.ofInt 0)) :
    S.double.le (S.double.ofInt 0) x ∧ S.double.le x (S.double.ofInt intMax) := by
  have hx := hD.self_of_not_isNan hnan
  exact ⟨hD.le_of_not_lt hx (hD.ofInt_self (by decide) (by decide)) hneg,
    hD.le_of_not_lt (hD.ofInt_self (by decide) (by decide)) hx hmax⟩

/-- What the function of a kind does with a value that it does not reject. -/
theorem applyKind_accepted (hD : S.double.Lawful) {kind : Kind} {dst : NextRequestParams H}
    {value : Arg F} {which : CurlOption} (h : AcceptedValue S kind value)
    (hheaders : kind = .headers → dst.headers = []) :
    applyKind S K kind dst value which =
      (easySetopt K { dst with headers := leftHeaders dst.headers kind value }
        (kind.option which) (passed S kind value)).map (·, storedMessage S kind value) := by
  induction h using accepted_cases with
  | string s => rfl
  | boolean flag => rfl
  | headers len entries hkeys hstrings =>
      rw [applyKind, applyHeaders, if_neg (not_not.mpr (hheaders rfl)), hkeys]
      simp only [Bool.false_eq_true, ↓reduceIte, appendHeaders_strings hstrings, hheaders rfl]
      rfl
  | timeout x hx =>
      rw [applyKind, applyTimeout, lsDoubleToTDChecked, lsDoubleIsGoodTimeDelta]
      simp only [hx, ↓reduceIte]
      rfl
  | nonneg x hnan hmax =>
      have hstored : (if (if S.double.lt x (S.double.ofInt 0) then (-1 : Int)
          else S.double.toInt x) < 0 then some (lit "value is negative") else none) =
          storedMessage S .nonneg (.number x) := by
        rw [storedMessage]
        split
        · rfl
        · rename_i hneg
          obtain ⟨hlo, hhi⟩ := range_of_accepted hD hnan hmax hneg
          exact if_neg (Int.not_lt.mpr (hD.toInt hlo hhi).1.1)
      rw [applyKind, applyLongNonneg, fetchInt_accepted hnan hmax, ← hstored]
      rfl
  | nonnegOrMinus1 x hnan hmax =>
      rw [applyKind, applyLongNonnegOrMinus1, fetchInt_accepted hnan hmax]
      rfl

/-- And with one that it rejects. -/
theorem applyKind_rejected (hD : S.double.Lawful) {kind : Kind} {dst : NextRequestParams H}
    {value : Arg F} {which : CurlOption}
    (h : ¬ (AcceptedValue S kind value ∧ (kind = .headers → dst.headers = []))) :
    ∃ e, applyKind S K kind dst value which = .error e := by
  cases kind with
  | string =>
      cases value with
      | string s => exact absurd ⟨trivial, nofun⟩ h
      | nil | boolean _ | number _ | table _ _ | other => exact ⟨_, rfl⟩
  | boolean =>
      cases value with
      | boolean flag => exact absurd ⟨trivial, nofun⟩ h
      | nil | string _ | number _ | table _ _ | other => exact ⟨_, rfl⟩
  | headers =>
      rw [applyKind, applyHeaders.eq_def]
      split
      · exact ⟨_, rfl⟩
      · rename_i hheaders
        cases value with
        | table len entries =>
            simp only
            split
            · exact ⟨_, rfl⟩
            · rename_i hkeys
              have hstrings : ∃ e, appendHeaders S dst.headers (arrayValues len entries) =
                  .error e := appendHeaders_error fun hstrings =>
                h ⟨⟨Bool.not_eq_true _ ▸ hkeys, hstrings⟩, fun _ => not_not.mp hheaders⟩
              obtain ⟨e, he⟩ := hstrings
              rw [he]
              exact ⟨_, rfl⟩
        | nil | boolean _ | string _ | number _ | other => exact ⟨_, rfl⟩
  | timeout =>
      cases value with
      | number x =>
          have hbad : ¬ S.double.le (S.double.ofInt 0) x := fun hx => h ⟨hx, nofun⟩
          rw [applyKind, applyTimeout, lsDoubleToTDChecked, lsDoubleIsGoodTimeDelta]
          simp only [if_neg hbad]
          exact ⟨_, rfl⟩
      | nil | boolean _ | string _ | table _ _ | other => exact ⟨_, rfl⟩
  | nonneg =>
      obtain ⟨e, he⟩ := fetchInt_rejected hD fun hvalue => h ⟨hvalue, nofun⟩
      rw [applyKind, applyLongNonneg, he]
      exact ⟨_, rfl⟩
  | nonnegOrMinus1 =>
      have hvalue : ¬ AcceptedValue S .nonneg value := by
        intro hvalue
        refine h ⟨?_, nofun⟩
        cases value with
        | number x => exact hvalue
        | nil | boolean _ | string _ | table _ _ | other => cases hvalue
      obtain ⟨e, he⟩ := fetchInt_rejected hD hvalue
      rw [applyKind, applyLongNonnegOrMinus1, he]
      exact ⟨_, rfl⟩

/-! ## Keys -/

/-- What a key stands for: its option, up to the first NUL byte. -/
def target : ArgKey → Option (Kind × Place)
  | .str k => documented.lookup (cstr k)
  | _ => none

theorem mem_of_lookup {name : Bytes} {t : Kind × Place} (h : documented.lookup name = some t) :
    (name, t) ∈ documented := by
  obtain ⟨l₁, l₂, heq, -⟩ := List.lookup_eq_some_iff.mp h
  rw [heq]
  exact List.mem_append_right _ List.mem_cons_self

theorem place_of_headers {name : Bytes} {place : Place}
    (h : (name, Kind.headers, place) ∈ documented) : place = .handle .httpheader := by
  simp only [documented, List.mem_cons, List.not_mem_nil, or_false, Prod.mk.injEq, reduceCtorEq,
    false_and, and_false, false_or, true_and] at h
  exact h.2

/-- An option that is held by the handle is in `OPTS`. -/
theorem findOpt_of_lookup {name : Bytes} {kind : Kind} {which : CurlOption}
    (h : documented.lookup name = some (kind, .handle which)) (dst : NextRequestParams H) :
    checkIfOurFlag dst name = none ∧
      ∃ i opt, findOpt S K name = some (i, opt) ∧ opt.apply = applyKind S K kind ∧
        kind.option opt.which = which ∧ (i = requiredOptionIndex ↔ which = .url) := by
  have hmem := mem_of_lookup h
  simp only [documented, List.mem_cons, List.not_mem_nil, or_false, Prod.mk.injEq, reduceCtorEq,
    and_false, Place.handle.injEq] at hmem
  rcases hmem with h | h | h | h | h | h | h | h | h | h | h | h | h | h
  all_goals
    obtain ⟨rfl, rfl, rfl⟩ := h
    exact ⟨rfl, _, _, rfl, rfl, rfl, by decide⟩

theorem spelling_mem {opt : Opt F H} (h : opt ∈ opts S K) :
    opt.spelling ∈ documented.map Prod.fst := by
  have hnames : (opts S K).map Opt.spelling = (documented.take 14).map Prod.fst := rfl
  have hmem : opt.spelling ∈ (opts S K).map Opt.spelling := List.mem_map_of_mem h
  rw [hnames, List.map_take] at hmem
  exact List.mem_of_mem_take hmem

/-- A name that is not documented is unknown. -/
theorem findOpt_eq_none {name : Bytes} (h : documented.lookup name = none)
    (dst : NextRequestParams H) :
    checkIfOurFlag dst name = none ∧ findOpt S K name = none := by
  have hname : name ∉ documented.map Prod.fst := by
    intro hmem
    obtain ⟨p, hp, rfl⟩ := List.mem_map.mp hmem
    have hne := List.lookup_eq_none_iff.mp h p hp
    simp at hne
  have hne {other : Bytes} (hother : other ∈ documented.map Prod.fst) : name ≠ other := by
    rintro rfl
    exact hname hother
  constructor
  · rw [checkIfOurFlag, if_neg (hne (by decide)), if_neg (hne (by decide))]
  · refine List.findSome?_eq_none_iff.mpr ?_
    rintro ⟨opt, i⟩ hopt
    exact if_neg (hne (spelling_mem (List.fst_mem_of_mem_zipIdx hopt)))

/-- The parameters with a flag set. -/
def withFlag (dst : NextRequestParams H) : Place → NextRequestParams H
  | .needsHeaders =>
      { dst with localReqFlags := { dst.localReqFlags with needsHeaders := true } }
  | .debug => { dst with localReqFlags := { dst.localReqFlags with debug := true } }
  | .handle _ => dst

/-- An option that is a flag is set, whatever the value. -/
theorem checkIfOurFlag_of_lookup {name : Bytes} {kind : Kind} {place : Place}
    (h : documented.lookup name = some (kind, place)) (hplace : ∀ which, place ≠ .handle which)
    (dst : NextRequestParams H) : checkIfOurFlag dst name = some (withFlag dst place) := by
  have hmem := mem_of_lookup h
  cases place with
  | handle which => exact absurd rfl (hplace which)
  | needsHeaders | debug =>
      simp only [documented, List.mem_cons, List.not_mem_nil, or_false, Prod.mk.injEq,
        reduceCtorEq, and_false, false_or, and_true] at hmem
      obtain ⟨rfl, -⟩ := hmem
      rfl

/-! ## What a key and a value do -/

/-- The entry is not rejected, unless there are headers already. -/
def AcceptedEntry (S : Host F) (e : ArgKey × Arg F) : Prop :=
  ∃ kind place, target e.1 = some (kind, place) ∧
    ∀ which, place = .handle which → AcceptedValue S kind e.2

/-- The key stands for the headers. -/
def IsHeaders (key : ArgKey) : Prop := ∃ place, target key = some (.headers, place)

/-- What a place is set to.  For a flag that does not depend on the value. -/
def written (S : Host F) (kind : Kind) (place : Place) (value : Arg F) : CurlValue :=
  match place with
  | .handle _ => passed S kind value
  | .needsHeaders => .long 1
  | .debug => .long 1

/-- What an entry that is not rejected sets, and to what. -/
def write (S : Host F) (e : ArgKey × Arg F) : Option (Place × CurlValue) :=
  (target e.1).map fun (kind, place) => (place, written S kind place e.2)

/-- What a place holds; nothing is the default. -/
def held (get : H → CurlOption → Option CurlValue) (X : NextRequestParams H) :
    Place → Option CurlValue
  | .handle which => get X.C which
  | .needsHeaders => if X.localReqFlags.needsHeaders then some (.long 1) else none
  | .debug => if X.localReqFlags.debug then some (.long 1) else none

/-- libcurl, where `curl_easy_setopt` sets one option and does not fail.  `get` is what an option of
a handle has been set to. -/
structure Curl.Settable (K : Curl H) (get : H → CurlOption → Option CurlValue) : Prop where
  get_fresh : ∀ which, get K.fresh which = none
  setopt : ∀ h which v,
    ∃ h', K.setopt h which v = .ok h' ∧ get h' = Function.update (get h) which (some v)

variable {get : H → CurlOption → Option CurlValue}

theorem held_withFlag {place : Place} (hplace : ∀ which, place ≠ .handle which)
    (dst : NextRequestParams H) :
    held get (withFlag dst place) = Function.update (held get dst) place (some (.long 1)) := by
  funext p
  cases place with
  | handle which => exact absurd rfl (hplace which)
  | needsHeaders | debug =>
      cases p <;> rfl

theorem held_setopt {dst : NextRequestParams H} {C : H} {headers : List Bytes}
    {which : CurlOption} {v : CurlValue}
    (h : get C = Function.update (get dst.C) which (some v)) :
    held get { dst with C := C, headers := headers } =
      Function.update (held get dst) (.handle which) (some v) := by
  funext p
  cases p with
  | handle which' => simp [held, h, Function.update]
  | needsHeaders | debug => simp [held, Function.update]

/-- Some function stores a message for an entry: it fails, or it has stored one all the same. -/
def EntryStores (S : Host F) (K : Curl H) (dst : NextRequestParams H) (key : ArgKey)
    (value : Arg F) : Prop :=
  (∃ e, handleOption S K dst key value = .error e) ∨
    ∃ k i opt dst' message, key = .str k ∧ checkIfOurFlag dst (cstr k) = none ∧
      findOpt S K (cstr k) = some (i, opt) ∧
      opt.apply dst value opt.which = .ok (dst', some message)

/-- An entry for an option of the handle. -/
theorem handleOption_handle {k : Bytes} {kind : Kind} {which : CurlOption}
    (h : documented.lookup (cstr k) = some (kind, .handle which)) (dst : NextRequestParams H)
    (value : Arg F) :
    ∃ i w, kind.option w = which ∧ (i = requiredOptionIndex ↔ which = .url) ∧
      (∀ nested, applyKind S K kind dst value w = .error nested →
        ∃ e, handleOption S K dst (.str k) value = .error e) ∧
      (∀ X stored, applyKind S K kind dst value w = .ok (X, stored) →
        handleOption S K dst (.str k) value = .ok (X, some i)) := by
  obtain ⟨hflag, i, opt, hfind, happly, hoption, hindex⟩ :=
    findOpt_of_lookup (S := S) (K := K) h dst
  refine ⟨i, opt.which, hoption, hindex, fun nested hnested => ?_, fun X stored hok => ?_⟩
  · rw [← happly] at hnested
    simp only [handleOption, hflag, hfind, hnested]
    exact ⟨_, rfl⟩
  · rw [← happly] at hok
    simp only [handleOption, hflag, hfind, hok]

/-- An entry for a flag. -/
theorem handleOption_flag {k : Bytes} {kind : Kind} {place : Place}
    (h : documented.lookup (cstr k) = some (kind, place)) (hplace : ∀ which, place ≠ .handle which)
    (dst : NextRequestParams H) (value : Arg F) :
    handleOption S K dst (.str k) value = .ok (withFlag dst place, none) := by
  rw [handleOption, checkIfOurFlag_of_lookup h hplace]

theorem handleOption_rejected (hD : S.double.Lawful) {dst : NextRequestParams H} {key : ArgKey}
    {value : Arg F}
    (h : ¬ (AcceptedEntry S (key, value) ∧ (IsHeaders key → dst.headers = []))) :
    ∃ e, handleOption S K dst key value = .error e := by
  cases key with
  | str k =>
      cases hname : documented.lookup (cstr k) with
      | none =>
          obtain ⟨hflag, hfind⟩ := findOpt_eq_none (S := S) (K := K) hname dst
          rw [handleOption, hflag, hfind]
          exact ⟨_, rfl⟩
      | some t =>
          obtain ⟨kind, place⟩ := t
          cases place with
          | handle which =>
              obtain ⟨i, w, -, -, herror, -⟩ :=
                handleOption_handle (S := S) (K := K) hname dst value
              have hvalue : ¬ (AcceptedValue S kind value ∧
                  (kind = .headers → dst.headers = [])) := by
                rintro ⟨hvalue, hheaders⟩
                refine h ⟨⟨kind, _, hname, fun _ _ => hvalue⟩, ?_⟩
                rintro ⟨place, hplace⟩
                cases hname.symm.trans hplace
                exact hheaders rfl
              have hrejected : ∃ e, applyKind S K kind dst value w = .error e :=
                applyKind_rejected hD hvalue
              obtain ⟨e, he⟩ := hrejected
              exact herror e he
          | needsHeaders | debug =>
              refine absurd ⟨⟨kind, _, hname, by rintro _ ⟨⟩⟩, ?_⟩ h
              rintro ⟨place, hplace⟩
              cases hname.symm.trans hplace
              cases place_of_headers (mem_of_lookup hname)
  | index _ | number | other => exact ⟨_, rfl⟩

/-- What an entry that is not rejected does. -/
theorem handleOption_accepted (hD : S.double.Lawful) (hK : K.Settable get)
    {dst : NextRequestParams H} {key : ArgKey} {value : Arg F}
    (h : AcceptedEntry S (key, value)) (hheaders : IsHeaders key → dst.headers = []) :
    ∃ r i w, handleOption S K dst key value = .ok (r, i) ∧ write S (key, value) = some w ∧
      held get r = Function.update (held get dst) w.1 (some w.2) ∧
      (i = some requiredOptionIndex ↔ w.1 = .handle .url) ∧
      (IsHeaders key → r.headers = leftHeaders [] .headers value) ∧
      (¬ IsHeaders key → r.headers = dst.headers) := by
  obtain ⟨kind, place, htarget, haccepted⟩ := h
  cases key with
  | str k =>
      have hwrite : write S (.str k, value) = some _ := congrArg (Option.map _) htarget
      cases place with
      | handle which =>
          obtain ⟨i, w, hoption, hindex, -, hok⟩ :=
            handleOption_handle (S := S) (K := K) htarget dst value
          have hkind (hk : kind = .headers) : dst.headers = [] := hheaders ⟨_, hk ▸ htarget⟩
          have happly : applyKind S K kind dst value w = _ :=
            applyKind_accepted hD (haccepted which rfl) hkind
          obtain ⟨C, hset, hget⟩ := hK.setopt dst.C which (passed S kind value)
          rw [hoption, easySetopt, hset] at happly
          refine ⟨_, _, _, hok _ _ happly, hwrite, held_setopt hget, ?_, ?_, ?_⟩
          · rw [Option.some.injEq, Place.handle.injEq]
            exact hindex
          · rintro ⟨p, hp⟩
            cases htarget.symm.trans hp
            change leftHeaders dst.headers .headers value = _
            rw [hkind rfl]
          · intro hno
            exact leftHeaders_of_ne fun hk => hno ⟨_, hk ▸ htarget⟩
      | needsHeaders | debug =>
          refine ⟨_, _, _, handleOption_flag htarget (by rintro _ ⟨⟩) dst value, hwrite,
            held_withFlag (by rintro _ ⟨⟩) dst, iff_of_false nofun nofun, ?_, fun _ => rfl⟩
          rintro ⟨p, hp⟩
          cases htarget.symm.trans hp
          cases place_of_headers (mem_of_lookup htarget)
  | index _ | number | other => cases htarget

/-- Nothing is stored for an entry that is not rejected, unless for its value. -/
theorem not_entryStores (hD : S.double.Lawful) (hK : K.Settable get)
    {dst : NextRequestParams H} {key : ArgKey} {value : Arg F}
    (h : AcceptedEntry S (key, value)) (hheaders : IsHeaders key → dst.headers = [])
    (hnone : ∀ kind which, target key = some (kind, .handle which) →
      storedMessage S kind value = none) :
    ¬ EntryStores S K dst key value := by
  rintro (⟨e, he⟩ | ⟨k, i, opt, dst', message, rfl, hflag, hfind, happly⟩)
  · obtain ⟨r, i, w, hok, -⟩ := handleOption_accepted hD hK h hheaders
    cases he.symm.trans hok
  · obtain ⟨kind, place, htarget, haccepted⟩ := h
    cases place with
    | handle which =>
        obtain ⟨-, i', opt', hfind', happly', -, -⟩ :=
          findOpt_of_lookup (S := S) (K := K) htarget dst
        cases hfind.symm.trans hfind'
        have hkind (hk : kind = .headers) : dst.headers = [] := hheaders ⟨_, hk ▸ htarget⟩
        rw [happly', applyKind_accepted hD (haccepted which rfl) hkind,
          hnone kind which htarget] at happly
        cases hset : easySetopt K { dst with headers := leftHeaders dst.headers kind value }
          (kind.option opt.which) (passed S kind value) with
        | error e =>
            rw [hset] at happly
            cases happly
        | ok X =>
            rw [hset] at happly
            cases happly
    | needsHeaders | debug =>
        rw [checkIfOurFlag_of_lookup htarget (by rintro _ ⟨⟩)] at hflag
        cases hflag

end Luastatus.Web

import Luastatus.Lib.Assign
import Luastatus.Web.Kinds
import Luastatus.Web.Protocol

/-!
# Validation of the options

`Valid` are the tables of options that `parse_opts` is to accept.  `Validates` says that it accepts
these and no others, that everything is held as it is given, and that it fails if and only if a
message is stored.

`parse_opts` accepts more (`AcceptedTable`), and holds the flags and some values otherwise.  A table
is validated if and only if it is not accepted, or every entry is exact
(`parseOpts_validates_iff`).
-/

namespace Luastatus.Web

open Text (Byte Bytes lit)
open Lua (Arg ArgKey Entries IsArray arrayValues cstr)
open LibLs
open Assign

variable {F H : Type} (S : Host F) (K : Curl H) (get : H → CurlOption → Option CurlValue)

/-! ## What is valid -/

/-- The number is the integer. -/
def IsInteger (O : DoubleOps F) (x : F) (n : Int) : Prop :=
  O.le x (O.ofInt n) ∧ O.le (O.ofInt n) x

/-- The time has as many milliseconds, without the fraction and up to `INT_MAX`. -/
def Milliseconds (O : DoubleOps F) (x : F) (ms : Int) : Prop :=
  if O.le (O.ofInt intMax) (O.mul x (O.ofInt 1000)) then ms = intMax
  else 0 ≤ ms ∧ ms ≤ intMax ∧ O.le (O.ofInt ms) (O.mul x (O.ofInt 1000)) ∧
    O.lt (O.mul x (O.ofInt 1000)) (O.ofInt (ms + 1))

/-- The value is valid for an option of the kind. -/
def ValidValue : Kind → Arg F → Prop
  | .string, .string _ => True
  | .boolean, .boolean _ => True
  | .headers, .table len entries =>
      ∃ items : List Bytes, IsArray len entries (items.map .string)
  | .timeout, .number x => S.double.le (S.double.ofInt 0) x
  | .nonneg, .number x => ∃ n : Int, (0 ≤ n ∧ n ≤ intMax) ∧ IsInteger S.double x n
  | .nonnegOrMinus1, .number x => ∃ n : Int, (-1 ≤ n ∧ n ≤ intMax) ∧ IsInteger S.double x n
  | _, _ => False

/-- What is held is the value.  Zero milliseconds are no timeout, and only the time zero. -/
def Denotes : Kind → Arg F → CurlValue → Prop
  | .string, .string s, v => v = .str s
  | .boolean, .boolean flag, v => v = .long (if flag then 1 else 0)
  | .headers, .table len entries, v =>
      ∃ items : List Bytes, IsArray len entries (items.map .string) ∧ v = .slist items
  | .timeout, .number x, v =>
      ∃ ms, Milliseconds S.double x ms ∧ (ms = 0 → S.double.le x (S.double.ofInt 0)) ∧ v = .long ms
  | .nonneg, .number x, v =>
      ∃ n : Int, (0 ≤ n ∧ n ≤ intMax) ∧ IsInteger S.double x n ∧ v = .long n
  | .nonnegOrMinus1, .number x, v =>
      ∃ n : Int, (-1 ≤ n ∧ n ≤ intMax) ∧ IsInteger S.double x n ∧ v = .long n
  | _, _, _ => False

/-- A table of options that is to be accepted. -/
def Valid (entries : Entries F) : Prop :=
  (∃ value, (.str (lit "url"), value) ∈ entries) ∧
    ∀ e ∈ entries, ∃ k kind place, e.1 = .str k ∧
      documented.lookup k = some (kind, place) ∧ ValidValue S kind e.2

/-- Boolean options are set if and only if they are given as true, and others hold what is given. -/
def Faithful (X : NextRequestParams H) (entries : Entries F) : Prop :=
  ∀ name kind place, (name, kind, place) ∈ documented →
    (kind = .boolean →
      (held get X place = some (.long 1) ↔ (.str name, .boolean true) ∈ entries)) ∧
    (kind ≠ .boolean → ∀ value, (.str name, value) ∈ entries →
      ∃ v, held get X place = some v ∧ Denotes S kind value v)

/-- Some function stores a message in the loop of `parse_opts`. -/
def LoopStores (dst : NextRequestParams H) : Entries F → Prop
  | [] => False
  | (key, value) :: rest =>
      EntryStores S K dst key value ∨
        ∃ dst' i, handleOption S K dst key value = .ok (dst', i) ∧ LoopStores dst' rest

/-- Some function stores a message. -/
def Stores (entries : Entries F) : Prop :=
  LoopStores S K K.freshParams entries ∨ ∃ e, parseOpts S K K.freshParams entries = .error e

/-- The options are validated. -/
def Validates (entries : Entries F) : Prop :=
  ((∃ X, parseOpts S K K.freshParams entries = .ok X) ↔ Valid S entries) ∧
    (∀ X, parseOpts S K K.freshParams entries = .ok X → Faithful S get X entries) ∧
    ((∃ e, parseOpts S K K.freshParams entries = .error e) ↔ Stores S K entries)

/-- A Lua table has a string as a key only once. -/
def StringKeysDistinct (entries : Entries F) : Prop :=
  entries.Pairwise fun e e' => ∀ k, e.1 = .str k → e'.1 ≠ .str k

/-! ## What is accepted -/

/-- After a table of headers that is not empty there is no other one.  Two keys can stand for the
headers if one has a NUL byte. -/
def HeadersOnce (entries : Entries F) : Prop :=
  entries.Pairwise fun e e' => IsHeaders e.1 → IsHeaders e'.1 → leftHeaders [] .headers e.2 = []

/-- The table is accepted: each entry is, the headers are given once, and some key stands for the
URL. -/
def AcceptedTable (entries : Entries F) : Prop :=
  (∀ e ∈ entries, AcceptedEntry S e) ∧ HeadersOnce entries ∧
    ∃ e ∈ entries, ∃ kind, target e.1 = some (kind, .handle .url)

/-- A value that is held as it is given, if it is accepted: a string has no NUL byte, headers are an
array of such strings, a timeout is zero or at least a millisecond, and an integer is one. -/
def ExactValue : Kind → Arg F → Prop
  | .string, .string s => 0 ∉ s
  | .headers, .table len entries =>
      IsArray len entries (arrayValues len entries) ∧
        ∀ s, .string s ∈ arrayValues len entries → 0 ∉ s
  | .timeout, .number x =>
      S.double.le x (S.double.ofInt 0) ∨
        S.double.le (S.double.ofInt 1) (S.double.mul x (S.double.ofInt 1000))
  | .nonneg, .number x => ∃ n : Int, (0 ≤ n ∧ n ≤ intMax) ∧ IsInteger S.double x n
  | .nonnegOrMinus1, .number x => ∃ n : Int, (-1 ≤ n ∧ n ≤ intMax) ∧ IsInteger S.double x n
  | _, _ => True

/-- An entry that is held as it is given, if it is accepted: the key has no NUL byte, a flag is
true, and another value is exact. -/
def ExactEntry (e : ArgKey × Arg F) : Prop :=
  ∀ k, e.1 = .str k → 0 ∉ k ∧ ∀ kind place, documented.lookup k = some (kind, place) →
    match place with
    | .handle _ => ExactValue S kind e.2
    | _ => e.2 = .boolean true

/-! ## Values -/

section Values

variable {S} (hD : S.double.Lawful)

include hD

theorem accepted_of_isInteger {x : F} {n : Int} (hlo : -1 ≤ n) (hhi : n ≤ intMax)
    (h : IsInteger S.double x n) :
    S.double.isNan x = false ∧ ¬ S.double.lt (S.double.ofInt intMax) x := by
  constructor
  · rw [← Bool.not_eq_true, hD.isNan_iff, not_not]
    exact (hD.le_refl h.1).1
  · intro hlt
    refine (hD.lt_iff.mp hlt).2 (hD.le_trans h.1 ?_)
    exact (hD.ofInt_le hlo (by simp only [intMax] at hhi; omega) (by decide) (by decide)).mpr hhi

/-- An integer is converted to itself. -/
theorem toInt_of_isInteger {x : F} {n : Int} (hlo : -1 ≤ n) (hhi : n ≤ intMax)
    (h : IsInteger S.double x n) :
    (if S.double.lt x (S.double.ofInt 0) then -1 else S.double.toInt x) = n := by
  have hhi' : n ≤ 2 ^ 31 := by
    simp only [intMax] at hhi
    omega
  have hle {m : Int} (hmlo : -1 ≤ m) (hmhi : m ≤ 2 ^ 31) := hD.ofInt_le hlo hhi' hmlo hmhi
  have hge {m : Int} (hmlo : -1 ≤ m) (hmhi : m ≤ 2 ^ 31) := hD.ofInt_le hmlo hmhi hlo hhi'
  split
  · rename_i hneg
    by_contra hne
    have hle0 := (hge (m := 0) (by decide) (by decide)).mpr (by omega)
    exact (hD.lt_iff.mp hneg).2 (hD.le_trans hle0 h.2)
  · rename_i hneg
    have hx := (hD.le_refl h.1).1
    have hzero := hD.le_of_not_lt hx (hD.ofInt_self (by decide) (by decide)) hneg
    have hmax := hD.le_trans h.1 ((hle (m := intMax) (by decide) (by decide)).mpr hhi)
    obtain ⟨⟨htlo, hthi⟩, htle, htlt⟩ := hD.toInt hzero hmax
    simp only [intMax] at hthi
    have h1 := (hge (by omega) (by omega)).mp (hD.le_trans htle h.1)
    have h2 : ¬ S.double.toInt x + 1 ≤ n := by
      intro hle'
      have := (hge (by omega) (by omega)).mpr hle'
      exact (hD.lt_iff.mp htlt).2 (hD.le_trans this h.2)
    omega

/-- A timeout is converted to milliseconds. -/
theorem milliseconds_timeoutMs {x : F} (hx : S.double.le (S.double.ofInt 0) x) :
    Milliseconds S.double x (timeoutMs S x) := by
  have hmax := hD.ofInt_self (n := intMax) (by decide) (by decide)
  have hmul := hD.le_mul hx
  have htmo : lsTmoMax S.double = S.double.ofInt intMax := rfl
  rw [Milliseconds, timeoutMs, htmo]
  rcases Bool.eq_false_or_eq_true (S.double.le (S.double.ofInt intMax) x) with hforever | hforever
  · -- forever
    have hms (y : F) (hy : S.double.le (S.double.ofInt intMax) y) :
        lsTDToPollMsTmo S.double ⟨y⟩ = -1 := if_pos hy
    rw [if_pos (hD.le_trans hforever hmul), hms]
    · rfl
    · split
      · exact hmax
      · exact hforever
  · have hlt : ¬ S.double.lt (S.double.ofInt intMax) x := by
      intro hlt
      rw [(hD.lt_iff.mp hlt).1] at hforever
      cases hforever
    have hms : lsTDToPollMsTmo S.double ⟨x⟩ =
        if S.double.lt (S.double.ofInt intMax) (S.double.mul x (S.double.ofInt 1000)) then
          (intMax : Int)
        else S.double.toInt (S.double.mul x (S.double.ofInt 1000)) :=
      if_neg fun hle => Bool.false_ne_true (hforever.symm.trans hle)
    simp only [if_neg hlt, hms]
    rcases Bool.eq_false_or_eq_true
      (S.double.lt (S.double.ofInt intMax) (S.double.mul x (S.double.ofInt 1000))) with hbig | hbig
    · simp only [hbig, (hD.lt_iff.mp hbig).1, ↓reduceIte]
      rfl
    · have hzero := hD.le_trans hx hmul
      have hle := hD.le_of_not_lt hmax (hD.le_refl hmul).2 (Bool.eq_false_iff.mp hbig)
      obtain ⟨⟨hlo, hhi⟩, htle, htlt⟩ := hD.toInt hzero hle
      simp only [hbig, Bool.false_eq_true, ↓reduceIte, if_neg (Int.not_lt.mpr hlo)]
      split
      · rename_i hreached
        -- the number is `INT_MAX` itself
        have hnot : ¬ S.double.toInt (S.double.mul x (S.double.ofInt 1000)) + 1 ≤ intMax := by
          intro hle'
          simp only [intMax] at hle'
          have hnext := (hD.ofInt_le (by omega) (by omega) (by decide) (by decide)).mpr hle'
          exact (hD.lt_iff.mp htlt).2 (hD.le_trans hnext hreached)
        omega
      · exact ⟨hlo, hhi, htle, htlt⟩

/-- A timeout above zero is held as more than zero if and only if it is at least a millisecond. -/
theorem timeoutMs_zero_iff {x : F} (hx : S.double.le (S.double.ofInt 0) x) :
    (timeoutMs S x = 0 → S.double.le x (S.double.ofInt 0)) ↔ ExactValue S .timeout (.number x) := by
  have hspec := milliseconds_timeoutMs hD hx
  rw [Milliseconds] at hspec
  have hone {n : Int} (hlo : 1 ≤ n) (hhi : n ≤ 2 ^ 31) :=
    (hD.ofInt_le (m := 1) (by decide) (by decide) (by omega) hhi).mpr hlo
  constructor
  · intro h
    split at hspec
    · rename_i hreached
      exact .inr (hD.le_trans (hone (by decide) (by decide)) hreached)
    · obtain ⟨hlo, hhi, hle, -⟩ := hspec
      rcases hlo.eq_or_lt with hzero | hpos
      · exact .inl (h hzero.symm)
      · simp only [intMax] at hhi
        exact .inr (hD.le_trans (hone (by omega) (by omega)) hle)
  · rintro (hle | hle) hzero
    · exact hle
    · rw [hzero] at hspec
      split at hspec
      · cases hspec
      · exact absurd hle (hD.lt_iff.mp hspec.2.2.2).2

omit hD in
theorem headerStrings_map (items : List Bytes) :
    headerStrings (items.map (.string : Bytes → Arg F)) = items.map cstr := by
  induction items with
  | nil => rfl
  | cons s items ih => exact congrArg (cstr s :: ·) ih

omit hD in
theorem map_cstr_eq_iff {items : List Bytes} : items.map cstr = items ↔ ∀ s ∈ items, 0 ∉ s := by
  have h : items.map cstr = items.map id ↔ ∀ s ∈ items, cstr s = id s := List.map_inj_left
  rw [List.map_id] at h
  exact h.trans (forall₂_congr fun s _ => Lua.cstr_eq_iff)

omit hD in
theorem exists_strings {vs : List (Arg F)} (h : ∀ v ∈ vs, ∃ s, v = .string s) :
    ∃ items : List Bytes, vs = items.map .string := by
  induction vs with
  | nil => exact ⟨[], rfl⟩
  | cons v vs ih =>
      obtain ⟨⟨s, rfl⟩, hvs⟩ := List.forall_mem_cons.mp h
      obtain ⟨items, rfl⟩ := ih hvs
      exact ⟨s :: items, rfl⟩

/-- A value that is accepted is held as it is given if and only if it is exact. -/
theorem denotes_passed_iff {kind : Kind} {value : Arg F} (h : AcceptedValue S kind value) :
    Denotes S kind value (passed S kind value) ↔ ExactValue S kind value := by
  induction h using accepted_cases with
  | string s => rw [Denotes, passed, CurlValue.str.injEq, ExactValue, Lua.cstr_eq_iff]
  | boolean flag => exact iff_of_true rfl trivial
  | headers len entries hkeys hstrings =>
      obtain ⟨items, hitems⟩ := exists_strings hstrings
      have hmem (s : Bytes) : Arg.string s ∈ items.map (.string : Bytes → Arg F) ↔ s ∈ items :=
        List.mem_map_of_injective fun _ _ => Arg.string.inj
      rw [Denotes, passed, ExactValue, hitems, headerStrings_map]
      simp only [hmem, ← map_cstr_eq_iff]
      constructor
      · rintro ⟨items', harray, heq⟩
        have hvalues := Lua.arrayValues_of_isArray harray
        rw [hitems] at hvalues
        obtain rfl := List.map_injective_iff.mpr (fun _ _ => Arg.string.inj) hvalues
        exact ⟨harray, CurlValue.slist.inj heq⟩
      · rintro ⟨harray, hnul⟩
        exact ⟨items, harray, congrArg _ hnul⟩
  | timeout x hx =>
      rw [Denotes, ← timeoutMs_zero_iff hD hx]
      constructor
      · rintro ⟨ms, -, hzero, hms⟩
        cases hms
        exact hzero
      · intro hzero
        exact ⟨_, milliseconds_timeoutMs hD hx, hzero, rfl⟩
  | nonneg x hnan hmax =>
      constructor
      · rintro ⟨n, hrange, hint, -⟩
        exact ⟨n, hrange, hint⟩
      · rintro ⟨n, ⟨hlo, hhi⟩, hint⟩
        refine ⟨n, ⟨hlo, hhi⟩, hint, ?_⟩
        rw [passed, toInt_of_isInteger hD (by omega) hhi hint]
  | nonnegOrMinus1 x hnan hmax =>
      constructor
      · rintro ⟨n, hrange, hint, -⟩
        exact ⟨n, hrange, hint⟩
      · rintro ⟨n, ⟨hlo, hhi⟩, hint⟩
        refine ⟨n, ⟨hlo, hhi⟩, hint, ?_⟩
        rw [passed, toInt_of_isInteger hD hlo hhi hint]

theorem accepted_of_validValue {kind : Kind} {value : Arg F} (h : ValidValue S kind value) :
    AcceptedValue S kind value := by
  cases kind with
  | string =>
      cases value with
      | string s => trivial
      | nil | boolean _ | number _ | table _ _ | other => cases h
  | boolean =>
      cases value with
      | boolean flag => trivial
      | nil | string _ | number _ | table _ _ | other => cases h
  | headers =>
      cases value with
      | table len entries =>
          obtain ⟨items, harray⟩ := h
          constructor
          · refine List.any_eq_false.mpr fun e he => ?_
            obtain ⟨p, -, rfl⟩ := List.mem_map.mp (harray.2.mem_iff.mp he)
            exact Bool.false_ne_true
          · intro v hv
            rw [Lua.arrayValues_of_isArray harray] at hv
            obtain ⟨s, -, rfl⟩ := List.mem_map.mp hv
            exact ⟨s, rfl⟩
      | nil | boolean _ | string _ | number _ | other => cases h
  | timeout =>
      cases value with
      | number x => exact h
      | nil | boolean _ | string _ | table _ _ | other => cases h
  | nonneg =>
      cases value with
      | number x =>
          obtain ⟨n, ⟨hlo, hhi⟩, hint⟩ := h
          exact accepted_of_isInteger hD (by omega) hhi hint
      | nil | boolean _ | string _ | table _ _ | other => cases h
  | nonnegOrMinus1 =>
      cases value with
      | number x =>
          obtain ⟨n, ⟨hlo, hhi⟩, hint⟩ := h
          exact accepted_of_isInteger hD hlo hhi hint
      | nil | boolean _ | string _ | table _ _ | other => cases h

omit hD in
theorem validValue_of_exact {kind : Kind} {value : Arg F} (h : AcceptedValue S kind value)
    (hexact : ExactValue S kind value) : ValidValue S kind value := by
  induction h using accepted_cases with
  | string s => trivial
  | boolean flag => trivial
  | headers len entries hkeys hstrings =>
      obtain ⟨items, hitems⟩ := exists_strings hstrings
      exact ⟨items, hitems ▸ hexact.1⟩
  | timeout x hx => exact hx
  | nonneg x hnan hmax => exact hexact
  | nonnegOrMinus1 x hnan hmax => exact hexact

/-- Nothing is stored for a value that is exact. -/
theorem storedMessage_of_exact {kind : Kind} {value : Arg F} (hexact : ExactValue S kind value) :
    storedMessage S kind value = none := by
  cases kind with
  | nonneg =>
      cases value with
      | number x =>
          obtain ⟨n, ⟨hlo, hhi⟩, hint⟩ := hexact
          refine if_neg fun hneg => (hD.lt_iff.mp hneg).2 (hD.le_trans ?_ hint.2)
          simp only [intMax] at hhi
          exact (hD.ofInt_le (by decide) (by decide) (by omega) (by omega)).mpr hlo
      | nil | boolean _ | string _ | table _ _ | other => rfl
  | string | boolean | headers | timeout | nonnegOrMinus1 => rfl

end Values

/-! ## Runs of the loop -/

section Runs

variable {S K get} (hD : S.double.Lawful) (hK : K.Settable get)

/-- What the loop accepts, with the headers that there are already. -/
def LoopAccepts (S : Host F) (headers : List Bytes) (entries : Entries F) : Prop :=
  (∀ e ∈ entries, AcceptedEntry S e) ∧ HeadersOnce entries ∧
    ((∃ e ∈ entries, IsHeaders e.1) → headers = [])

theorem loopAccepts_nil {headers : List Bytes} : LoopAccepts S headers [] :=
  ⟨by simp, .nil, by simp⟩

theorem loopAccepts_cons {headers headers' : List Bytes} {e : ArgKey × Arg F} {rest : Entries F}
    (hset : IsHeaders e.1 → headers' = leftHeaders [] .headers e.2)
    (hkept : ¬ IsHeaders e.1 → headers' = headers) :
    LoopAccepts S headers (e :: rest) ↔
      (AcceptedEntry S e ∧ (IsHeaders e.1 → headers = [])) ∧ LoopAccepts S headers' rest := by
  simp only [LoopAccepts, HeadersOnce, List.forall_mem_cons, List.pairwise_cons]
  constructor
  · rintro ⟨⟨he, hrest⟩, ⟨honce, honces⟩, hheaders⟩
    refine ⟨⟨he, fun h => hheaders ⟨e, List.mem_cons_self, h⟩⟩, hrest, honces, ?_⟩
    rintro ⟨e', hmem, h'⟩
    rcases Classical.em (IsHeaders e.1) with h | h
    · exact (hset h).trans (honce e' hmem h h')
    · exact (hkept h).trans (hheaders ⟨e', List.mem_cons_of_mem e hmem, h'⟩)
  · rintro ⟨⟨he, hheaders⟩, hrest, honces, hheaders'⟩
    refine ⟨⟨he, hrest⟩, ⟨fun e' hmem h h' => ?_, honces⟩, ?_⟩
    · exact (hset h).symm.trans (hheaders' ⟨e', hmem, h'⟩)
    · rintro ⟨e', hmem, h'⟩
      rcases Classical.em (IsHeaders e.1) with h | h
      · exact hheaders h
      · rcases List.mem_cons.mp hmem with rfl | hmem
        · exact absurd h' h
        · exact (hkept h).symm.trans (hheaders' ⟨e', hmem, h'⟩)

include hD hK

/-- The loop fails, or makes the assignments of all entries. -/
theorem parseOptsLoop_spec (entries : Entries F) (dst : NextRequestParams H) (got : Bool) :
    (¬ LoopAccepts S dst.headers entries → ∃ e, parseOptsLoop S K dst got entries = .error e) ∧
    (LoopAccepts S dst.headers entries → ∃ X got',
      parseOptsLoop S K dst got entries = .ok (X, got') ∧
      (got' = true ↔ got = true ∨ .handle .url ∈ (entries.filterMap (write S)).map Prod.fst) ∧
      held get X = assignAll (held get dst) (entries.filterMap (write S))) := by
  induction entries generalizing dst got with
  | nil =>
      refine ⟨fun h => absurd loopAccepts_nil h, fun _ => ⟨dst, got, rfl, ?_, rfl⟩⟩
      exact (or_iff_left List.not_mem_nil).symm
  | cons e rest ih =>
      obtain ⟨key, value⟩ := e
      rcases Classical.em (AcceptedEntry S (key, value) ∧ (IsHeaders key → dst.headers = [])) with
        he | he
      · obtain ⟨X, i, w, hok, hwrite, hheld, hindex, hset, hkept⟩ :=
          handleOption_accepted hD hK he.1 he.2
        have hcons : LoopAccepts S dst.headers ((key, value) :: rest) ↔
            (AcceptedEntry S (key, value) ∧ (IsHeaders key → dst.headers = [])) ∧
              LoopAccepts S X.headers rest := loopAccepts_cons hset hkept
        have hloop : parseOptsLoop S K dst got ((key, value) :: rest) =
            parseOptsLoop S K X (got || i == some requiredOptionIndex) rest := by
          rw [parseOptsLoop, hok]
          rfl
        obtain ⟨hreject, haccept⟩ := ih X (got || i == some requiredOptionIndex)
        rw [hcons, hloop]
        refine ⟨fun h => hreject fun hrest => h ⟨he, hrest⟩, fun h => ?_⟩
        obtain ⟨X', got', hrest, hgot, hheld'⟩ := haccept h.2
        refine ⟨X', got', hrest, ?_, ?_⟩
        · rw [hgot, Bool.or_eq_true, beq_iff_eq, hindex, List.filterMap_cons_some hwrite,
            List.map_cons, List.mem_cons, or_assoc, eq_comm (a := Place.handle .url)]
        · rw [hheld', hheld, List.filterMap_cons_some hwrite, assignAll]
      · obtain ⟨message, hmessage⟩ := handleOption_rejected (K := K) hD he
        refine ⟨fun _ => ⟨message, ?_⟩, fun h => absurd ⟨?_, ?_⟩ he⟩
        · rw [parseOptsLoop, hmessage]
          rfl
        · exact h.1 _ List.mem_cons_self
        · exact fun hkey => h.2.2 ⟨_, List.mem_cons_self, hkey⟩

theorem not_loopStores {entries : Entries F} {dst : NextRequestParams H}
    (h : LoopAccepts S dst.headers entries)
    (hnone : ∀ e ∈ entries, ∀ kind which, target e.1 = some (kind, .handle which) →
      storedMessage S kind e.2 = none) :
    ¬ LoopStores S K dst entries := by
  induction entries generalizing dst with
  | nil => exact id
  | cons e rest ih =>
      obtain ⟨key, value⟩ := e
      rw [List.forall_mem_cons] at hnone
      have hkey : AcceptedEntry S (key, value) := h.1 _ List.mem_cons_self
      have hheaders (hkey : IsHeaders key) : dst.headers = [] :=
        h.2.2 ⟨_, List.mem_cons_self, hkey⟩
      obtain ⟨X, i, w, hok, -, -, -, hset, hkept⟩ := handleOption_accepted hD hK hkey hheaders
      rw [loopAccepts_cons (e := (key, value)) hset hkept] at h
      rintro (hstores | ⟨X', i', hok', hstores⟩)
      · exact not_entryStores hD hK hkey hheaders hnone.1 hstores
      · cases hok.symm.trans hok'
        exact ih h.2 hnone.2 hstores

omit hD in
theorem held_freshParams : held get K.freshParams = fun _ => none := by
  funext place
  cases place with
  | handle which => exact hK.get_fresh which
  | needsHeaders | debug => rfl

omit hD hK in
theorem mem_writes {entries : Entries F} {place : Place} :
    place ∈ (entries.filterMap (write S)).map Prod.fst ↔
      ∃ e ∈ entries, ∃ kind, target e.1 = some (kind, place) := by
  rw [List.map_filterMap, List.mem_filterMap]
  refine exists_congr fun e => and_congr_right fun _ => ?_
  rw [write, Option.map_map, Option.map_eq_some_iff]
  constructor
  · rintro ⟨⟨kind, place⟩, htarget, rfl⟩
    exact ⟨kind, htarget⟩
  · rintro ⟨kind, htarget⟩
    exact ⟨_, htarget, rfl⟩

/-- `parse_opts` accepts the tables that are said to be accepted, and what is held then is what the
entries assign. -/
theorem parseOpts_spec (entries : Entries F) :
    (¬ AcceptedTable S entries → ∃ e, parseOpts S K K.freshParams entries = .error e) ∧
    (AcceptedTable S entries → ∃ X, parseOpts S K K.freshParams entries = .ok X ∧
      held get X = assignAll (fun _ => none) (entries.filterMap (write S))) := by
  obtain ⟨hreject, haccept⟩ := parseOptsLoop_spec hD hK entries K.freshParams false
  have hloop : LoopAccepts S K.freshParams.headers entries ↔
      (∀ e ∈ entries, AcceptedEntry S e) ∧ HeadersOnce entries :=
    ⟨fun h => ⟨h.1, h.2.1⟩, fun h => ⟨h.1, h.2, fun _ => rfl⟩⟩
  rcases Classical.em (LoopAccepts S K.freshParams.headers entries) with h | h
  · obtain ⟨X, got, hok, hgot, hheld⟩ := haccept h
    rw [mem_writes] at hgot
    have htable : AcceptedTable S entries ↔ got = true := by
      rw [hgot, AcceptedTable, ← and_assoc, ← hloop]
      simp [h]
    rw [htable, parseOpts, hok, ← held_freshParams hK]
    cases got with
    | true => exact ⟨fun h => absurd rfl h, fun _ => ⟨X, rfl, hheld⟩⟩
    | false => exact ⟨fun _ => ⟨_, rfl⟩, nofun⟩
  · obtain ⟨e, he⟩ := hreject h
    refine ⟨fun _ => ⟨e, ?_⟩, fun htable => absurd (hloop.mpr ⟨htable.1, htable.2.1⟩) h⟩
    rw [parseOpts, he]
    rfl

end Runs

/-! ## Keys -/

variable {S K get}

theorem not_mem_of_documented {t : Bytes × Kind × Place} (h : t ∈ documented) : 0 ∉ t.1 := by
  have hnul : ∀ t ∈ documented, 0 ∉ t.1 := by decide +kernel
  exact hnul t h

theorem lookup_of_documented {t : Bytes × Kind × Place} (h : t ∈ documented) :
    documented.lookup t.1 = some t.2 := by
  have hlookup : ∀ t ∈ documented, documented.lookup t.1 = some t.2 := by decide +kernel
  exact hlookup t h

/-- Each place holds one option. -/
theorem documented_ext {t t' : Bytes × Kind × Place} (h : t ∈ documented) (h' : t' ∈ documented)
    (hplace : t.2.2 = t'.2.2) : t = t' := by
  have hext : ∀ t ∈ documented, ∀ t' ∈ documented, t.2.2 = t'.2.2 → t = t' := by decide +kernel
  exact hext t h t' h' hplace

theorem target_of_documented {name : Bytes} {t : Kind × Place} (h : (name, t) ∈ documented) :
    target (.str name) = some t := by
  rw [target, Lua.cstr_eq (not_mem_of_documented h)]
  exact lookup_of_documented h

/-- What a key without a NUL byte stands for is documented. -/
theorem documented_of_target {key : ArgKey} (hnul : ∀ k, key = .str k → 0 ∉ k)
    {t : Kind × Place} (h : target key = some t) :
    ∃ name, key = .str name ∧ (name, t) ∈ documented := by
  cases key with
  | str k =>
      rw [target, Lua.cstr_eq (hnul k rfl)] at h
      exact ⟨k, rfl, mem_of_lookup h⟩
  | index _ | number | other => cases h

theorem documented_of_write {e : ArgKey × Arg F} (hnul : ∀ k, e.1 = .str k → 0 ∉ k)
    {w : Place × CurlValue} (h : write S e = some w) :
    ∃ name kind, e.1 = .str name ∧ (name, kind, w.1) ∈ documented ∧
      w.2 = written S kind w.1 e.2 := by
  obtain ⟨⟨kind, place⟩, htarget, rfl⟩ := Option.map_eq_some_iff.mp h
  obtain ⟨name, hkey, hdoc⟩ := documented_of_target hnul htarget
  exact ⟨name, kind, hkey, hdoc, rfl⟩

theorem boolean_of_flag {t : Bytes × Kind × Place} (h : t ∈ documented)
    (hplace : t.2.2 = .needsHeaders ∨ t.2.2 = .debug) : t.2.1 = .boolean := by
  have hflag : ∀ t ∈ documented, t.2.2 = .needsHeaders ∨ t.2.2 = .debug → t.2.1 = .boolean := by
    decide +kernel
  exact hflag t h hplace

theorem acceptedValue_of_entry {name : Bytes} {kind : Kind} {which : CurlOption} {value : Arg F}
    (hdoc : (name, kind, .handle which) ∈ documented)
    (h : AcceptedEntry S (.str name, value)) : AcceptedValue S kind value := by
  obtain ⟨kind', place', htarget, haccepted⟩ := h
  cases (target_of_documented hdoc).symm.trans htarget
  exact haccepted which rfl

section Table

variable {entries : Entries F} (hkeys : StringKeysDistinct entries)

include hkeys

/-- Two entries with one key are one. -/
theorem value_unique {k : Bytes} {v v' : Arg F} (h : (.str k, v) ∈ entries)
    (h' : (.str k, v') ∈ entries) : v = v' := by
  have hsymm : Std.Symm fun e e' : ArgKey × Arg F => ∀ k, e.1 = .str k → e'.1 ≠ .str k :=
    ⟨fun _ _ hne k hk hk' => hne k hk' hk⟩
  by_contra hne
  exact List.Pairwise.forall hkeys h h' (fun he => hne (congrArg Prod.snd he)) k rfl rfl

variable (hnul : ∀ e ∈ entries, ∀ k, e.1 = .str k → 0 ∉ k)

include hnul

theorem writes_nodup : ((entries.filterMap (write S)).map Prod.fst).Nodup := by
  rw [List.Nodup, List.pairwise_map, List.pairwise_filterMap]
  refine hkeys.imp_of_mem fun {e e'} he he' hne w hw w' hw' hplace => ?_
  obtain ⟨name, kind, hkey, hdoc, -⟩ := documented_of_write (hnul e he) hw
  obtain ⟨name', kind', hkey', hdoc', -⟩ := documented_of_write (hnul e' he') hw'
  obtain rfl : name = name' := congrArg Prod.fst (documented_ext hdoc hdoc' hplace)
  exact hne name hkey hkey'

/-- Each option holds what its entry sets it to. -/
theorem assignAll_of_entry {name : Bytes} {kind : Kind} {place : Place} {value : Arg F}
    (hdoc : (name, kind, place) ∈ documented) (hmem : (.str name, value) ∈ entries) :
    assignAll (fun _ => none) (entries.filterMap (write S)) place =
      some (written S kind place value) := by
  refine assignAll_of_mem (writes_nodup hkeys hnul) (List.mem_filterMap.mpr ⟨_, hmem, ?_⟩)
  rw [write, target_of_documented hdoc]
  rfl

omit hkeys in
/-- What is held was set by an entry. -/
theorem entry_of_assignAll {name : Bytes} {kind : Kind} {place : Place} {v : CurlValue}
    (hdoc : (name, kind, place) ∈ documented)
    (h : assignAll (fun _ => none) (entries.filterMap (write S)) place = some v) :
    ∃ value, (.str name, value) ∈ entries ∧ v = written S kind place value := by
  rcases mem_of_assignAll h with hmem | hnone
  · obtain ⟨e, he, hwrite⟩ := List.mem_filterMap.mp hmem
    obtain ⟨name', kind', hkey, hdoc', hv⟩ := documented_of_write (hnul e he) hwrite
    cases documented_ext hdoc hdoc' rfl
    exact ⟨e.2, hkey ▸ he, hv⟩
  · cases hnone

omit hkeys hnul

/-! ## Exact tables -/

/-- A table that is accepted and exact is valid. -/
theorem valid_of_exact (h : AcceptedTable S entries) (hexact : ∀ e ∈ entries, ExactEntry S e) :
    Valid S entries := by
  have hnul (e) (he : e ∈ entries) (k) (hk : e.1 = .str k) : 0 ∉ k := (hexact e he k hk).1
  obtain ⟨hentries, -, e, he, kind, htarget⟩ := h
  refine ⟨?_, fun e he => ?_⟩
  · obtain ⟨name, hkey, hdoc⟩ := documented_of_target (hnul e he) htarget
    have hurl : (lit "url", Kind.string, Place.handle .url) ∈ documented := List.mem_cons_self
    obtain rfl : name = lit "url" := congrArg Prod.fst (documented_ext hdoc hurl rfl)
    exact ⟨e.2, hkey ▸ he⟩
  · obtain ⟨kind, place, htarget, haccepted⟩ := hentries e he
    obtain ⟨name, hkey, hdoc⟩ := documented_of_target (hnul e he) htarget
    have hlookup := lookup_of_documented hdoc
    have hvalue := (hexact e he name hkey).2 kind place hlookup
    refine ⟨name, kind, place, hkey, hlookup, ?_⟩
    cases place with
    | handle which => exact validValue_of_exact (haccepted which rfl) hvalue
    | needsHeaders =>
        obtain rfl : kind = .boolean := boolean_of_flag hdoc (.inl rfl)
        rw [hvalue]
        trivial
    | debug =>
        obtain rfl : kind = .boolean := boolean_of_flag hdoc (.inr rfl)
        rw [hvalue]
        trivial

/-- And everything is held as it is given. -/
theorem faithful_of_exact (hD : S.double.Lawful) (hkeys : StringKeysDistinct entries)
    (h : AcceptedTable S entries) (hexact : ∀ e ∈ entries, ExactEntry S e)
    {X : NextRequestParams H}
    (hheld : held get X = assignAll (fun _ => none) (entries.filterMap (write S))) :
    Faithful S get X entries := by
  have hnul (e) (he : e ∈ entries) (k) (hk : e.1 = .str k) : 0 ∉ k := (hexact e he k hk).1
  intro name kind place hdoc
  have hvalue {value : Arg F} (hmem : (.str name, value) ∈ entries) :=
    (hexact _ hmem name rfl).2 kind place (lookup_of_documented hdoc)
  rw [hheld]
  constructor
  · rintro rfl
    constructor
    · intro hset
      obtain ⟨value, hmem, hv⟩ := entry_of_assignAll hnul hdoc hset
      cases place with
      | handle which =>
          have haccepted := acceptedValue_of_entry hdoc (h.1 _ hmem)
          cases value with
          | boolean flag =>
              cases flag with
              | true => exact hmem
              | false => cases hv
          | nil | string _ | number _ | table _ _ | other => cases haccepted
      | needsHeaders | debug => exact hvalue hmem ▸ hmem
    · intro hmem
      rw [assignAll_of_entry hkeys hnul hdoc hmem]
      cases place <;> rfl
  · intro hkind value hmem
    refine ⟨_, assignAll_of_entry hkeys hnul hdoc hmem, ?_⟩
    cases place with
    | handle which =>
        exact (denotes_passed_iff hD (acceptedValue_of_entry hdoc (h.1 _ hmem))).mpr (hvalue hmem)
    | needsHeaders => exact absurd (boolean_of_flag hdoc (.inl rfl)) hkind
    | debug => exact absurd (boolean_of_flag hdoc (.inr rfl)) hkind

theorem not_mem_of_valid (h : Valid S entries) : ∀ e ∈ entries, ∀ k, e.1 = .str k → 0 ∉ k := by
  intro e he k hk
  obtain ⟨name, kind, place, hkey, hlookup, -⟩ := h.2 e he
  cases hk.symm.trans hkey
  exact not_mem_of_documented (mem_of_lookup hlookup)

/-- A valid table is accepted. -/
theorem accepted_of_valid (hD : S.double.Lawful) (hkeys : StringKeysDistinct entries)
    (h : Valid S entries) : AcceptedTable S entries := by
  have hnul := not_mem_of_valid h
  obtain ⟨⟨value, hurl⟩, hentries⟩ := h
  refine ⟨fun e he => ?_, ?_, _, hurl, .string, target_of_documented List.mem_cons_self⟩
  · obtain ⟨k, kind, place, hkey, hlookup, hvalid⟩ := hentries e he
    refine ⟨kind, place, ?_, fun _ _ => accepted_of_validValue hD hvalid⟩
    rw [hkey]
    exact target_of_documented (mem_of_lookup hlookup)
  · refine hkeys.imp_of_mem fun {e e'} he he' hne => ?_
    rintro ⟨p, hp⟩ ⟨p', hp'⟩
    obtain ⟨name, hkey, hdoc⟩ := documented_of_target (hnul e he) hp
    obtain ⟨name', hkey', hdoc'⟩ := documented_of_target (hnul e' he') hp'
    obtain rfl := place_of_headers hdoc
    obtain rfl := place_of_headers hdoc'
    obtain rfl : name = name' := congrArg Prod.fst (documented_ext hdoc hdoc' rfl)
    exact absurd hkey' (hne name hkey)

/-- What is held of an accepted and valid table tells whether its entries are exact. -/
theorem exact_of_faithful (hD : S.double.Lawful) (hkeys : StringKeysDistinct entries)
    (h : AcceptedTable S entries) (hvalid : Valid S entries) {X : NextRequestParams H}
    (hheld : held get X = assignAll (fun _ => none) (entries.filterMap (write S)))
    (hfaithful : Faithful S get X entries) : ∀ e ∈ entries, ExactEntry S e := by
  have hnul := not_mem_of_valid hvalid
  rintro ⟨key, value⟩ he k rfl
  refine ⟨hnul _ he k rfl, fun kind place hlookup => ?_⟩
  have hdoc := mem_of_lookup hlookup
  have hset : held get X place = some (written S kind place value) :=
    hheld ▸ assignAll_of_entry hkeys hnul hdoc he
  obtain ⟨hboolean, hother⟩ := hfaithful k kind place hdoc
  cases place with
  | handle which =>
      have haccepted := acceptedValue_of_entry hdoc (h.1 _ he)
      rcases eq_or_ne kind .boolean with rfl | hkind
      · cases value <;> trivial
      · obtain ⟨v, hv, hdenotes⟩ := hother hkind value he
        cases hv.symm.trans hset
        exact (denotes_passed_iff hD haccepted).mp hdenotes
  | needsHeaders =>
      exact value_unique hkeys he ((hboolean (boolean_of_flag hdoc (.inl rfl))).mp hset)
  | debug => exact value_unique hkeys he ((hboolean (boolean_of_flag hdoc (.inr rfl))).mp hset)

end Table

/-- The options are validated, unless the table is accepted and has an entry that is not exact. -/
theorem parseOpts_validates_iff (hD : S.double.Lawful) (hK : K.Settable get)
    {entries : Entries F} (hkeys : StringKeysDistinct entries) :
    Validates S K get entries ↔
      (AcceptedTable S entries → ∀ e ∈ entries, ExactEntry S e) := by
  obtain ⟨hreject, haccept⟩ := parseOpts_spec hD hK entries
  rcases Classical.em (AcceptedTable S entries) with h | h
  · obtain ⟨X, hok, hheld⟩ := haccept h
    have hnoerror : ¬ ∃ e, parseOpts S K K.freshParams entries = .error e := by
      rintro ⟨e, he⟩
      cases hok.symm.trans he
    constructor
    · rintro ⟨hvalid, hfaithful, -⟩ -
      exact exact_of_faithful hD hkeys h (hvalid.mp ⟨X, hok⟩) hheld (hfaithful X hok)
    · intro hexact
      have hexact := hexact h
      refine ⟨iff_of_true ⟨X, hok⟩ (valid_of_exact h hexact), ?_, iff_of_false hnoerror ?_⟩
      · intro X' hok'
        cases hok.symm.trans hok'
        exact faithful_of_exact hD hkeys h hexact hheld
      · rintro (hstores | herror)
        · refine not_loopStores hD hK ⟨h.1, h.2.1, fun _ => rfl⟩ ?_ hstores
          intro e he kind which htarget
          have hnul (k) (hk : e.1 = .str k) : 0 ∉ k := (hexact e he k hk).1
          obtain ⟨name, hkey, hdoc⟩ := documented_of_target hnul htarget
          exact storedMessage_of_exact hD
            ((hexact e he name hkey).2 kind _ (lookup_of_documented hdoc))
        · exact hnoerror herror
  · obtain ⟨e, he⟩ := hreject h
    refine iff_of_true ⟨iff_of_false ?_ ?_, ?_, iff_of_true ⟨e, he⟩ (.inr ⟨e, he⟩)⟩
      fun htable => absurd htable h
    · rintro ⟨X, hX⟩
      cases he.symm.trans hX
    · exact fun hvalid => h (accepted_of_valid hD hkeys hvalid)
    · intro X hX
      cases he.symm.trans hX

/-! ## Two requests -/

theorem intHost_lawful : intHost.double.Lawful where
  isNan_iff x := iff_of_false nofun (not_not.mpr (decide_eq_true (Int.le_refl x)))
  le_refl {x y} _ := ⟨decide_eq_true (Int.le_refl x), decide_eq_true (Int.le_refl y)⟩
  le_trans h h' :=
    decide_eq_true (Int.le_trans (of_decide_eq_true h) (of_decide_eq_true h'))
  le_total {x y} _ _ := (Int.le_total x y).imp decide_eq_true decide_eq_true
  lt_iff {x y} := by
    simp only [intHost, decide_eq_true_eq]
    omega
  ofInt_le _ _ _ _ := decide_eq_true_iff
  toInt {x} hlo hhi := by
    simp only [intHost, decide_eq_true_eq, id] at hlo hhi ⊢
    omega
  le_mul {x} h := by
    simp only [intHost, decide_eq_true_eq, id] at h ⊢
    omega

/-- What an option was last set to. -/
def recorded (h : List (CurlOption × CurlValue)) (which : CurlOption) : Option CurlValue :=
  h.reverse.lookup which

theorem recordingCurl_settable : recordingCurl.Settable recorded where
  get_fresh _ := rfl
  setopt h which v := by
    refine ⟨h ++ [(which, v)], rfl, funext fun which' => ?_⟩
    rw [recorded, List.reverse_append, List.reverse_singleton, List.singleton_append,
      List.lookup_cons]
    rcases eq_or_ne which' which with rfl | hne
    · rw [Function.update_self, beq_self_eq_true]
    · rw [Function.update_of_ne hne, beq_false_of_ne hne]
      rfl

/-- A URL and an option. -/
def urlAnd (name : Bytes) (value : Arg Int) : Entries Int :=
  [(.str (lit "url"), .string (lit "http://localhost")), (.str name, value)]

/-- The headers are asked for. -/
theorem parseOpts_validates_iff_true :
    Validates intHost recordingCurl recorded (urlAnd (lit "with_headers") (.boolean true)) := by
  refine (parseOpts_validates_iff intHost_lawful recordingCurl_settable ?_).mpr fun _ => ?_
  · refine .cons (fun e he k hk => ?_) (List.pairwise_singleton _ _)
    cases hk
    rw [List.mem_singleton.mp he]
    decide
  · intro e he k hk
    rcases List.mem_cons.mp he with rfl | he
    · cases hk
      refine ⟨by decide, fun kind place hlookup => ?_⟩
      obtain ⟨⟩ : some (Kind.string, Place.handle .url) = some (kind, place) := hlookup
      exact show (0 : Byte) ∉ lit "http://localhost" by decide
    · rw [List.mem_singleton.mp he] at hk ⊢
      cases hk
      refine ⟨by decide, fun kind place hlookup => ?_⟩
      obtain ⟨⟩ : some (Kind.boolean, Place.needsHeaders) = some (kind, place) := hlookup
      rfl

/-- The headers are not asked for, and are passed all the same. -/
theorem parseOpts_not_validates :
    parseOpts intHost recordingCurl recordingCurl.freshParams
        (urlAnd (lit "with_headers") (.boolean false)) =
      .ok ⟨[(.url, .str (lit "http://localhost"))], [], ⟨true, false⟩⟩ ∧
    ¬ Validates intHost recordingCurl recorded (urlAnd (lit "with_headers") (.boolean false)) := by
  have hok : parseOpts intHost recordingCurl recordingCurl.freshParams
      (urlAnd (lit "with_headers") (.boolean false)) =
      .ok ⟨[(.url, .str (lit "http://localhost"))], [], ⟨true, false⟩⟩ := by rfl
  refine ⟨hok, ?_⟩
  rintro ⟨-, hfaithful, -⟩
  have hdoc : (lit "with_headers", Kind.boolean, Place.needsHeaders) ∈ documented := by decide
  rcases List.mem_cons.mp (((hfaithful _ hok _ _ _ hdoc).1 rfl).mp rfl) with he | he
  · exact absurd (congrArg Prod.fst he) (by decide)
  · cases List.mem_singleton.mp he

end Luastatus.Web

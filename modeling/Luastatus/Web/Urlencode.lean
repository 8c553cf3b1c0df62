import Luastatus.Libsafe.MutSafev
import Luastatus.LibLs.ParseInt
import Luastatus.Lua.Arg

/-!
# URL encoding

`urlencode` and `urldecode` write to a buffer whose size has been computed by a pass of its own, so
each side runs over its input twice.  Both end with an assertion that the two passes agree.

`urlencode_eq` and `urldecode_encoded` say what the two sides write.  `urldecode_urlencode` puts
them together: what has been encoded is decoded to the same bytes, unless its size does not fit
into a `size_t`.
-/

namespace Luastatus.Web

open Text (Byte Bytes ch lit)
open Libsafe LibLs
open Lua (Arg)

/-- `SIZE_MAX`. -/
def sizeMax : Nat := 2 ^ 64 - 1

/-! ## Encoding -/

/-- `should_be_escaped`; the comparisons are those of a signed `char`. -/
def shouldBeEscaped (c : Byte) : Bool :=
  if charVal (ch 'A') ≤ charVal c ∧ charVal c ≤ charVal (ch 'Z') then false
  else if charVal (ch 'a') ≤ charVal c ∧ charVal c ≤ charVal (ch 'z') then false
  else if charVal (ch '0') ≤ charVal c ∧ charVal c ≤ charVal (ch '9') then false
  else if c = ch '-' ∨ c = ch '_' ∨ c = ch '.' ∨ c = ch '~' then false
  else true

/-- The loop of `urlencode_size`, from index `i` on. -/
def urlencodeSizeLoop (src : Bytes) (plusNotation : Bool) (i res : Nat) :
    Except AssertFailure Nat :=
  if i < src.length then do
    let c ← safevAt src i
    let summand := if (plusNotation = true ∧ c = ch ' ') ∨ shouldBeEscaped c = false then 1 else 3
    let res := (res + summand) % (sizeMax + 1)
    if res < summand then return sizeMax
    urlencodeSizeLoop src plusNotation (i + 1) res
  else return res
termination_by src.length - i

/-- `urlencode_size`; `(size_t) -1` is `SIZE_MAX`. -/
def urlencodeSize (src : Bytes) (plusNotation : Bool) : Except AssertFailure Nat :=
  urlencodeSizeLoop src plusNotation 0 0

/-- `HEX_CHARS`. -/
def hexChars : Bytes := lit "0123456789ABCDEF"

/-- The loop of `urlencode`, from index `i` on: `dst` and `j` after it. -/
def urlencodeLoop (src : Bytes) (plusNotation : Bool) (i : Nat) (dst : Bytes) (j : Nat) :
    Except AssertFailure (Bytes × Nat) :=
  if i < src.length then do
    let c ← safevAt src i
    if plusNotation = true ∧ c = ch ' ' then
      let dst ← mutSafevSetAt dst j (ch '+')
      urlencodeLoop src plusNotation (i + 1) dst (j + 1)
    else if shouldBeEscaped c then
      let dst ← mutSafevSetAt dst (j + 0) (ch '%')
      let dst ← mutSafevSetAt dst (j + 1) (← safevAt hexChars (c.toNat / 16))
      let dst ← mutSafevSetAt dst (j + 2) (← safevAt hexChars (c.toNat % 16))
      urlencodeLoop src plusNotation (i + 1) dst (j + 3)
    else
      let dst ← mutSafevSetAt dst j c
      urlencodeLoop src plusNotation (i + 1) dst (j + 1)
  else return (dst, j)
termination_by src.length - i

/-- `urlencode`: the buffer after it. -/
def urlencode (src dst : Bytes) (plusNotation : Bool) : Except AssertFailure Bytes := do
  let (dst, j) ← urlencodeLoop src plusNotation 0 dst 0
  lsAssert (j = dst.length) "j == expected_result_size"
  return dst

/-! ## Decoding -/

/-- The loop of `urldecode_size`, from index `i` on. -/
def urldecodeSizeLoop (src : Bytes) (i res : Nat) : Except AssertFailure Nat :=
  if i < src.length then do
    let c ← safevAt src i
    if c = ch '%' then urldecodeSizeLoop src (i + 3) (res + 1)
    else urldecodeSizeLoop src (i + 1) (res + 1)
  else return res
termination_by src.length - i

/-- `urldecode_size`. -/
def urldecodeSize (src : Bytes) : Except AssertFailure Nat := urldecodeSizeLoop src 0 0

/-- `parse_hex_digit`. -/
def parseHexDigit (c : Byte) : Int :=
  if charVal (ch '0') ≤ charVal c ∧ charVal c ≤ charVal (ch '9') then charVal c - charVal (ch '0')
  else if charVal (ch 'a') ≤ charVal c ∧ charVal c ≤ charVal (ch 'f') then
    charVal c - charVal (ch 'a') + 10
  else if charVal (ch 'A') ≤ charVal c ∧ charVal c ≤ charVal (ch 'F') then
    charVal c - charVal (ch 'A') + 10
  else -1

/-- The loop of `urldecode`, from index `i` on: `dst` and `j` after it, or nothing if it returns
`false`. -/
def urldecodeLoop (src : Bytes) (i : Nat) (dst : Bytes) (j : Nat) :
    Except AssertFailure (Option (Bytes × Nat)) :=
  if i < src.length then do
    let c ← safevAt src i
    if c = ch '%' then
      if i + 2 ≥ src.length then return none
      let hi := parseHexDigit (← safevAt src (i + 1))
      let lo := parseHexDigit (← safevAt src (i + 2))
      if hi < 0 ∨ lo < 0 then return none
      let newC := UInt8.ofNat (hi.toNat <<< 4 ||| lo.toNat)
      let dst ← mutSafevSetAt dst j newC
      urldecodeLoop src (i + 3) dst (j + 1)
    else
      let newC := if c = ch '+' then ch ' ' else c
      let dst ← mutSafevSetAt dst j newC
      urldecodeLoop src (i + 1) dst (j + 1)
  else return some (dst, j)
termination_by src.length - i

/-- `urldecode`: the buffer after it, or nothing if it returns `false`. -/
def urldecode (src dst : Bytes) : Except AssertFailure (Option Bytes) := do
  match ← urldecodeLoop src 0 dst 0 with
  | none => return none
  | some (dst, j) =>
      lsAssert (j = dst.length) "j == expected_result_size"
      return some dst

/-! ## The functions that Lua calls -/

/-- How `l_urlencode` ends, if no assertion fails. -/
inductive Ending where
  | returns (s : Bytes)
  /-- `luaL_checktype` throws an error about the argument. -/
  | badArgument (arg : Nat)
  /-- `ls_oom`. -/
  | outOfMemory
deriving DecidableEq, Repr

variable {F : Type}

/-- `getbool`, nothing if it throws an error. -/
def getbool : Arg F → Option Bool
  | .nil => some false
  | .boolean b => some b
  | _ => none

/-- `l_urlencode`. -/
def lUrlencode (s : Bytes) (plusNotation : Arg F) : Except AssertFailure Ending := do
  match getbool plusNotation with
  | none => return .badArgument 2
  | some plusNotation =>
      let nres ← urlencodeSize s plusNotation
      if nres = sizeMax then return .outOfMemory
      let buf ← urlencode s (List.replicate nres 0) plusNotation
      return .returns buf

/-- `l_urldecode`, nothing for `nil`. -/
def lUrldecode (s : Bytes) : Except AssertFailure (Option Bytes) := do
  let nres ← urldecodeSize s
  urldecode s (List.replicate nres 0)

/-! ## What is written -/

/-- A hexadecimal digit. -/
def hexDigit (d : Nat) : Byte := hexChars.getD d 0

/-- What becomes of a byte. -/
def encodeByte (plusNotation : Bool) (c : Byte) : Bytes :=
  if plusNotation = true ∧ c = ch ' ' then [ch '+']
  else if shouldBeEscaped c then [ch '%', hexDigit (c.toNat / 16), hexDigit (c.toNat % 16)]
  else [c]

/-- What becomes of a string. -/
def encoded (plusNotation : Bool) (s : Bytes) : Bytes := s.flatMap (encodeByte plusNotation)

/-- The unreserved characters. -/
def Unreserved (c : Byte) : Prop :=
  ch 'A' ≤ c ∧ c ≤ ch 'Z' ∨ ch 'a' ≤ c ∧ c ≤ ch 'z' ∨ ch '0' ≤ c ∧ c ≤ ch '9' ∨
    c ∈ lit "-_.~"

/-- A hexadecimal digit with a capital letter. -/
def IsHexDigit (c : Byte) : Prop := ch '0' ≤ c ∧ c ≤ ch '9' ∨ ch 'A' ≤ c ∧ c ≤ ch 'F'

/-- The texts that consist of unreserved characters, triplets and, in plus notation, of plus
signs. -/
inductive EncodedText (plusNotation : Bool) : Bytes → Prop where
  | nil : EncodedText plusNotation []
  | unreserved {c : Byte} {s : Bytes} :
      Unreserved c → EncodedText plusNotation s → EncodedText plusNotation (c :: s)
  | triplet {hi lo : Byte} {s : Bytes} :
      IsHexDigit hi → IsHexDigit lo → EncodedText plusNotation s →
      EncodedText plusNotation (ch '%' :: hi :: lo :: s)
  | plus {s : Bytes} :
      plusNotation = true → EncodedText plusNotation s → EncodedText plusNotation (ch '+' :: s)

/-! ### Bytes -/

theorem shouldBeEscaped_eq_false_iff (c : Byte) : shouldBeEscaped c = false ↔ Unreserved c := by
  simp only [shouldBeEscaped, charVal_range (show (ch 'A').toNat < 128 by decide)
    (show (ch 'Z').toNat < 128 by decide), charVal_range (show (ch 'a').toNat < 128 by decide)
    (show (ch 'z').toNat < 128 by decide), charVal_range (show (ch '0').toNat < 128 by decide)
    (show (ch '9').toNat < 128 by decide)]
  have hmem : c ∈ lit "-_.~" ↔ c = ch '-' ∨ c = ch '_' ∨ c = ch '.' ∨ c = ch '~' := by
    rw [show lit "-_.~" = [ch '-', ch '_', ch '.', ch '~'] from rfl]
    simp
  rw [Unreserved, hmem]
  split
  · simp [*]
  · split
    · simp [*]
    · split
      · simp [*]
      · split <;> simp [*]

/-- A byte that stands for itself is neither the beginning of a triplet nor a plus sign. -/
theorem ne_of_not_escaped {c : Byte} (h : shouldBeEscaped c = false) :
    c ≠ ch '%' ∧ c ≠ ch '+' := by
  constructor <;> rintro rfl <;> cases h

theorem safevAt_hexChars {d : Nat} (h : d < 16) : safevAt hexChars d = .ok (hexDigit d) := by
  rw [safevAt, lsAssert_bind_of_pos (show d < hexChars.length from h)]
  rfl

theorem isHexDigit_hexDigit {d : Nat} (h : d < 16) : IsHexDigit (hexDigit d) := by
  have hall : ∀ d < 16, ch '0' ≤ hexDigit d ∧ hexDigit d ≤ ch '9' ∨
      ch 'A' ≤ hexDigit d ∧ hexDigit d ≤ ch 'F' := by decide
  exact hall d h

theorem parseHexDigit_hexDigit {d : Nat} (h : d < 16) : parseHexDigit (hexDigit d) = d := by
  have hall : ∀ d < 16, parseHexDigit (hexDigit d) = d := by decide
  exact hall d h

/-- The two digits of a byte make up the byte. -/
theorem ofNat_digits (c : Byte) : UInt8.ofNat ((c.toNat / 16) <<< 4 ||| c.toNat % 16) = c := by
  have hlo : c.toNat % 16 < 2 ^ 4 := Nat.mod_lt _ (by decide)
  rw [← Nat.shiftLeft_add_eq_or_of_lt hlo, Nat.shiftLeft_eq, Nat.div_add_mod', UInt8.ofNat_toNat]

/-- What becomes of a byte, in the order in which `urlencode` asks. -/
theorem encodeByte_cases (plusNotation : Bool) (c : Byte) :
    (plusNotation = true ∧ c = ch ' ') ∧ encodeByte plusNotation c = [ch '+'] ∨
    ¬ (plusNotation = true ∧ c = ch ' ') ∧ shouldBeEscaped c = true ∧
      encodeByte plusNotation c =
        [ch '%', hexDigit (c.toNat / 16), hexDigit (c.toNat % 16)] ∨
    ¬ (plusNotation = true ∧ c = ch ' ') ∧ shouldBeEscaped c = false ∧
      encodeByte plusNotation c = [c] := by
  rw [encodeByte]
  split
  · exact .inl ⟨‹_›, rfl⟩
  · split
    · exact .inr (.inl ⟨‹_›, ‹_›, rfl⟩)
    · exact .inr (.inr ⟨‹_›, Bool.eq_false_iff.mpr ‹_›, rfl⟩)

theorem encoded_cons (plusNotation : Bool) (c : Byte) (s : Bytes) :
    encoded plusNotation (c :: s) = encodeByte plusNotation c ++ encoded plusNotation s :=
  List.flatMap_cons

theorem length_encoded_le (plusNotation : Bool) (s : Bytes) :
    (encoded plusNotation s).length ≤ 3 * s.length := by
  induction s with
  | nil => exact Nat.le_refl _
  | cons c s ih =>
      have hbyte : (encodeByte plusNotation c).length ≤ 3 := by
        rw [encodeByte]
        split
        · exact Nat.le_add_left 1 2
        · split <;> simp
      rw [encoded_cons, List.length_append, List.length_cons]
      omega

theorem encodedText_encoded (plusNotation : Bool) (s : Bytes) :
    EncodedText plusNotation (encoded plusNotation s) := by
  induction s with
  | nil => exact .nil
  | cons c s ih =>
      have hc := c.toNat_lt
      rw [encoded_cons]
      rcases encodeByte_cases plusNotation c with ⟨h, he⟩ | ⟨-, -, he⟩ | ⟨-, h, he⟩
      · rw [he]
        exact .plus h.1 ih
      · rw [he]
        exact .triplet (isHexDigit_hexDigit (by omega)) (isHexDigit_hexDigit (by omega)) ih
      · rw [he]
        exact .unreserved ((shouldBeEscaped_eq_false_iff c).mp h) ih

/-! ### The encoder -/

section Encode

variable {src l : Bytes} {i : Nat} (plusNotation : Bool)

/-- From index `i` on, the sizing pass adds the length of what becomes of the rest, up to
`SIZE_MAX`. -/
theorem urlencodeSizeLoop_eq (src l : Bytes) :
    ∀ (i res : Nat), src.drop i = l → res ≤ sizeMax →
      urlencodeSizeLoop src plusNotation i res =
        .ok (min (res + (encoded plusNotation l).length) sizeMax) := by
  induction l with
  | nil =>
      intro i res hl hres
      have hge : src.length ≤ i := List.drop_eq_nil_iff.mp hl
      rw [urlencodeSizeLoop, if_neg (by omega)]
      simp [encoded, hres, pure, Except.pure]
  | cons c cs ih =>
      intro i res hl hres
      have hlen : (encodeByte plusNotation c).length =
          if (plusNotation = true ∧ c = ch ' ') ∨ shouldBeEscaped c = false then 1 else 3 := by
        rcases encodeByte_cases plusNotation c with ⟨h, he⟩ | ⟨h, h', he⟩ | ⟨-, h, he⟩
        · rw [he, if_pos (.inl h)]
          rfl
        · rw [he, if_neg (by simp [h, h'])]
          rfl
        · rw [he, if_pos (.inr h)]
          rfl
      have hsmall : (encodeByte plusNotation c).length ≤ 3 := by
        rw [hlen]
        split <;> decide
      have hmax : 3 < sizeMax := by decide
      rw [urlencodeSizeLoop, if_pos (lt_length_of_drop hl), safevAt_eq hl, ok_bind]
      simp only
      rw [← hlen, encoded_cons, List.length_append]
      by_cases hover : res + (encodeByte plusNotation c).length ≤ sizeMax
      · rw [Nat.mod_eq_of_lt (by omega), if_neg (by omega),
          ih (i + 1) _ (drop_succ_of_drop hl) hover, Nat.add_assoc]
      · rw [if_pos]
        · rw [Nat.min_eq_right (by omega)]
          rfl
        · rw [Nat.mod_eq_sub_mod (by omega), Nat.mod_eq_of_lt (by omega)]
          omega

theorem urlencodeSize_eq (s : Bytes) :
    urlencodeSize s plusNotation = .ok (min (encoded plusNotation s).length sizeMax) := by
  rw [urlencodeSize, urlencodeSizeLoop_eq plusNotation s s 0 0 rfl (Nat.zero_le _), Nat.zero_add]

/-- From index `i` on, the writing pass writes what becomes of the rest. -/
theorem urlencodeLoop_eq (src l : Bytes) :
    ∀ (i : Nat) (written rest : Bytes), src.drop i = l →
      rest.length = (encoded plusNotation l).length →
      urlencodeLoop src plusNotation i (written ++ rest) written.length =
        .ok (written ++ encoded plusNotation l,
          (written ++ encoded plusNotation l).length) := by
  induction l with
  | nil =>
      intro i written rest hl hrest
      have hge : src.length ≤ i := List.drop_eq_nil_iff.mp hl
      have hnil : rest = [] := List.length_eq_zero_iff.mp hrest
      rw [urlencodeLoop, if_neg (by omega), hnil]
      simp [encoded, pure, Except.pure]
  | cons c cs ih =>
      intro i written rest hl hrest
      have hc := c.toNat_lt
      have hnext := drop_succ_of_drop hl
      rw [encoded_cons, List.length_append] at hrest
      rw [urlencodeLoop, if_pos (lt_length_of_drop hl), safevAt_eq hl, ok_bind, encoded_cons,
        ← List.append_assoc]
      rcases encodeByte_cases plusNotation c with ⟨h, he⟩ | ⟨h, h', he⟩ | ⟨h, h', he⟩
      · rw [he, List.length_singleton] at hrest
        obtain ⟨b, rest, rfl⟩ := List.exists_cons_of_length_pos (l := rest) (by omega)
        have hw := ih (i + 1) (written ++ [ch '+']) rest hnext
          (by rw [List.length_cons] at hrest; omega)
        rw [List.length_append] at hw
        rw [he, if_pos h, mutSafevSetAt_append rfl, ok_bind]
        exact hw
      · rw [he, List.length_cons, List.length_cons, List.length_singleton] at hrest
        obtain ⟨b, rest, rfl⟩ := List.exists_cons_of_length_pos (l := rest) (by omega)
        rw [List.length_cons] at hrest
        obtain ⟨b', rest, rfl⟩ := List.exists_cons_of_length_pos (l := rest) (by omega)
        rw [List.length_cons] at hrest
        obtain ⟨b'', rest, rfl⟩ := List.exists_cons_of_length_pos (l := rest) (by omega)
        rw [List.length_cons] at hrest
        have hw := ih (i + 1)
          (written ++ [ch '%', hexDigit (c.toNat / 16), hexDigit (c.toNat % 16)]) rest hnext
          (by omega)
        rw [List.length_append] at hw
        rw [he, if_neg h, if_pos h', mutSafevSetAt_append (Nat.add_zero _), ok_bind,
          safevAt_hexChars (by omega), ok_bind, mutSafevSetAt_append (by simp), ok_bind,
          safevAt_hexChars (by omega), ok_bind, mutSafevSetAt_append (by simp), ok_bind]
        simp only [List.append_assoc, List.cons_append, List.nil_append] at hw ⊢
        exact hw
      · rw [he, List.length_singleton] at hrest
        obtain ⟨b, rest, rfl⟩ := List.exists_cons_of_length_pos (l := rest) (by omega)
        have hw := ih (i + 1) (written ++ [c]) rest hnext
          (by rw [List.length_cons] at hrest; omega)
        rw [List.length_append] at hw
        rw [he, if_neg h, if_neg (by simp [h']), mutSafevSetAt_append rfl, ok_bind]
        exact hw

theorem urlencode_eq {src dst : Bytes} (h : dst.length = (encoded plusNotation src).length) :
    urlencode src dst plusNotation = .ok (encoded plusNotation src) := by
  have hloop := urlencodeLoop_eq plusNotation src src 0 [] dst rfl h
  rw [List.nil_append, List.length_nil] at hloop
  rw [urlencode, hloop, ok_bind, List.nil_append]
  exact lsAssert_bind_of_pos rfl _ _

/-- `l_urlencode` encodes its argument, unless the size of the result does not fit. -/
theorem lUrlencode_eq (s : Bytes) :
    lUrlencode (F := F) s (.boolean plusNotation) =
      .ok (if (encoded plusNotation s).length < sizeMax then .returns (encoded plusNotation s)
        else .outOfMemory) := by
  simp only [lUrlencode, getbool, urlencodeSize_eq, ok_bind]
  by_cases h : (encoded plusNotation s).length < sizeMax
  · rw [Nat.min_eq_left (Nat.le_of_lt h), if_neg (Nat.ne_of_lt h), if_pos h,
      urlencode_eq plusNotation (List.length_replicate)]
    rfl
  · rw [Nat.min_eq_right (by omega), if_pos rfl, if_neg h]
    rfl

end Encode

/-! ### The decoder -/

section Decode

variable {plusNotation : Bool} {src : Bytes}

/-- From index `i` on, the sizing pass counts the bytes that have been encoded. -/
theorem urldecodeSizeLoop_encoded (src l : Bytes) :
    ∀ (i res : Nat), src.drop i = encoded plusNotation l →
      urldecodeSizeLoop src i res = .ok (res + l.length) := by
  induction l with
  | nil =>
      intro i res hl
      have hge : src.length ≤ i := List.drop_eq_nil_iff.mp hl
      rw [urldecodeSizeLoop, if_neg (by omega)]
      rfl
  | cons c cs ih =>
      intro i res hl
      rw [encoded_cons] at hl
      rw [List.length_cons, Nat.add_comm cs.length, ← Nat.add_assoc]
      rcases encodeByte_cases plusNotation c with ⟨-, he⟩ | ⟨-, -, he⟩ | ⟨-, h, he⟩
      · rw [he, List.singleton_append] at hl
        rw [urldecodeSizeLoop, if_pos (lt_length_of_drop hl), safevAt_eq hl, ok_bind,
          if_neg (by decide), ih _ _ (drop_succ_of_drop hl)]
      · rw [he] at hl
        have hrest := drop_succ_of_drop (drop_succ_of_drop (drop_succ_of_drop hl))
        rw [urldecodeSizeLoop, if_pos (lt_length_of_drop hl), safevAt_eq hl, ok_bind, if_pos rfl,
          ih _ _ hrest]
      · rw [he, List.singleton_append] at hl
        rw [urldecodeSizeLoop, if_pos (lt_length_of_drop hl), safevAt_eq hl, ok_bind,
          if_neg (ne_of_not_escaped h).1, ih _ _ (drop_succ_of_drop hl)]

/-- From index `i` on, the writing pass writes the bytes that have been encoded. -/
theorem urldecodeLoop_encoded (src l : Bytes) :
    ∀ (i : Nat) (written rest : Bytes), src.drop i = encoded plusNotation l →
      rest.length = l.length →
      urldecodeLoop src i (written ++ rest) written.length =
        .ok (some (written ++ l, (written ++ l).length)) := by
  induction l with
  | nil =>
      intro i written rest hl hrest
      have hge : src.length ≤ i := List.drop_eq_nil_iff.mp hl
      rw [urldecodeLoop, if_neg (by omega), List.length_eq_zero_iff.mp hrest]
      simp [pure, Except.pure]
  | cons c cs ih =>
      intro i written rest hl hrest
      have hc := c.toNat_lt
      rw [encoded_cons] at hl
      obtain ⟨b, rest, rfl⟩ := List.exists_cons_of_length_pos (l := rest) (by rw [hrest]; simp)
      have hw (k : Nat) (hk : src.drop k = encoded plusNotation cs) :=
        ih k (written ++ [c]) rest hk (Nat.succ.inj hrest)
      simp only [List.length_append, List.append_assoc, List.singleton_append,
        List.length_singleton] at hw
      rcases encodeByte_cases plusNotation c with ⟨⟨-, hspace⟩, he⟩ | ⟨-, -, he⟩ | ⟨-, h, he⟩
      · rw [he, List.singleton_append] at hl
        rw [urldecodeLoop, if_pos (lt_length_of_drop hl), safevAt_eq hl, ok_bind,
          if_neg (by decide)]
        simp only [if_pos, ← hspace, mutSafevSetAt_append rfl, ok_bind]
        simpa using hw _ (drop_succ_of_drop hl)
      · rw [he] at hl
        have hl₁ := drop_succ_of_drop hl
        have hl₂ := drop_succ_of_drop hl₁
        have hrest := drop_succ_of_drop hl₂
        have hlt := lt_length_of_drop hl₂
        rw [urldecodeLoop, if_pos (lt_length_of_drop hl), safevAt_eq hl, ok_bind, if_pos rfl,
          if_neg (by omega), safevAt_eq hl₁, ok_bind, safevAt_eq hl₂, ok_bind,
          parseHexDigit_hexDigit (by omega), parseHexDigit_hexDigit (by omega)]
        simp only [Int.toNat_natCast, ofNat_digits]
        rw [if_neg (by omega), mutSafevSetAt_append rfl, ok_bind]
        simpa using hw _ hrest
      · rw [he, List.singleton_append] at hl
        rw [urldecodeLoop, if_pos (lt_length_of_drop hl), safevAt_eq hl, ok_bind,
          if_neg (ne_of_not_escaped h).1]
        simp only [if_neg (ne_of_not_escaped h).2, mutSafevSetAt_append rfl, ok_bind]
        simpa using hw _ (drop_succ_of_drop hl)

/-- `l_urldecode` gives back what has been encoded. -/
theorem lUrldecode_encoded (plusNotation : Bool) (s : Bytes) :
    lUrldecode (encoded plusNotation s) = .ok (some s) := by
  have hall : (encoded plusNotation s).drop 0 = encoded plusNotation s := rfl
  have hloop := urldecodeLoop_encoded _ s 0 [] (List.replicate s.length 0) hall
    List.length_replicate
  rw [List.nil_append, List.length_nil] at hloop
  rw [lUrldecode, urldecodeSize,
    urldecodeSizeLoop_encoded _ s 0 0 hall,
    ok_bind, Nat.zero_add, urldecode, hloop, ok_bind, List.nil_append]
  exact lsAssert_bind_of_pos rfl _ _

end Decode

/-! ## The round trip -/

/-- Every string is encoded as unreserved characters, triplets and, in plus notation, plus signs,
and decoded to itself.  The only exception is a string whose encoded size does not fit into a
`size_t`: there the program ends before anything is written. -/
theorem urldecode_urlencode (s : Bytes) (plusNotation : Bool) :
    (∃ out, lUrlencode (F := F) s (.boolean plusNotation) = .ok (.returns out) ∧
      EncodedText plusNotation out ∧ lUrldecode out = .ok (some s)) ∨
    sizeMax ≤ 3 * s.length ∧
      lUrlencode (F := F) s (.boolean plusNotation) = .ok .outOfMemory := by
  rw [lUrlencode_eq]
  by_cases h : (encoded plusNotation s).length < sizeMax
  · rw [if_pos h]
    exact .inl ⟨_, rfl, encodedText_encoded plusNotation s, lUrldecode_encoded plusNotation s⟩
  · have hle := length_encoded_le plusNotation s
    rw [if_neg h]
    exact .inr ⟨by omega, rfl⟩

/-- A space, a percent sign and a byte that is not ASCII. -/
example : lUrlencode (F := Unit) [ch ' ', ch '%', 255] (.boolean true) =
    .ok (.returns (lit "+%25%FF")) := by
  rw [lUrlencode_eq]
  rfl

end Luastatus.Web

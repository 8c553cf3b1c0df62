import Luastatus.Dbus.Trees
import Luastatus.Lib.Decimal

/-!
# Which simple values are exact

`mkval_simple` makes a D-Bus value of a Lua value.  `Denotes` says that the one denotes the other,
and `Exact` which Lua values are never made into something else: they are the exception, or raise an
error.  `mkvalSimple_exact_iff` says that they are exactly those.

What is not exact are numbers that `lua_tointeger` or the conversion to a smaller type changes,
strings that the base 0 of `strtoll` reads in another base, and strings that are cut at a NUL byte.
-/

namespace Luastatus.Dbus

open Text (Byte Bytes ch lit decimalReading readSigned readUnsigned signAndRest signed HexPrefix)
open Lua

/-- The simple types, without variants and handles. -/
inductive SimpleType where
  | boolean
  | byte
  | int (k : IntType)
  | double
  | string
  | objectPath
  | signature

/-- The type string. -/
def SimpleType.letter : SimpleType → Byte
  | boolean => ch 'b'
  | byte => ch 'y'
  | int k => k.letter
  | double => ch 'd'
  | string => ch 's'
  | objectPath => ch 'o'
  | signature => ch 'g'

variable {D T V : Type} (A : Api D T V)

/-! ## What a value denotes -/

/-- The float is the number. -/
def IsNumber (x : D) : Number D → Prop
  | .integer i => A.num.toInteger x = some i
  | .float y => x = y

/-- The D-Bus value denotes the Lua value. -/
def Denotes (v : V) : SimpleType → LuaVal D V → Prop
  | .boolean, x => A.values.classify v = .boolean ∧ x = .boolean (A.values.getBoolean v)
  | .byte, .number n =>
      A.values.classify v = .byte ∧ A.num.integerValue n = some ((A.values.getByte v).toNat : Int)
  | .byte, x => A.values.classify v = .byte ∧ x = .string [A.values.getByte v]
  | .int k, .number n =>
      A.values.classify v = .int k ∧ A.num.integerValue n = some (A.values.getInt k v)
  | .int k, .string s =>
      A.values.classify v = .int k ∧ decimalReading s = some (A.values.getInt k v)
  | .int _, _ => False
  | .double, .number n => A.values.classify v = .double ∧ IsNumber A (A.values.getDouble v) n
  | .double, .string s =>
      A.values.classify v = .double ∧
        ∃ n ∈ A.num.ofString s, IsNumber A (A.values.getDouble v) n
  | .double, _ => False
  | .string, x => A.values.classify v = .string ∧ checkString A x 2 = .ok (A.values.getString v)
  | .objectPath, x =>
      A.values.classify v = .objectPath ∧ checkString A x 2 = .ok (A.values.getString v)
  | .signature, x =>
      A.values.classify v = .signature ∧ checkString A x 2 = .ok (A.values.getString v)

/-! ## Which values are exact -/

/-- The integer is one of `lua_Integer` and of the type. -/
def FitsInt (k : IntType) (i : Int) : Prop := (-2 ^ 63 ≤ i ∧ i < 2 ^ 63) ∧ k.InRange i

/-- What `strtoll` and `strtoull` accept to the end of a string: a sign and a number of 64 bits. -/
def Accepts (isSigned : Bool) (s : Bytes) (neg : Bool) (m : Nat) : Prop :=
  readSigned s = some (neg, m, []) ∧
    if isSigned then -2 ^ 63 ≤ signed neg m ∧ signed neg m < 2 ^ 63 else m < 2 ^ 64

/-- If the string is accepted up to its first NUL byte, then it has none, is not hexadecimal, and
octal only below 8, and its number is one of the type. -/
def ExactString (k : IntType) (s : Bytes) : Prop :=
  ∀ neg m, Accepts k.isSigned (cstr s) neg m →
    0 ∉ s ∧ ¬ HexPrefix (signAndRest s).2 ∧
      ((signAndRest s).2.head? = some (ch '0') → m < 8) ∧ k.InRange (signed neg m)

/-- The number is a float. -/
def ExactFloat : Number D → Prop
  | .integer i => A.num.toInteger (A.num.ofInteger i) = some i
  | .float _ => True

/-- The Lua value is not made into a D-Bus value that denotes something else. -/
def Exact : SimpleType → LuaVal D V → Prop
  | .byte, .number n => ∃ i, A.num.integerValue n = some i ∧ 0 ≤ i ∧ i < 256
  | .int k, .number n => ∃ i, A.num.integerValue n = some i ∧ FitsInt k i
  | .int k, .string s => ExactString k s
  | .double, .number n => ExactFloat A n
  | .double, .string s => ∀ n ∈ A.num.ofString s, ExactFloat A n
  | .objectPath, x =>
      ∀ s, checkString A x 2 = .ok s → A.values.isObjectPath (cstr s) = true → 0 ∉ s
  | .signature, x =>
      ∀ s, checkString A x 2 = .ok s → A.values.isSignature (cstr s) = true → 0 ∉ s
  | _, _ => True

/-! ## Integers -/

variable {A}

theorem IntType.inRange_wrap (k : IntType) (i : Int) : k.InRange (k.wrap i) := by
  cases k <;> simp only [InRange, wrap, isSigned, bits, Bool.false_eq_true, ↓reduceIte,
    Int.bmod_def] <;> omega

/-- Zero is of every type, so of two integers of one sign the smaller is of the type if the other
is. -/
theorem IntType.inRange_signed_of_le {k : IntType} {neg : Bool} {m n : Nat} (hle : m ≤ n)
    (h : k.InRange (signed neg n)) : k.InRange (signed neg m) := by
  cases neg <;> cases k <;> simp only [InRange, signed, isSigned, bits, Bool.false_eq_true,
    ↓reduceIte] at h ⊢ <;> omega

theorem signed_injective (neg : Bool) {m n : Nat} (h : signed neg m = signed neg n) : m = n := by
  cases neg <;> simp only [signed, Bool.false_eq_true, ↓reduceIte] at h <;> omega

/-- What a number becomes is that number if and only if it is an integer of both types. -/
theorem wrap_luaTointeger_iff {N : NumberOps D} (k : IntType) (n : Number D) :
    N.integerValue n = some (k.wrap (N.luaTointeger n % 2 ^ 64)) ↔
      ∃ i, N.integerValue n = some i ∧ FitsInt k i := by
  constructor
  · intro h
    refine ⟨_, h, ?_, k.inRange_wrap _⟩
    by_contra hlt
    -- such a number would have become zero
    have hzero : N.luaTointeger n = 0 := by rw [luaTointeger_of_value h, if_neg hlt]
    rw [hzero, IntType.wrap_of_inRange (by cases k <;> decide)] at hlt
    exact hlt (by decide)
  · rintro ⟨i, hi, hlt, hrange⟩
    rw [luaTointeger_of_value hi, if_pos hlt, IntType.wrap_of_inRange hrange, hi]

/-- A string that is read to its end is not empty. -/
theorem ne_nil_of_readSigned {s : Bytes} {r : Bool × Nat × Bytes} (h : readSigned s = some r) :
    s ≠ [] := by
  rintro rfl
  cases h

/-- What `strtoll` and `strtoull` make of a string that begins with a number. -/
theorem strto_of_readSigned {s rest : Bytes} {neg : Bool} {m : Nat}
    (h : readSigned s = some (neg, m, rest)) (isSigned : Bool) :
    ∃ res, (if isSigned then Text.strtoll s else Text.strtoull s) = res ∧ res.rest = rest ∧
      (res.erange = false ↔
        if isSigned then -2 ^ 63 ≤ signed neg m ∧ signed neg m < 2 ^ 63 else m < 2 ^ 64) ∧
      (res.erange = false → res.value % 2 ^ 64 = signed neg m % 2 ^ 64) := by
  refine ⟨_, rfl, ?_⟩
  rw [Text.strtoll, Text.strtoull, h]
  cases isSigned with
  | true =>
      simp only [↓reduceIte]
      split
      · exact ⟨rfl, iff_of_false Bool.noConfusion (by omega), Bool.noConfusion⟩
      · split
        · exact ⟨rfl, iff_of_false Bool.noConfusion (by omega), Bool.noConfusion⟩
        · exact ⟨rfl, iff_of_true rfl (by omega), fun _ => rfl⟩
  | false =>
      simp only [Bool.false_eq_true, ↓reduceIte]
      split
      · exact ⟨rfl, iff_of_false Bool.noConfusion (by omega), Bool.noConfusion⟩
      · refine ⟨rfl, iff_of_true rfl (by omega), fun _ => ?_⟩
        exact Int.emod_emod_of_dvd _ (Int.dvd_refl _)

/-- `fetch_int` of a string. -/
theorem fetchInt_string_iff {s : Bytes} {arg : Nat} {isSigned : Bool} {j : Int} :
    fetchInt A (.string s) arg isSigned = .ok j ↔
      ∃ neg m, Accepts isSigned (cstr s) neg m ∧ j = signed neg m % 2 ^ 64 := by
  rw [fetchInt]
  simp only [Accepts]
  cases hread : readSigned (cstr s) with
  | none =>
      refine iff_of_false ?_ (by rintro ⟨_, _, ⟨h, -⟩, -⟩; cases h)
      have hrest : (if isSigned then Text.strtoll (cstr s) else Text.strtoull (cstr s)) =
          ⟨0, cstr s, false⟩ := by
        rw [Text.strtoll, Text.strtoull, hread]
        exact ite_self _
      rw [hrest, if_pos (.inr (Classical.em _))]
      rintro ⟨⟩
  | some r =>
      obtain ⟨neg, m, rest⟩ := r
      obtain ⟨res, hres, hrest, hrange, hvalue⟩ := strto_of_readSigned hread isSigned
      rw [hres]
      split
      · rename_i herror
        refine iff_of_false (by rintro ⟨⟩) ?_
        rintro ⟨_, _, ⟨h, hword⟩, -⟩
        cases h
        rcases herror with herange | hnil | hne
        · exact Bool.false_ne_true ((hrange.mpr hword).symm.trans herange)
        · exact ne_nil_of_readSigned hread hnil
        · exact hne hrest
      · rename_i hfine
        rw [not_or, not_or, not_not, Bool.not_eq_true, hrest] at hfine
        obtain ⟨herange, -, rfl⟩ := hfine
        rw [hvalue herange, Except.ok.injEq]
        constructor
        · rintro rfl
          exact ⟨neg, m, ⟨rfl, hrange.mp herange⟩, rfl⟩
        · rintro ⟨_, _, ⟨h, -⟩, rfl⟩
          cases h
          rfl

/-- An accepted string becomes its decimal reading if and only if it is exact. -/
theorem decimalReading_eq_wrap_iff {k : IntType} {s : Bytes} {neg : Bool} {m : Nat}
    (h : readSigned (cstr s) = some (neg, m, [])) :
    decimalReading s = some (k.wrap (signed neg m % 2 ^ 64)) ↔
      0 ∉ s ∧ ¬ HexPrefix (signAndRest s).2 ∧
        ((signAndRest s).2.head? = some (ch '0') → m < 8) ∧ k.InRange (signed neg m) := by
  have hread (hnul : 0 ∉ s) : readUnsigned (signAndRest s).2 = some (m, []) ∧
      (signAndRest s).1 = neg := by
    rw [cstr_eq hnul, Text.readSigned_eq, Option.map_eq_some_iff] at h
    obtain ⟨⟨m', rest⟩, hm, he⟩ := h
    cases he
    exact ⟨hm, rfl⟩
  constructor
  · intro hdecimal
    have hnul := Text.not_mem_of_decimalReading hdecimal
    obtain ⟨hm, rfl⟩ := hread hnul
    obtain ⟨heq, hle⟩ := Text.decimalValue_eq_iff hm
    obtain ⟨n, hn, hwrap⟩ := Option.map_eq_some_iff.mp hdecimal
    -- the decimal number is in range, and the one that was read is no larger
    have hrange : k.InRange (signed (signAndRest s).1 m) :=
      IntType.inRange_signed_of_le (hle n hn) (hwrap ▸ k.inRange_wrap _)
    rw [IntType.wrap_of_inRange hrange] at hwrap
    obtain rfl := signed_injective _ hwrap
    exact ⟨hnul, (heq.mp hn).1, (heq.mp hn).2, hrange⟩
  · rintro ⟨hnul, hhex, hoctal, hrange⟩
    obtain ⟨hm, rfl⟩ := hread hnul
    rw [IntType.wrap_of_inRange hrange, decimalReading,
      (Text.decimalValue_eq_iff hm).1.mpr ⟨hhex, hoctal⟩]
    rfl

/-! ## The constructor -/

theorem forall_map_eq_ok {ε α β : Type} {f : α → β} {e : Except ε α} {P : β → Prop} :
    (∀ v, f <$> e = .ok v → P v) ↔ ∀ a, e = .ok a → P (f a) := by
  cases e with
  | error e =>
      refine iff_of_true ?_ ?_
      · rintro v ⟨⟩
      · rintro a ⟨⟩
  | ok a =>
      constructor
      · rintro h _ ⟨⟩
        exact h _ rfl
      · rintro h _ ⟨⟩
        exact h a rfl

/-- The integer types. -/
theorem int_exact_iff (hA : A.Lawful) {t : T} {k : IntType}
    (ht : A.types.peekString t = [k.letter]) (x : LuaVal D V) :
    (∀ v, mkvalSimple A t x = .ok v → Denotes A v (.int k) x) ↔ Exact A (.int k) x := by
  rw [mkvalSimple_intType ht, forall_map_eq_ok]
  have hhas (i : Int) := (hA.values.int k (k.wrap i) (k.inRange_wrap i)).2
  cases x with
  | number n =>
      rw [Exact, ← wrap_luaTointeger_iff]
      constructor
      · intro h
        obtain ⟨-, hn⟩ := h _ rfl
        rwa [(hhas _).2] at hn
      · rintro hn _ ⟨⟩
        exact ⟨(hhas _).1, by rw [hn, (hhas _).2]⟩
  | string s =>
      rw [Exact, ExactString]
      constructor
      · intro h neg m haccepts
        obtain ⟨-, hdecimal⟩ := h _ (fetchInt_string_iff.mpr ⟨neg, m, haccepts, rfl⟩)
        rw [(hhas _).2] at hdecimal
        exact (decimalReading_eq_wrap_iff haccepts.1).mp hdecimal
      · intro h i hi
        obtain ⟨neg, m, haccepts, rfl⟩ := fetchInt_string_iff.mp hi
        refine ⟨(hhas _).1, ?_⟩
        rw [(hhas _).2]
        exact (decimalReading_eq_wrap_iff haccepts.1).mpr (h neg m haccepts)
  | nil | boolean _ | table _ | value _ | special _ _ | other _ =>
      refine iff_of_true ?_ trivial
      rintro i ⟨⟩

/-- Bytes. -/
theorem byte_exact_iff (hA : A.Lawful) {t : T} (ht : A.types.peekString t = [ch 'y'])
    (x : LuaVal D V) :
    (∀ v, mkvalSimple A t x = .ok v → Denotes A v .byte x) ↔ Exact A .byte x := by
  have hmk : mkvalSimple A t x = A.values.newByte <$> fetchByte A x 2 := by
    rw [mkvalSimple, ht]
    rfl
  have hhas (b : Byte) := (hA.values.byte b).2
  rw [hmk, forall_map_eq_ok]
  cases x with
  | number n =>
      have hbyte : ((UInt8.ofNat (A.num.luaTointeger n % 256).toNat).toNat : Int) =
          A.num.luaTointeger n % 256 := by
        rw [UInt8.toNat_ofNat']
        omega
      constructor
      · intro h
        obtain ⟨-, hn⟩ := h _ rfl
        rw [(hhas _).2, hbyte] at hn
        exact ⟨_, hn, by omega, by omega⟩
      · rintro ⟨i, hn, hlo, hhi⟩ _ ⟨⟩
        refine ⟨(hhas _).1, ?_⟩
        rw [(hhas _).2, hbyte, luaTointeger_of_value hn, if_pos (by omega), hn,
          Int.emod_eq_of_lt hlo hhi]
  | string s =>
      refine iff_of_true ?_ trivial
      intro b hb
      rcases s with _ | ⟨b', _ | ⟨c, s⟩⟩
      · cases hb
      · cases hb
        exact ⟨(hhas b).1, by rw [(hhas b).2]⟩
      · cases hb
  | nil | boolean _ | table _ | value _ | special _ _ | other _ =>
      refine iff_of_true ?_ trivial
      rintro i ⟨⟩

/-- Floats. -/
theorem double_exact_iff (hA : A.Lawful) {t : T} (ht : A.types.peekString t = [ch 'd'])
    (x : LuaVal D V) :
    (∀ v, mkvalSimple A t x = .ok v → Denotes A v .double x) ↔ Exact A .double x := by
  have hmk : mkvalSimple A t x = A.values.newDouble <$> checkNumber A x 2 := by
    rw [mkvalSimple, ht]
    rfl
  have hhas (a : D) := (hA.values.double a).2
  have hfloat (n : Number D) : IsNumber A (A.num.luaTonumber n) n ↔ ExactFloat A n := by
    cases n with
    | integer i => exact Iff.rfl
    | float y => exact iff_of_true rfl trivial
  rw [hmk, forall_map_eq_ok]
  cases x with
  | number n =>
      rw [Exact, ← hfloat]
      constructor
      · intro h
        obtain ⟨-, hn⟩ := h _ rfl
        rwa [(hhas _).2] at hn
      · rintro hn _ ⟨⟩
        exact ⟨(hhas _).1, by rwa [(hhas _).2]⟩
  | string s =>
      rw [Exact, checkNumber]
      cases hs : A.num.ofString s with
      | none =>
          refine iff_of_true ?_ ?_
          · rintro a ⟨⟩
          · rintro n ⟨⟩
      | some n =>
          constructor
          · rintro h _ ⟨⟩
            obtain ⟨-, n', hn', hnumber⟩ := h _ rfl
            obtain rfl := Option.some.inj (hs.symm.trans hn')
            rw [(hhas _).2] at hnumber
            exact (hfloat n).mp hnumber
          · rintro h _ ⟨⟩
            refine ⟨(hhas _).1, n, hs, ?_⟩
            rw [(hhas _).2]
            exact (hfloat n).mpr (h n rfl)
  | nil | boolean _ | table _ | value _ | special _ _ | other _ =>
      refine iff_of_true ?_ trivial
      rintro a ⟨⟩

/-- Object paths and signatures: strings that are checked up to the first NUL byte. -/
theorem path_exact_iff {x : LuaVal D V} {c : Class} {valid : Bytes → Bool} {new : Bytes → V}
    {error : LuaError}
    (hhas : ∀ s, valid s = true → 0 ∉ s →
      A.values.classify (new s) = c ∧ A.values.getString (new s) = s) :
    (∀ v, (do
        let s := cstr (← checkString A x 2)
        if valid s then return new s else .error error) = .ok v →
      A.values.classify v = c ∧ checkString A x 2 = .ok (A.values.getString v)) ↔
    ∀ s, checkString A x 2 = .ok s → valid (cstr s) = true → 0 ∉ s := by
  cases hs : checkString A x 2 with
  | error e =>
      refine iff_of_true ?_ ?_
      · rintro v ⟨⟩
      · rintro s ⟨⟩
  | ok s =>
      change (∀ v, (if valid (cstr s) then _ else _) = Except.ok v → _) ↔ _
      split
      · rename_i hvalid
        obtain ⟨hclass, hget⟩ := hhas (cstr s) hvalid (not_mem_cstr s)
        constructor
        · rintro h _ ⟨⟩ -
          obtain ⟨-, hs'⟩ := h _ rfl
          rw [hget, Except.ok.injEq] at hs'
          exact cstr_eq_iff.mp hs'.symm
        · rintro h _ ⟨⟩
          refine ⟨hclass, ?_⟩
          rw [hget, cstr_eq (h s rfl hvalid)]
      · rename_i hvalid
        refine iff_of_true ?_ ?_
        · rintro v ⟨⟩
        · rintro _ ⟨⟩ h
          exact absurd h hvalid

/-- Strings, if those that are valid have no NUL byte. -/
theorem string_denotes (hA : A.Lawful) (hutf8 : ∀ s, A.values.utf8Validate s = true → 0 ∉ s)
    {t : T} (ht : A.types.peekString t = [ch 's']) {x : LuaVal D V} {v : V}
    (h : mkvalSimple A t x = .ok v) : Denotes A v .string x := by
  have hmk : mkvalSimple A t x = A.values.newString <$> fetchUtf8 A x 2 := by
    rw [mkvalSimple, ht]
    rfl
  rw [hmk, fetchUtf8] at h
  cases hs : checkString A x 2 with
  | error e =>
      rw [hs] at h
      cases h
  | ok s =>
      rw [hs] at h
      change A.values.newString <$> (if A.values.utf8Validate s then _ else _) = _ at h
      split at h
      · rename_i hvalid
        have hnul := hutf8 s hvalid
        obtain ⟨-, hclass, hget⟩ := hA.values.string s hvalid hnul
        cases h
        rw [cstr_eq hnul]
        exact ⟨hclass, by rw [hs, hget]⟩
      · cases h

/-- A Lua value is never made into a D-Bus value that does not denote it, if and only if it is
exact. -/
theorem mkvalSimple_exact_iff (hA : A.Lawful)
    (hutf8 : ∀ s, A.values.utf8Validate s = true → 0 ∉ s) {t : T} {ty : SimpleType}
    (ht : A.types.peekString t = [ty.letter]) (x : LuaVal D V) :
    (∀ v, mkvalSimple A t x = .ok v → Denotes A v ty x) ↔ Exact A ty x := by
  cases ty with
  | boolean =>
      have hmk : mkvalSimple A t x = A.values.newBoolean <$> fetchBool x 2 := by
        rw [mkvalSimple, ht]
        rfl
      rw [hmk, forall_map_eq_ok]
      refine iff_of_true ?_ trivial
      intro b hb
      obtain ⟨-, hclass, hget⟩ := hA.values.boolean b
      cases x with
      | boolean b' =>
          cases hb
          exact ⟨hclass, by rw [hget]⟩
      | nil | number _ | string _ | table _ | value _ | special _ _ | other _ => cases hb
  | byte => exact byte_exact_iff hA ht x
  | int k => exact int_exact_iff hA ht x
  | double => exact double_exact_iff hA ht x
  | string =>
      refine iff_of_true ?_ trivial
      intro v hv
      exact string_denotes hA hutf8 ht hv
  | objectPath =>
      rw [mkvalSimple, ht]
      exact path_exact_iff fun s hvalid hnul => (hA.values.objectPath s hvalid hnul).2
  | signature =>
      rw [mkvalSimple, ht]
      exact path_exact_iff fun s hvalid hnul => (hA.values.signature s hvalid hnul).2

/-! ## Values that are not exact -/

theorem not_mem_of_utf8Validate {s : Bytes} (h : treeValues.utf8Validate s = true) : 0 ∉ s :=
  fun hmem => absurd (List.all_eq_true.mp h 0 hmem) (by decide)

/-- The least integer is exact for `n`. -/
theorem mkvalSimple_exact_iff_least :
    mkvalSimple treeApi (.simple [ch 'n']) (.number (.integer ⟨-2 ^ 15, by decide⟩)) =
      .ok (.int .int16 (-2 ^ 15)) ∧
    ∀ v, mkvalSimple treeApi (.simple [ch 'n']) (.number (.integer ⟨-2 ^ 15, by decide⟩)) = .ok v →
      Denotes treeApi v (.int .int16) (.number (.integer ⟨-2 ^ 15, by decide⟩)) :=
  ⟨rfl, (mkvalSimple_exact_iff treeApi_lawful (fun _ => not_mem_of_utf8Validate) rfl _).mpr
    ⟨-2 ^ 15, rfl, by decide, by decide⟩⟩

/-- The number 70000 becomes 4464 for `n`. -/
theorem mkvalSimple_not_exact :
    mkvalSimple treeApi (.simple [ch 'n']) (.number (.integer ⟨70000, by decide⟩)) =
      .ok (.int .int16 4464) ∧
    ¬ ∀ v, mkvalSimple treeApi (.simple [ch 'n']) (.number (.integer ⟨70000, by decide⟩)) = .ok v →
      Denotes treeApi v (.int .int16) (.number (.integer ⟨70000, by decide⟩)) := by
  have hmk : mkvalSimple treeApi (.simple [ch 'n']) (.number (.integer ⟨70000, by decide⟩)) =
    .ok (.int .int16 4464) := rfl
  refine ⟨hmk, fun h => ?_⟩
  obtain ⟨-, hvalue⟩ := h _ hmk
  exact absurd (Option.some.inj hvalue) (by decide)

end Luastatus.Dbus

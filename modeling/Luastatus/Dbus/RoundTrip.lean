import Luastatus.Lib.Fallible
import Luastatus.Dbus.Mkval
import Luastatus.Dbus.Cvt

/-!
# Round trips of D-Bus values

`Canonical A t x y` says that the Lua value `x` is in range and of the documented shape for the type
`t`, and that `y` is its canonical form: what `cvt` is to return for the D-Bus value made of it.

A number goes through `lua_tointeger`, so a number from 2^63 on, which `t` allows, becomes zero
(`LosesNumber`).  All other values come back (`roundTrip`).  `Malformed` are the values of the wrong
shape for a container, and those throw an error (`mkvalOfDtype_malformed`).
-/

namespace Luastatus.Dbus

open Fallible (bind_eq_ok)
open Text (Byte Bytes ch lit decimal decimalInt Spells)
open Lua

variable {D T V : Type}

/-! ## Canonical forms -/

section Definitions

variable (A : Api D T V)

mutual

/-- A value of the documented shape for a type, and its canonical form. -/
inductive Canonical : Dtype → LuaVal D V → LuaVal D V → Prop where
  | boolean (b : Bool) : Canonical (.basic .boolean) (.boolean b) (.boolean b)
  | byteNumber {n : Number D} {i : Int} (hn : A.num.integerValue n = some i) (hlo : 0 ≤ i)
      (hhi : i ≤ 255) : Canonical (.basic .byte) (.number n) (.string (decimalInt i))
  | byteString (b : Byte) :
      Canonical (.basic .byte) (.string [b]) (.string (decimal b.toNat))
  | intNumber (k : IntType) {n : Number D} {i : Int} (hn : A.num.integerValue n = some i)
      (hi : k.InRange i) : Canonical (.basic (.int k)) (.number n) (.string (decimalInt i))
  | intString (k : IntType) {s : Bytes} {i : Int} (hs : Spells s i) (hi : k.InRange i) :
      Canonical (.basic (.int k)) (.string s) (.string (decimalInt i))
  | double (n : Number D) :
      Canonical (.basic .double) (.number n) (.number (.float (A.num.luaTonumber n)))
  | string {s : Bytes} (hs : A.values.utf8Validate s = true) (hnul : 0 ∉ s) :
      Canonical (.basic .string) (.string s) (.string s)
  | objectPath {s : Bytes} (hs : A.values.isObjectPath s = true) (hnul : 0 ∉ s) :
      Canonical (.basic .objectPath) (.string s) (.string s)
  | signature {s : Bytes} (hs : A.values.isSignature s = true) (hnul : 0 ∉ s) :
      Canonical (.basic .signature) (.string s) (.string s)
  | array {elem : Dtype} {xs ys : List (LuaVal D V)} (hlen : xs.length ≤ luaMaxInteger)
      (h : CanonicalItems (List.replicate xs.length elem) xs ys) :
      Canonical (.array elem) (.table xs) (.table ys)
  | tuple {items : List Dtype} {xs ys : List (LuaVal D V)} (hlen : xs.length ≤ luaMaxInteger)
      (h : CanonicalItems items xs ys) : Canonical (.tuple items) (.table xs) (.table ys)
  | dictEntry {key : BasicLetter} {value : Dtype} {xs ys : List (LuaVal D V)}
      (h : CanonicalItems [.basic key, value] xs ys) :
      Canonical (.dictEntry key value) (.table xs) (.table ys)

/-- As many values as types, each with its canonical form. -/
inductive CanonicalItems : List Dtype → List (LuaVal D V) → List (LuaVal D V) → Prop where
  | nil : CanonicalItems [] [] []
  | cons {t : Dtype} {ts : List Dtype} {x y : LuaVal D V} {xs ys : List (LuaVal D V)}
      (h : Canonical t x y) (hs : CanonicalItems ts xs ys) :
      CanonicalItems (t :: ts) (x :: xs) (y :: ys)

end

mutual

/-- What `cvt` counts down for a value. -/
def LuaVal.nesting : LuaVal D V → Nat
  | .table xs => nestings xs + 2
  | .nil => 1
  | .boolean _ => 1
  | .number _ => 1
  | .string _ => 1
  | .value _ => 1
  | .special _ _ => 1
  | .other _ => 1

/-- The same for the deepest of some values. -/
def nestings : List (LuaVal D V) → Nat
  | [] => 0
  | x :: xs => max x.nesting (nestings xs)

end

/-- A number of a type that is too large for `lua_Integer`. -/
def LosesBasic (c : BasicLetter) : LuaVal D V → Prop
  | .number n => c = .int .uint64 ∧ ∃ i, A.num.integerValue n = some i ∧ 2 ^ 63 ≤ i
  | _ => False

mutual

/-- Some number in the value is too large for `lua_Integer`. -/
def LosesNumber : Dtype → LuaVal D V → Prop
  | .basic c, x => LosesBasic A c x
  | .array elem, .table xs => ∃ x ∈ xs, LosesNumber elem x
  | .tuple items, .table xs => LosesNumbers items xs
  | .dictEntry key value, .table [x₁, x₂] => LosesBasic A key x₁ ∨ LosesNumber value x₂
  | _, _ => False

/-- The same for some of the items. -/
def LosesNumbers : List Dtype → List (LuaVal D V) → Prop
  | t :: ts, x :: xs => LosesNumber t x ∨ LosesNumbers ts xs
  | _, _ => False

end

end Definitions

/-! ## Types -/

variable {A : Api D T V}

/-- The category of a type. -/
def Dtype.category : Dtype → Category
  | .basic _ => .simple
  | .variant => .simple
  | .array _ => .array
  | .tuple _ => .tuple
  | .dictEntry _ _ => .dictEntry

/-- The first letter of a type. -/
def Dtype.head : Dtype → Byte
  | .basic c => c
  | .variant => ch 'v'
  | .array _ => ch 'a'
  | .tuple _ => ch '('
  | .dictEntry _ _ => ch '{'

theorem getCategory_build (hA : A.Lawful) (t : Dtype) :
    getCategory A (t.build A.types.toTypeOps) = .ok t.category := by
  have hhead : (A.types.peekString (t.build A.types.toTypeOps)).head? = some t.head := by
    rw [hA.types.peekString_build]
    cases t <;> rfl
  have hbasic := hA.types.isBasic_build t
  have hvariant := hA.types.isVariant (t.build A.types.toTypeOps)
  have harray := hA.types.isArray (t.build A.types.toTypeOps)
  have hdict := hA.types.isDictEntry (t.build A.types.toTypeOps)
  have htuple := hA.types.isTuple (t.build A.types.toTypeOps)
  rw [hhead, Option.some.injEq] at hvariant harray hdict htuple
  have hcontainer (hno : ∀ c, t ≠ .basic c) (hv : t.head ≠ ch 'v') :
      ¬ (A.types.isBasic (t.build A.types.toTypeOps) = true ∨
        A.types.isVariant (t.build A.types.toTypeOps) = true) := by
    rintro (h | h)
    · obtain ⟨c, hc⟩ := hbasic.mp h
      exact hno c hc
    · exact hv (hvariant.mp h)
  rw [getCategory]
  cases t with
  | basic c => rw [if_pos (.inl (hbasic.mpr ⟨c, rfl⟩)), Dtype.category]
  | variant => rw [if_pos (.inr (hvariant.mpr rfl)), Dtype.category]
  | array elem =>
      rw [if_neg (hcontainer (by rintro c ⟨⟩) (show ch 'a' ≠ ch 'v' by decide)),
        if_pos (harray.mpr rfl), Dtype.category]
  | tuple items =>
      rw [if_neg (hcontainer (by rintro c ⟨⟩) (show ch '(' ≠ ch 'v' by decide)),
        if_neg (mt harray.mp (show ch '(' ≠ ch 'a' by decide)),
        if_neg (mt hdict.mp (show ch '(' ≠ ch '{' by decide)), if_pos (htuple.mpr rfl),
        Dtype.category]
  | dictEntry key value =>
      rw [if_neg (hcontainer (by rintro c ⟨⟩) (show ch '{' ≠ ch 'v' by decide)),
        if_neg (mt harray.mp (show ch '{' ≠ ch 'a' by decide)), if_pos (hdict.mpr rfl),
        Dtype.category]

/-- A container type has the parts that it was made of. -/
theorem getElemType_build (hA : A.Lawful) (elem : Dtype) :
    getElemType A ((Dtype.array elem).build A.types.toTypeOps) =
      .ok (elem.build A.types.toTypeOps) := by
  have harray := (hA.types.isArray ((Dtype.array elem).build A.types.toTypeOps)).mpr
    (by rw [hA.types.peekString_build]; rfl)
  rw [getElemType, if_pos harray, Dtype.build, hA.types.element]

theorem getItemTypes_build (hA : A.Lawful) (items : List Dtype) :
    getItemTypes A ((Dtype.tuple items).build A.types.toTypeOps) =
      if items.length ≤ luaMaxInteger then .ok (items.map (·.build A.types.toTypeOps))
      else .error (.error (lit "tuple type has too many elements")) := by
  have htuple := (hA.types.isTuple ((Dtype.tuple items).build A.types.toTypeOps)).mpr
    (by rw [hA.types.peekString_build]; rfl)
  rw [getItemTypes, if_pos htuple, Dtype.build, hA.types.items, buildAll_eq_map, List.length_map]

theorem getKvTypes_build (hA : A.Lawful) (key : BasicLetter) (value : Dtype) :
    getKvTypes A ((Dtype.dictEntry key value).build A.types.toTypeOps) =
      .ok ((Dtype.basic key).build A.types.toTypeOps, value.build A.types.toTypeOps) := by
  have hdict := (hA.types.isDictEntry ((Dtype.dictEntry key value).build
    A.types.toTypeOps)).mpr (by rw [hA.types.peekString_build]; rfl)
  rw [getKvTypes, if_pos hdict]
  simp only [Dtype.build, hA.types.key, hA.types.value]

/-! ## Simple values -/

/-- What comes back of a value: it has the type, and is what is expected unless a number is lost. -/
def Returns (A : Api D T V) (t : Dtype) (x y : LuaVal D V) (v : V) : Prop :=
  A.values.getType v = t.build A.types.toTypeOps ∧
    ∀ recurlim, x.nesting ≤ recurlim → (pushGvariant A v recurlim = y ↔ ¬ LosesNumber A t x)

/-- A value without numbers from 2^63 on, of which `push_gvariant` makes what is expected. -/
theorem Returns.simple {t : Dtype} {x y : LuaVal D V} {v : V}
    (htype : A.values.getType v = t.build A.types.toTypeOps) (hx : x.nesting = 1)
    (hpush : ∀ recurlim, pushGvariant A v (recurlim + 1) = y) (hloses : ¬ LosesNumber A t x) :
    Returns A t x y v := by
  refine ⟨htype, fun recurlim hle => iff_of_true ?_ hloses⟩
  obtain ⟨k, rfl⟩ := Nat.exists_eq_add_of_le (hx ▸ hle)
  rw [Nat.add_comm]
  exact hpush k

theorem mkvalOfDtype_basic (hA : A.Lawful) (c : BasicLetter) (x : LuaVal D V) :
    mkvalOfDtype A ((Dtype.basic c).build A.types.toTypeOps) x =
      mkvalSimple A (A.types.new [c.1]) x := by
  rw [mkvalOfDtype.eq_def, getCategory_build hA]
  rfl

theorem luaTointeger_of_value {N : NumberOps D} {n : Number D} {i : Int}
    (hn : N.integerValue n = some i) :
    N.luaTointeger n = if -2 ^ 63 ≤ i ∧ i < 2 ^ 63 then i else 0 := by
  rw [NumberOps.luaTointeger, hn]

theorem mkvalSimple_intType {t : T} {k : IntType} (ht : A.types.peekString t = [k.letter])
    (x : LuaVal D V) :
    mkvalSimple A t x = (A.values.newInt k <| k.wrap ·) <$> fetchInt A x 2 k.isSigned := by
  have hb : k.letter ≠ ch 'b' := by cases k <;> decide
  have hy : k.letter ≠ ch 'y' := by cases k <;> decide
  rw [mkvalSimple, ht]
  simp only [if_neg hb, if_neg hy, IntType.ofLetter_letter]

theorem mkvalSimple_int {t : T} {k : IntType} (ht : A.types.peekString t = [k.letter])
    {x : LuaVal D V} {i : Int} (hx : fetchInt A x 2 k.isSigned = .ok i) :
    mkvalSimple A t x = .ok (A.values.newInt k (k.wrap i)) := by
  rw [mkvalSimple_intType ht, hx]
  rfl

theorem fetchByte_number {n : Number D} {i : Int} (hn : A.num.integerValue n = some i)
    (hlo : 0 ≤ i) (hhi : i ≤ 255) :
    fetchByte A (.number n : LuaVal D V) 2 = .ok (UInt8.ofNat i.toNat) := by
  rw [fetchByte, luaTointeger_of_value hn, if_pos (by omega), Int.emod_eq_of_lt hlo (by omega)]

theorem fetchInt_string {s : Bytes} {i : Int} {k : IntType} (hs : Spells s i) (hi : k.InRange i) :
    fetchInt A (.string s) 2 k.isSigned = .ok (i % 2 ^ 64) := by
  obtain ⟨hne, hnul⟩ := hs.isCString
  have hread : (if k.isSigned then Text.strtoll s else Text.strtoull s) = ⟨i, [], false⟩ := by
    split
    · rename_i hsigned
      have hlt := k.lt_of_inRange hi fun he => by
        rw [he] at hsigned
        cases hsigned
      exact Text.strtoll_of_spells hs hlt.1 hlt.2
    · have hlt : 0 ≤ i ∧ i < 2 ^ 64 := by
        cases k <;> simp_all [IntType.InRange, IntType.isSigned, IntType.bits] <;> omega
      exact Text.strtoull_of_spells hs hlt.1 hlt.2
  rw [fetchInt]
  simp only [cstr_eq hnul, hread]
  rw [if_neg (by simp [hne])]

/-- Different integers have different strings. -/
theorem decimalInt_ne_zero {i : Int} (hlo : 2 ^ 63 ≤ i) (hhi : i < 2 ^ 64) :
    decimalInt 0 ≠ decimalInt i := by
  intro he
  have hzero := Text.strtoull_of_spells (Text.spells_decimalInt 0) (by omega) (by omega)
  have hi := Text.strtoull_of_spells (Text.spells_decimalInt i) (by omega) hhi
  rw [he, hi] at hzero
  have := congrArg Text.Strto.value hzero
  simp only at this
  omega

/-- A value that was made of an integer. -/
theorem Returns.int (hA : A.Lawful) {k : IntType} {x : LuaVal D V} {i : Int} (hi : k.InRange i)
    (hx : x.nesting = 1) (hloses : ¬ LosesNumber A (.basic (.int k)) x) :
    Returns A (.basic (.int k)) x (.string (decimalInt i)) (A.values.newInt k i) := by
  obtain ⟨htype, hclass, hget⟩ := hA.values.int k i hi
  refine Returns.simple htype hx (fun recurlim => ?_) hloses
  rw [pushGvariant, hclass]
  simp only [hget]

theorem intNumber_returns (hA : A.Lawful) (k : IntType) {n : Number D} {i : Int}
    (hn : A.num.integerValue n = some i) (hi : k.InRange i) :
    ∃ v, mkvalSimple A (A.types.new [k.letter]) (.number n) = .ok v ∧
      Returns A (.basic (.int k)) (.number n) (.string (decimalInt i)) v := by
  have hmk := mkvalSimple_int (hA.types.new k.letter (.inl k.letter_mem))
    (x := (.number n : LuaVal D V)) rfl
  rw [luaTointeger_of_value hn] at hmk
  by_cases hlt : -2 ^ 63 ≤ i ∧ i < 2 ^ 63
  · rw [if_pos hlt, IntType.wrap_of_inRange hi] at hmk
    refine ⟨_, hmk, ?_⟩
    refine Returns.int hA hi rfl ?_
    rintro ⟨-, j, hj, hle⟩
    cases hn.symm.trans hj
    omega
  · -- the number is lost
    have hk : k = .uint64 := by
      by_contra hk
      exact hlt (k.lt_of_inRange hi hk)
    subst hk
    have hrange : 0 ≤ i ∧ i < 2 ^ 64 := hi
    have hbig : 2 ^ 63 ≤ i := by omega
    rw [if_neg hlt, show IntType.uint64.wrap (0 % 2 ^ 64) = 0 from rfl] at hmk
    refine ⟨_, hmk, ?_⟩
    obtain ⟨htype, hclass, hget⟩ := hA.values.int .uint64 0 (by decide)
    refine ⟨htype, fun recurlim hle => iff_of_false ?_ ?_⟩
    · obtain ⟨j, rfl⟩ := Nat.exists_eq_add_of_le' hle
      intro he
      have hpush : pushGvariant A (A.values.newInt .uint64 0) (j + 1) =
          .string (decimalInt 0) := by
        rw [pushGvariant, hclass]
        simp only [hget]
      have := hpush.symm.trans he
      rw [LuaVal.string.injEq] at this
      exact decimalInt_ne_zero hbig hrange.2 this
    · exact not_not.mpr ⟨rfl, i, hn, hbig⟩

/-- A value of a basic type comes back, unless it is a number that is lost. -/
theorem basic_returns (hA : A.Lawful) {c : BasicLetter} {x y : LuaVal D V}
    (h : Canonical A (.basic c) x y) :
    ∃ v, mkvalSimple A (A.types.new [c.1]) x = .ok v ∧ Returns A (.basic c) x y v := by
  have hpeek (c : BasicLetter) := hA.types.new c.1 (.inl c.2)
  have hno {c : BasicLetter} (hc : c ≠ .int .uint64) (x : LuaVal D V) :
      ¬ LosesNumber A (.basic c) x := by
    cases x with
    | number n => exact fun h => hc h.1
    | nil | boolean _ | string _ | table _ | value _ | special _ _ | other _ => exact id
  cases h with
  | boolean b =>
      obtain ⟨htype, hclass, hget⟩ := hA.values.boolean b
      refine ⟨A.values.newBoolean b, ?_, Returns.simple htype rfl (fun _ => ?_) (hno (by decide) _)⟩
      · rw [mkvalSimple, hpeek .boolean]
        rfl
      · rw [pushGvariant, hclass]
        simp only [hget]
  | @byteNumber n i hn hlo hhi =>
      obtain ⟨htype, hclass, hget⟩ := hA.values.byte (UInt8.ofNat i.toNat)
      refine ⟨_, ?_, Returns.simple htype rfl (fun _ => ?_) (hno (by decide) _)⟩
      · rw [mkvalSimple, hpeek .byte]
        change A.values.newByte <$> fetchByte A (.number n) 2 = _
        rw [fetchByte_number hn hlo hhi]
        rfl
      · rw [pushGvariant, hclass]
        simp only [hget]
        rw [UInt8.toNat_ofNat', Nat.mod_eq_of_lt (by omega), decimalInt, if_neg (by omega),
          show i.toNat = i.natAbs by omega]
  | byteString b =>
      obtain ⟨htype, hclass, hget⟩ := hA.values.byte b
      refine ⟨A.values.newByte b, ?_, Returns.simple htype rfl (fun _ => ?_) (hno (by decide) _)⟩
      · rw [mkvalSimple, hpeek .byte]
        rfl
      · rw [pushGvariant, hclass]
        simp only [hget]
  | intNumber k hn hi => exact intNumber_returns hA k hn hi
  | intString k hs hi =>
      have hmk := mkvalSimple_int (hpeek (.int k)) (fetchInt_string (A := A) hs hi)
      rw [IntType.wrap_of_inRange hi] at hmk
      exact ⟨_, hmk, Returns.int hA hi rfl id⟩
  | double n =>
      obtain ⟨htype, hclass, hget⟩ := hA.values.double (A.num.luaTonumber n)
      refine ⟨_, ?_, Returns.simple htype rfl (fun _ => ?_) (hno (by decide) _)⟩
      · rw [mkvalSimple, hpeek .double]
        rfl
      · rw [pushGvariant, hclass]
        simp only [hget]
  | @string s hs hnul =>
      obtain ⟨htype, hclass, hget⟩ := hA.values.string s hs hnul
      refine ⟨_, ?_, Returns.simple htype rfl (fun _ => ?_) (hno (by decide) _)⟩
      · rw [mkvalSimple, hpeek .string]
        have : fetchUtf8 A (.string s) 2 = .ok s := by
          rw [fetchUtf8, checkString]
          simp only [bind, Except.bind, if_pos hs, cstr_eq hnul]
          rfl
        change A.values.newString <$> fetchUtf8 A (.string s) 2 = _
        rw [this]
        rfl
      · rw [pushGvariant, hclass]
        simp only [hget]
  | @objectPath s hs hnul =>
      obtain ⟨htype, hclass, hget⟩ := hA.values.objectPath s hs hnul
      refine ⟨_, ?_, Returns.simple htype rfl (fun _ => ?_) (hno (by decide) _)⟩
      · rw [mkvalSimple, hpeek .objectPath]
        change (if A.values.isObjectPath (cstr s) then _ else _) = _
        rw [cstr_eq hnul, if_pos hs]
        rfl
      · rw [pushGvariant, hclass]
        simp only [hget]
  | @signature s hs hnul =>
      obtain ⟨htype, hclass, hget⟩ := hA.values.signature s hs hnul
      refine ⟨_, ?_, Returns.simple htype rfl (fun _ => ?_) (hno (by decide) _)⟩
      · rw [mkvalSimple, hpeek .signature]
        change (if A.values.isSignature (cstr s) then _ else _) = _
        rw [cstr_eq hnul, if_pos hs]
        rfl
      · rw [pushGvariant, hclass]
        simp only [hget]

/-! ## Containers -/

/-- What comes back of the items of a container. -/
def ItemsReturn (A : Api D T V) (ts : List Dtype) (xs ys : List (LuaVal D V)) (vs : List V) :
    Prop :=
  vs.map A.values.getType = ts.map (·.build A.types.toTypeOps) ∧
    ∀ recurlim, nestings xs ≤ recurlim →
      (vs.map (pushGvariant A · recurlim) = ys ↔ ¬ LosesNumbers A ts xs)

theorem ItemsReturn.nil : ItemsReturn A [] [] [] [] :=
  ⟨rfl, fun _ _ => iff_of_true rfl id⟩

theorem ItemsReturn.cons {t : Dtype} {ts : List Dtype} {x y : LuaVal D V}
    {xs ys : List (LuaVal D V)} {v : V} {vs : List V} (h : Returns A t x y v)
    (hs : ItemsReturn A ts xs ys vs) : ItemsReturn A (t :: ts) (x :: xs) (y :: ys) (v :: vs) := by
  refine ⟨?_, fun recurlim hle => ?_⟩
  · rw [List.map_cons, List.map_cons, h.1, hs.1]
  · rw [nestings, Nat.max_le] at hle
    rw [List.map_cons, List.cons.injEq, h.2 recurlim hle.1, hs.2 recurlim hle.2, LosesNumbers,
      not_or]

theorem ItemsReturn.length_eq {ts : List Dtype} {xs ys : List (LuaVal D V)} {vs : List V}
    (h : ItemsReturn A ts xs ys vs) : vs.length = ts.length := by
  have := congrArg List.length h.1
  rwa [List.length_map, List.length_map] at this

/-- A container comes back if its items do. -/
theorem Returns.container {t : Dtype} {ts : List Dtype} {xs ys : List (LuaVal D V)} {v : V}
    {vs : List V} {c : Class}
    (hv : A.values.Has v (t.build A.types.toTypeOps) c A.values.children vs)
    (hc : c = .array ∨ c = .tuple ∨ c = .dictEntry) (hlen : vs.length ≤ luaMaxInteger)
    (hloses : LosesNumber A t (.table xs) ↔ LosesNumbers A ts xs) (h : ItemsReturn A ts xs ys vs) :
    Returns A t (.table xs) (.table ys) v := by
  obtain ⟨htype, hclass, hchildren⟩ := hv
  refine ⟨htype, fun recurlim hle => ?_⟩
  obtain ⟨k, rfl⟩ := Nat.exists_eq_add_of_le' (Nat.le_of_add_left_le hle)
  have hnest : nestings xs ≤ k := by
    rw [LuaVal.nesting] at hle
    omega
  have hpush : pushGvariant A v (k + 2) = .table (vs.map (pushGvariant A · k)) := by
    rw [pushGvariant, hclass]
    rcases hc with rfl | rfl | rfl <;>
      simp only [pushGvariantIterable, hchildren, if_pos hlen]
  rw [hpush, LuaVal.table.injEq, h.2 k hnest, hloses]

/-- The elements of an array are items of one type. -/
theorem mkvalElems_eq (t : T) (xs : List (LuaVal D V)) :
    mkvalElems A t xs = mkvalItems A (List.replicate xs.length t) xs := by
  induction xs with
  | nil => rfl
  | cons x xs ih => rw [mkvalElems, ih, List.length_cons, List.replicate_succ, mkvalItems]

theorem losesNumbers_replicate (t : Dtype) (xs : List (LuaVal D V)) :
    LosesNumbers A (List.replicate xs.length t) xs ↔ ∃ x ∈ xs, LosesNumber A t x := by
  induction xs with
  | nil => simp [LosesNumbers]
  | cons x xs ih =>
      rw [List.length_cons, List.replicate_succ, LosesNumbers, ih]
      exact (List.exists_mem_cons_iff _ x xs).symm

theorem checkElems_of_forall (hA : A.Lawful) {t : T} {vs : List V}
    (h : ∀ v ∈ vs, A.values.getType v = t) (i : Nat) : checkElems A t i vs = .ok () := by
  induction vs generalizing i with
  | nil => rfl
  | cons v vs ih =>
      rw [checkElems, h v List.mem_cons_self, if_pos (hA.types.equal_refl t)]
      exact ih (fun v' hv' => h v' (List.mem_cons_of_mem v hv')) (i + 1)

theorem length_of_canonicalItems {ts : List Dtype} {xs ys : List (LuaVal D V)}
    (h : CanonicalItems A ts xs ys) : ts.length = xs.length := by
  induction ts generalizing xs ys with
  | nil =>
      cases h
      rfl
  | cons t ts ih =>
      cases h with
      | cons _ hs => rw [List.length_cons, List.length_cons, ih hs]

mutual

/-- A value of the documented shape is accepted, and comes back unless a number is lost. -/
theorem canonical_returns (hA : A.Lawful) : ∀ {t : Dtype} {x y : LuaVal D V}, Canonical A t x y →
    ∃ v, mkvalOfDtype A (t.build A.types.toTypeOps) x = .ok v ∧ Returns A t x y v
  | .basic c, x, y, h => by
      rw [mkvalOfDtype_basic hA]
      exact basic_returns hA h
  | .array elem, _, _, @Canonical.array _ _ _ _ _ xs _ hlen h => by
      obtain ⟨vs, hmk, hreturn⟩ := canonicalItems_return hA h
      have htypes : ∀ v ∈ vs, A.values.getType v = elem.build A.types.toTypeOps := by
        have hmap := hreturn.1
        rw [List.map_replicate] at hmap
        intro v hv
        have := hmap ▸ List.mem_map_of_mem hv
        exact List.eq_of_mem_replicate this
      rw [List.map_replicate] at hmk
      refine ⟨A.values.newArray (elem.build A.types.toTypeOps) vs, ?_,
        Returns.container (hA.values.array _ vs htypes) (.inl rfl) ?_ ?_ hreturn⟩
      · rw [mkvalOfDtype.eq_def, getCategory_build hA, Dtype.category]
        simp only [getElemType_build hA, mkvalElems_eq, hmk, bind, Except.bind, mkvalArray,
          checkElems_of_forall hA htypes]
        rfl
      · rw [hreturn.length_eq, List.length_replicate]
        exact hlen
      · rw [losesNumbers_replicate, LosesNumber]
  | .tuple items, _, _, @Canonical.tuple _ _ _ _ _ xs _ hlen h => by
      obtain ⟨vs, hmk, hreturn⟩ := canonicalItems_return hA h
      have hitems : items.length = xs.length := length_of_canonicalItems h
      have htuple := hA.values.tuple vs
      rw [hreturn.1, ← buildAll_eq_map] at htuple
      refine ⟨A.values.newTuple vs, ?_, Returns.container htuple (.inr (.inl rfl)) ?_ ?_ hreturn⟩
      · have htypes := getItemTypes_build hA items
        rw [if_pos (hitems.symm ▸ hlen)] at htypes
        rw [mkvalOfDtype.eq_def, getCategory_build hA, Dtype.category]
        refine bind_eq_ok.mpr ⟨_, htypes, bind_eq_ok.mpr ⟨(), luaAssert_eq_ok.mpr ?_, ?_⟩⟩
        · rw [List.length_map, hitems]
        · rw [hmk]
          rfl
      · rw [hreturn.length_eq, hitems]
        exact hlen
      · rw [LosesNumber]
  | .dictEntry key value, _, _, .dictEntry (.cons hk (.cons hv .nil)) => by
      rename_i x₁ x₂ y₁ y₂
      obtain ⟨k, hmk, hkreturn⟩ := basic_returns hA hk
      obtain ⟨v, hmv, hvreturn⟩ := canonical_returns hA hv
      have hbasic : A.types.isBasic (A.values.getType k) = true := by
        rw [hkreturn.1, hA.types.isBasic_build]
        exact ⟨key, rfl⟩
      have hentry := hA.values.dictEntry k v hbasic
      rw [hkreturn.1, hvreturn.1] at hentry
      have hreturn : ItemsReturn A [.basic key, value] [x₁, x₂] [y₁, y₂] [k, v] :=
        .cons hkreturn (.cons hvreturn .nil)
      refine ⟨A.values.newDictEntry k v, ?_, Returns.container hentry (.inr (.inr rfl))
        (show 2 ≤ luaMaxInteger by decide) ?_ hreturn⟩
      · rw [mkvalOfDtype.eq_def, getCategory_build hA, Dtype.category]
        simp only [getKvTypes_build hA, mkvalOfDtype_basic hA, hmk, hmv, bind, Except.bind,
          mkvalDictEntry, if_pos hbasic]
      · simp [LosesNumber, LosesNumbers]

/-- The items of a container. -/
theorem canonicalItems_return (hA : A.Lawful) : ∀ {ts : List Dtype} {xs ys : List (LuaVal D V)},
    CanonicalItems A ts xs ys →
      ∃ vs, mkvalItems A (ts.map (·.build A.types.toTypeOps)) xs = .ok vs ∧
        ItemsReturn A ts xs ys vs
  | [], _, _, .nil => ⟨[], rfl, .nil⟩
  | t :: ts, _, _, .cons h hs => by
      obtain ⟨v, hmk, hreturn⟩ := canonical_returns hA h
      obtain ⟨vs, hmks, hreturns⟩ := canonicalItems_return hA hs
      refine ⟨v :: vs, ?_, .cons hreturn hreturns⟩
      rw [List.map_cons, mkvalItems, hmk, hmks]
      rfl

end

/-! ## Values of the wrong shape -/

/-- Somewhere a container is expected and there is no table, or a tuple or a dict entry has the
wrong length. -/
inductive Malformed : Dtype → LuaVal D V → Prop where
  | array {t : Dtype} {x : LuaVal D V} (h : ∀ xs, x ≠ .table xs) : Malformed (.array t) x
  | tuple {ts : List Dtype} {x : LuaVal D V} (h : ∀ xs, x ≠ .table xs) : Malformed (.tuple ts) x
  | dictEntry {key : BasicLetter} {value : Dtype} {x : LuaVal D V} (h : ∀ xs, x ≠ .table xs) :
      Malformed (.dictEntry key value) x
  | tupleLength {ts : List Dtype} {xs : List (LuaVal D V)} (h : xs.length ≠ ts.length) :
      Malformed (.tuple ts) (.table xs)
  | dictEntryLength {key : BasicLetter} {value : Dtype} {xs : List (LuaVal D V)}
      (h : xs.length ≠ 2) : Malformed (.dictEntry key value) (.table xs)
  | elem {t : Dtype} {x : LuaVal D V} {xs : List (LuaVal D V)} (hx : x ∈ xs)
      (h : Malformed t x) : Malformed (.array t) (.table xs)
  | item {ts : List Dtype} {t : Dtype} {x : LuaVal D V} {xs : List (LuaVal D V)}
      (hx : (t, x) ∈ ts.zip xs) (h : Malformed t x) : Malformed (.tuple ts) (.table xs)
  | value {key : BasicLetter} {value : Dtype} {x₁ x₂ : LuaVal D V} (h : Malformed value x₂) :
      Malformed (.dictEntry key value) (.table [x₁, x₂])

/-- If all items are accepted, each of them is. -/
theorem mkvalItems_mem {ts : List T} {xs : List (LuaVal D V)} {vs : List V}
    (h : mkvalItems A ts xs = .ok vs) {t : T} {x : LuaVal D V} (hx : (t, x) ∈ ts.zip xs) :
    ∃ v, mkvalOfDtype A t x = .ok v := by
  induction ts generalizing xs vs with
  | nil => cases hx
  | cons t' ts ih =>
      cases xs with
      | nil => cases hx
      | cons x' xs =>
          obtain ⟨v, hv, h⟩ := bind_eq_ok.mp h
          obtain ⟨vs', hvs, -⟩ := bind_eq_ok.mp h
          rw [List.zip_cons_cons] at hx
          cases List.mem_cons.mp hx with
          | inl he =>
              cases he
              exact ⟨v, hv⟩
          | inr hx => exact ih hvs hx

theorem mkvalElems_mem {t : T} {xs : List (LuaVal D V)} {vs : List V}
    (h : mkvalElems A t xs = .ok vs) {x : LuaVal D V} (hx : x ∈ xs) :
    ∃ v, mkvalOfDtype A t x = .ok v := by
  rw [mkvalElems_eq] at h
  refine mkvalItems_mem h ?_
  obtain ⟨i, hi, rfl⟩ := List.getElem_of_mem hx
  have hlen : i < ((List.replicate xs.length t).zip xs).length := by simpa using hi
  have := List.getElem_mem hlen
  rwa [List.getElem_zip, List.getElem_replicate] at this

/-- Only a table becomes a container. -/
theorem table_of_mkvalOfDtype (hA : A.Lawful) {t : Dtype} {x : LuaVal D V} {v : V}
    (hc : t.category = .array ∨ t.category = .tuple ∨ t.category = .dictEntry)
    (hok : mkvalOfDtype A (t.build A.types.toTypeOps) x = .ok v) : ∃ xs, x = .table xs := by
  rw [mkvalOfDtype.eq_def, getCategory_build hA] at hok
  cases x with
  | table xs => exact ⟨xs, rfl⟩
  | nil | boolean _ | number _ | string _ | value _ | special _ _ | other _ =>
      rcases hc with hc | hc | hc
      all_goals
        rw [hc] at hok
        cases hok

/-- A value of the wrong shape is not accepted. -/
theorem mkvalOfDtype_malformed (hA : A.Lawful) {t : Dtype} {x : LuaVal D V} (h : Malformed t x) :
    ∀ v, mkvalOfDtype A (t.build A.types.toTypeOps) x ≠ .ok v := by
  induction h with
  | array h =>
      intro v hok
      obtain ⟨xs, hxs⟩ := table_of_mkvalOfDtype hA (.inl rfl) hok
      exact h xs hxs
  | tuple h =>
      intro v hok
      obtain ⟨xs, hxs⟩ := table_of_mkvalOfDtype hA (.inr (.inl rfl)) hok
      exact h xs hxs
  | dictEntry h =>
      intro v hok
      obtain ⟨xs, hxs⟩ := table_of_mkvalOfDtype hA (.inr (.inr rfl)) hok
      exact h xs hxs
  | @tupleLength ts xs h =>
      intro v hok
      rw [mkvalOfDtype.eq_def, getCategory_build hA, Dtype.category] at hok
      obtain ⟨types, htypes, hok⟩ := bind_eq_ok.mp hok
      obtain ⟨_, hassert, -⟩ := bind_eq_ok.mp hok
      rw [getItemTypes_build hA] at htypes
      split at htypes
      · cases htypes
        rw [luaAssert_eq_ok, List.length_map] at hassert
        exact h hassert
      · cases htypes
  | @dictEntryLength key value xs h =>
      intro v hok
      rw [mkvalOfDtype.eq_def, getCategory_build hA, Dtype.category] at hok
      match xs with
      | [] => cases (bind_eq_ok.mp hok).choose_spec.2
      | [_] => cases (bind_eq_ok.mp hok).choose_spec.2
      | [_, _] => exact h rfl
      | _ :: _ :: _ :: _ => cases (bind_eq_ok.mp hok).choose_spec.2
  | @elem t x xs hx _ ih =>
      intro v hok
      rw [mkvalOfDtype.eq_def, getCategory_build hA, Dtype.category] at hok
      obtain ⟨elemType, helem, hok⟩ := bind_eq_ok.mp hok
      obtain ⟨elems, helems, -⟩ := bind_eq_ok.mp hok
      cases (getElemType_build hA t).symm.trans helem
      obtain ⟨v', hv'⟩ := mkvalElems_mem helems hx
      exact ih v' hv'
  | @item ts t x xs hx _ ih =>
      intro v hok
      rw [mkvalOfDtype.eq_def, getCategory_build hA, Dtype.category] at hok
      obtain ⟨types, htypes, hok⟩ := bind_eq_ok.mp hok
      obtain ⟨-, -, hok⟩ := bind_eq_ok.mp hok
      obtain ⟨items, hitems, -⟩ := bind_eq_ok.mp hok
      rw [getItemTypes_build hA] at htypes
      split at htypes
      · cases htypes
        have hx' : (t.build A.types.toTypeOps, x) ∈
            (ts.map (·.build A.types.toTypeOps)).zip xs := by
          rw [List.zip_map_left]
          exact List.mem_map.mpr ⟨(t, x), hx, rfl⟩
        obtain ⟨v', hv'⟩ := mkvalItems_mem hitems hx'
        exact ih v' hv'
      · cases htypes
  | @value key value x₁ x₂ _ ih =>
      intro v hok
      rw [mkvalOfDtype.eq_def, getCategory_build hA, Dtype.category] at hok
      obtain ⟨⟨tk, tv⟩, htypes, hok⟩ := bind_eq_ok.mp hok
      obtain ⟨k, -, hok⟩ := bind_eq_ok.mp hok
      obtain ⟨v', hv', -⟩ := bind_eq_ok.mp hok
      cases (getKvTypes_build hA key value).symm.trans htypes
      exact ih v' hv'

/-! ## Round trips -/

/-- What a value of the documented shape is made into has its type and comes back in canonical form,
if and only if no number is lost.  A value of the wrong shape throws an error. -/
theorem roundTrip_iff (hA : A.Lawful) (t : Dtype) (x : LuaVal D V) :
    (∀ y, Canonical A t x y → x.nesting ≤ 200 →
      ((∃ v, mkvalOfDtype A (t.build A.types.toTypeOps) x = .ok v ∧
          A.values.getType v = t.build A.types.toTypeOps ∧ cvt A true (some v) = y) ↔
        ¬ LosesNumber A t x)) ∧
    (Malformed t x → ∃ e, mkvalOfDtype A (t.build A.types.toTypeOps) x = .error e) := by
  constructor
  · intro y hy hnest
    obtain ⟨v, hmk, htype, hpush⟩ := canonical_returns hA hy
    rw [← hpush 200 hnest]
    constructor
    · rintro ⟨v', hmk', -, hcvt⟩
      cases hmk.symm.trans hmk'
      exact hcvt
    · exact fun hcvt => ⟨v, hmk, htype, hcvt⟩
  · intro hmalformed
    cases h : mkvalOfDtype A (t.build A.types.toTypeOps) x with
    | error e => exact ⟨e, rfl⟩
    | ok v => exact absurd h (mkvalOfDtype_malformed hA hmalformed v)

end Luastatus.Dbus

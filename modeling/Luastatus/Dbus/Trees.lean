import Luastatus.Dbus.RoundTrip

/-!
# D-Bus types and values as trees

An implementation of what the plugin uses of GLib, with types and values as trees.  The floats are
those that are equal to integers.
-/

namespace Luastatus.Dbus

open Text (Byte Bytes ch lit decimalInt)

/-! ## Types -/

/-- A type. -/
inductive TypeTree where
  | simple (s : Bytes)
  | array (elem : TypeTree)
  | tuple (items : List TypeTree)
  | dictEntry (key value : TypeTree)

mutual

/-- The type string. -/
def TypeTree.string : TypeTree → Bytes
  | .simple s => s
  | .array elem => ch 'a' :: elem.string
  | .tuple items => ch '(' :: typeStrings items ++ [ch ')']
  | .dictEntry key value => ch '{' :: key.string ++ value.string ++ [ch '}']

def typeStrings : List TypeTree → Bytes
  | [] => []
  | t :: ts => t.string ++ typeStrings ts

end

theorem typeStrings_eq (ts : List TypeTree) : typeStrings ts = ts.flatMap TypeTree.string := by
  induction ts with
  | nil => rfl
  | cons t ts ih => rw [typeStrings, ih, List.flatMap_cons]

/-- The first letter of a type is one of these. -/
def TypeTree.startsWith (letters : Bytes) (t : TypeTree) : Bool :=
  t.string.head?.any (letters.contains ·)

theorem TypeTree.startsWith_iff (letters : Bytes) (t : TypeTree) :
    t.startsWith letters = true ↔ ∃ c ∈ letters, t.string.head? = some c := by
  simp [startsWith, Option.any_eq_true, and_comm]

def treeTypes : TypeQueries TypeTree where
  new := .simple
  newArray := .array
  newTuple := .tuple
  newDictEntry := .dictEntry
  peekString := TypeTree.string
  isBasic := TypeTree.startsWith basicLetters
  isVariant := TypeTree.startsWith [ch 'v']
  isArray := TypeTree.startsWith [ch 'a']
  isTuple := TypeTree.startsWith [ch '(']
  isDictEntry := TypeTree.startsWith [ch '{']
  element
    | .array elem => elem
    | t => t
  items
    | .tuple items => items
    | _ => []
  key
    | .dictEntry key _ => key
    | t => t
  value
    | .dictEntry _ value => value
    | t => t
  equal t t' := t.string = t'.string

theorem treeTypes_lawful : treeTypes.Lawful where
  new _ _ := rfl
  newArray _ := rfl
  newTuple ts := congrArg (ch '(' :: · ++ [ch ')']) (typeStrings_eq ts)
  newDictEntry _ _ := rfl
  isBasic t := t.startsWith_iff basicLetters
  isVariant t := (t.startsWith_iff [ch 'v']).trans (by simp [treeTypes])
  isArray t := (t.startsWith_iff [ch 'a']).trans (by simp [treeTypes])
  isTuple t := (t.startsWith_iff [ch '(']).trans (by simp [treeTypes])
  isDictEntry t := (t.startsWith_iff [ch '{']).trans (by simp [treeTypes])
  element _ := rfl
  items _ := rfl
  key _ _ := rfl
  value _ _ := rfl
  equal_refl _ := decide_eq_true rfl

/-! ## Values -/

/-- A value, without the file handles. -/
inductive ValueTree where
  | boolean (b : Bool)
  | byte (b : Byte)
  | int (k : IntType) (i : Int)
  | double (x : Int)
  | string (s : Bytes)
  | objectPath (s : Bytes)
  | signature (s : Bytes)
  | variant (v : ValueTree)
  | array (elem : TypeTree) (vs : List ValueTree)
  | tuple (vs : List ValueTree)
  | dictEntry (key value : ValueTree)

mutual

/-- The type of a value. -/
def ValueTree.type : ValueTree → TypeTree
  | .boolean _ => .simple [ch 'b']
  | .byte _ => .simple [ch 'y']
  | .int k _ => .simple [k.letter]
  | .double _ => .simple [ch 'd']
  | .string _ => .simple [ch 's']
  | .objectPath _ => .simple [ch 'o']
  | .signature _ => .simple [ch 'g']
  | .variant _ => .simple [ch 'v']
  | .array elem _ => .array elem
  | .tuple vs => .tuple (valueTypes vs)
  | .dictEntry key value => .dictEntry key.type value.type

def valueTypes : List ValueTree → List TypeTree
  | [] => []
  | v :: vs => v.type :: valueTypes vs

end

theorem valueTypes_eq (vs : List ValueTree) : valueTypes vs = vs.map ValueTree.type := by
  induction vs with
  | nil => rfl
  | cons v vs ih => rw [valueTypes, ih, List.map_cons]

def ValueTree.classify : ValueTree → Class
  | .boolean _ => .boolean
  | .byte _ => .byte
  | .int k _ => .int k
  | .double _ => .double
  | .string _ => .string
  | .objectPath _ => .objectPath
  | .signature _ => .signature
  | .variant _ => .variant
  | .array _ _ => .array
  | .tuple _ => .tuple
  | .dictEntry _ _ => .dictEntry

/-- Strings of ASCII characters are valid; an object path begins with a slash, and the types of a
signature are basic. -/
def treeValues : ValueOps Int TypeTree ValueTree where
  newBoolean := .boolean
  newByte := .byte
  newInt := .int
  newDouble := .double
  newString := .string
  newObjectPath := .objectPath
  newSignature := .signature
  newVariant := .variant
  newArray := .array
  newTuple := .tuple
  newDictEntry := .dictEntry
  getType := ValueTree.type
  classify := ValueTree.classify
  getBoolean
    | .boolean b => b
    | _ => false
  getByte
    | .byte b => b
    | _ => 0
  getInt _
    | .int _ i => i
    | _ => 0
  getDouble
    | .double x => x
    | _ => 0
  getString
    | .string s => s
    | .objectPath s => s
    | .signature s => s
    | _ => []
  getVariant
    | .variant v => v
    | v => v
  children
    | .array _ vs => vs
    | .tuple vs => vs
    | .dictEntry key value => [key, value]
    | _ => []
  utf8Validate s := s.all fun b => b ≠ 0 ∧ b < 128
  isObjectPath s := s = [ch '/']
  isSignature s := s.all (basicLetters.contains ·)

theorem treeValues_lawful : treeValues.Lawful treeTypes where
  boolean _ := ⟨rfl, rfl, rfl⟩
  byte _ := ⟨rfl, rfl, rfl⟩
  int _ _ _ := ⟨rfl, rfl, rfl⟩
  double _ := ⟨rfl, rfl, rfl⟩
  string _ _ _ := ⟨rfl, rfl, rfl⟩
  objectPath _ _ _ := ⟨rfl, rfl, rfl⟩
  signature _ _ _ := ⟨rfl, rfl, rfl⟩
  array _ _ _ := ⟨rfl, rfl, rfl⟩
  tuple vs := ⟨congrArg TypeTree.tuple (valueTypes_eq vs), rfl, rfl⟩
  dictEntry _ _ _ := ⟨rfl, rfl, rfl⟩

/-! ## Round trips of trees -/

def treeNumbers : NumberOps Int where
  toInteger x := some x
  ofInteger i := i
  toString
    | .integer i => decimalInt i
    | .float x => decimalInt x
  ofString _ := none

def treeApi : Api Int TypeTree ValueTree := ⟨treeNumbers, treeTypes, treeValues⟩

theorem treeApi_lawful : treeApi.Lawful := ⟨treeTypes_lawful, treeValues_lawful⟩

/-- The values of an array of 32-bit integers come back, and nothing but a table is accepted. -/
theorem roundTrip_iff_int32s :
    (∃ v, mkvalOfDtype treeApi ((Dtype.array (.basic (.int .int32))).build treeTypes.toTypeOps)
        (.table [.number (.integer ⟨-7, by decide⟩), .string (lit "40")]) = .ok v ∧
      v.type = .array (.simple [ch 'i']) ∧
      cvt treeApi true (some v) = .table [.string (decimalInt (-7)), .string (decimalInt 40)]) ∧
    ∃ e, mkvalOfDtype treeApi ((Dtype.array (.basic (.int .int32))).build treeTypes.toTypeOps)
      .nil = .error e := by
  have hforty : Text.Spells (lit "40") 40 := ⟨false, 40, by decide, rfl⟩
  have hlen : [(LuaVal.number (.integer ⟨-7, by decide⟩) : LuaVal Int ValueTree),
      .string (lit "40")].length ≤ luaMaxInteger := show 2 ≤ luaMaxInteger by decide
  have hcanonical : Canonical treeApi (.array (.basic (.int .int32)))
      (.table [.number (.integer ⟨-7, by decide⟩), .string (lit "40")])
      (.table [.string (decimalInt (-7)), .string (decimalInt 40)]) :=
    .array hlen (.cons (.intNumber .int32 rfl (by decide))
      (.cons (.intString .int32 hforty (by decide)) .nil))
  refine ⟨((roundTrip_iff treeApi_lawful _ _).1 _ hcanonical (by decide)).mpr ?_,
    (roundTrip_iff treeApi_lawful _ _).2 (.array nofun)⟩
  rintro ⟨x, hx, hloses⟩
  rcases List.mem_cons.mp hx with rfl | hx
  · exact absurd hloses.1 (by decide)
  · rw [List.mem_singleton.mp hx] at hloses
    exact hloses

/-- The number 2^63 is in range for an unsigned integer of 64 bits, and becomes zero. -/
theorem roundTrip_loses_number :
    Canonical treeApi (.basic (.int .uint64)) (.number (.float (2 ^ 63)))
      (.string (decimalInt (2 ^ 63))) ∧
    (LuaVal.number (.float (2 ^ 63)) : LuaVal Int ValueTree).nesting ≤ 200 ∧
    mkvalOfDtype treeApi (.simple [ch 't']) (.number (.float (2 ^ 63))) = .ok (.int .uint64 0) ∧
    ¬ ∃ v, mkvalOfDtype treeApi (.simple [ch 't']) (.number (.float (2 ^ 63))) = .ok v ∧
      v.type = .simple [ch 't'] ∧ cvt treeApi true (some v) = .string (decimalInt (2 ^ 63)) := by
  have hmk : mkvalOfDtype treeApi (.simple [ch 't']) (.number (.float (2 ^ 63))) =
      .ok (.int .uint64 0) := rfl
  refine ⟨.intNumber .uint64 rfl (by decide), by decide, hmk, ?_⟩
  rintro ⟨v, hv, -, hcvt⟩
  cases hmk.symm.trans hv
  have hcvt : decimalInt 0 = decimalInt (2 ^ 63) := LuaVal.string.inj hcvt
  exact decimalInt_ne_zero (Int.le_refl _) (by decide) hcvt

end Luastatus.Dbus

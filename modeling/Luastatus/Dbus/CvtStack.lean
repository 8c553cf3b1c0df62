import Luastatus.Dbus.Trees

/-!
# The Lua stack and the depth limit of `cvt`

`cvt` reserves 210 slots of the Lua stack once and starts with a depth limit of 200.  Here the
conversion is followed on the stack itself, with the highest level that it reaches:
`pushGvariantStack_eq` says that it pushes what `pushGvariant` returns, and how high it gets.

A `Gvariant` is a D-Bus value as a tree, and `Represents` says that GLib's functions show this tree.
Its `cost` is what the limit must be at least, and `cut` is the conversion with placeholders where
the limit is exhausted.
-/

namespace Luastatus.Dbus

open Text (Byte Bytes lit decimal decimalInt)

/-! ## The stack -/

/-- The Lua stack, the top first, and the greatest height that it had. -/
structure Stack (D V : Type) where
  slots : List (LuaVal D V)
  peak : Nat

namespace Stack

variable {D V : Type}

/-- Push a value. -/
def push (L : Stack D V) (x : LuaVal D V) : Stack D V where
  slots := x :: L.slots
  peak := max L.peak (L.slots.length + 1)

/-- Pop some values. -/
def pop (L : Stack D V) (n : Nat) : Stack D V := { L with slots := L.slots.drop n }

/-- Set an index of an array. -/
def setItem (items : List (LuaVal D V)) (i : Nat) (x : LuaVal D V) : List (LuaVal D V) :=
  if i = items.length + 1 then items ++ [x] else items.set (i - 1) x

/-- `lua_rawseti(L, -2, i)` -/
def rawseti (L : Stack D V) (i : Nat) : Stack D V :=
  match L.slots with
  | x :: .table items :: slots => { L with slots := .table (setItem items i x) :: slots }
  | _ => L

end Stack

section Code

variable {D T V : Type} (A : Api D T V)

/-- `push_special_object` -/
def pushSpecialObject (L : Stack D V) (s : Bytes) (isError : Bool) : Stack D V :=
  let L := if isError then L.push .nil else L
  let numUpvalues := if isError then 2 else 1
  let L := L.push (.string s)
  (L.pop numUpvalues).push (.special s isError)

mutual

/-- `push_gvariant` -/
def pushGvariantStack (var : V) : Nat → Stack D V → Stack D V
  | 0, L => pushSpecialObject L (lit "depth limit exceeded") true
  | recurlim + 1, L =>
      match A.values.classify var with
      | .boolean => L.push (.boolean (A.values.getBoolean var))
      | .byte => L.push (.string (decimal (A.values.getByte var).toNat))
      | .int k => L.push (.string (decimalInt (A.values.getInt k var)))
      | .double => L.push (.number (.float (A.values.getDouble var)))
      | .string => L.push (.string (A.values.getString var))
      | .objectPath => L.push (.string (A.values.getString var))
      | .signature => L.push (.string (A.values.getString var))
      | .variant => pushGvariantStack (A.values.getVariant var) recurlim L
      | .array => pushGvariantIterableStack var recurlim L
      | .tuple => pushGvariantIterableStack var recurlim L
      | .dictEntry => pushGvariantIterableStack var recurlim L
      | .handle => pushSpecialObject L (A.types.peekString (A.values.getType var)) false

/-- `push_gvariant_iterable` -/
def pushGvariantIterableStack (var : V) : Nat → Stack D V → Stack D V
  | 0, L => pushSpecialObject L (lit "depth limit exceeded") true
  | recurlim + 1, L =>
      if (A.values.children var).length ≤ luaMaxInteger then
        ((A.values.children var).zipIdx 1).foldl
          (fun L p => (pushGvariantStack p.1 recurlim L).rawseti p.2) (L.push (.table []))
      else pushSpecialObject L (lit "array would be too big") true

end

/-- `cvt` -/
def cvtStack (checkstack : Bool) (var : Option V) (L : Stack D V) : Stack D V :=
  match var with
  | none => L.push .nil
  | some var =>
      if checkstack then pushGvariantStack A var 200 L
      else pushSpecialObject L (lit "out of memory") true

end Code

/-! ## What is pushed -/

/-- One value was pushed, and at most `n` slots were in use for it. -/
structure Pushed {D V : Type} (L L' : Stack D V) (x : LuaVal D V) (n : Nat) : Prop where
  slots : L'.slots = x :: L.slots
  peak : L'.peak ≤ max L.peak (L.slots.length + n)

section Pushed

variable {D T V : Type} {A : Api D T V} {L L' : Stack D V} {x : LuaVal D V} {m n : Nat}

theorem Pushed.mono (h : Pushed L L' x m) (hle : m ≤ n) : Pushed L L' x n :=
  ⟨h.slots, h.peak.trans (by omega)⟩

theorem pushed_push (L : Stack D V) (x : LuaVal D V) : Pushed L (L.push x) x 1 :=
  ⟨rfl, Nat.le_refl _⟩

theorem pushed_special (L : Stack D V) (s : Bytes) (isError : Bool) :
    Pushed L (pushSpecialObject L s isError) (.special s isError) 2 := by
  cases isError with
  | true =>
      refine ⟨rfl, ?_⟩
      simp [pushSpecialObject, Stack.push, Stack.pop]
  | false =>
      refine ⟨rfl, ?_⟩
      simp [pushSpecialObject, Stack.push, Stack.pop]
      omega

/-- The loop over the children appends their conversions to the table on the top. -/
theorem pushed_items {conv : V → LuaVal D V} {step : V → Stack D V → Stack D V}
    (hstep : ∀ v L, Pushed L (step v L) (conv v) n) (vs : List V) (items slots : List (LuaVal D V))
    (peak : Nat) :
    ∃ peak', (vs.zipIdx (items.length + 1)).foldl (fun L p => (step p.1 L).rawseti p.2)
        ⟨.table items :: slots, peak⟩ = ⟨.table (items ++ vs.map conv) :: slots, peak'⟩ ∧
      peak' ≤ max peak (slots.length + 1 + n) := by
  induction vs generalizing items peak with
  | nil => exact ⟨peak, by simp, Nat.le_max_left _ _⟩
  | cons v vs ih =>
      obtain ⟨hslots, hpeak⟩ := hstep v ⟨.table items :: slots, peak⟩
      have hset : (step v ⟨.table items :: slots, peak⟩).rawseti (items.length + 1) =
          ⟨.table (items ++ [conv v]) :: slots,
            (step v ⟨.table items :: slots, peak⟩).peak⟩ := by
        rw [Stack.rawseti, hslots]
        simp [Stack.setItem]
      obtain ⟨peak', hfold, hle⟩ := ih (items ++ [conv v])
        (step v ⟨.table items :: slots, peak⟩).peak
      refine ⟨peak', ?_, ?_⟩
      · rw [List.zipIdx_cons, List.foldl_cons, hset]
        rw [List.length_append, List.length_singleton] at hfold
        rw [hfold, List.append_assoc, List.map_cons]
        rfl
      · dsimp only at hpeak
        rw [List.length_cons] at hpeak
        omega

/-- Both functions push what `pushGvariant` and `pushGvariantIterable` return.  Two levels of the
limit are one slot of the stack. -/
theorem pushGvariantStack_eq (n : Nat) :
    (∀ v (L : Stack D V), Pushed L (pushGvariantStack A v n L) (pushGvariant A v n) (n / 2 + 2)) ∧
    ∀ v (L : Stack D V), Pushed L (pushGvariantIterableStack A v n L) (pushGvariantIterable A v n)
      ((n + 1) / 2 + 2) := by
  induction n with
  | zero =>
      constructor
      · intro v L
        rw [pushGvariantStack, pushGvariant]
        exact pushed_special L _ _
      · intro v L
        rw [pushGvariantIterableStack, pushGvariantIterable]
        exact pushed_special L _ _
  | succ n ih =>
      obtain ⟨ihv, ihi⟩ := ih
      constructor
      · intro v L
        rw [pushGvariantStack, pushGvariant]
        cases A.values.classify v with
        | variant => exact (ihv _ L).mono (by omega)
        | array => exact ihi v L
        | tuple => exact ihi v L
        | dictEntry => exact ihi v L
        | handle => exact (pushed_special L _ _).mono (by omega)
        | boolean => exact (pushed_push L _).mono (by omega)
        | byte => exact (pushed_push L _).mono (by omega)
        | int k => exact (pushed_push L _).mono (by omega)
        | double => exact (pushed_push L _).mono (by omega)
        | string => exact (pushed_push L _).mono (by omega)
        | objectPath => exact (pushed_push L _).mono (by omega)
        | signature => exact (pushed_push L _).mono (by omega)
      · intro v L
        rw [pushGvariantIterableStack, pushGvariantIterable]
        split
        · obtain ⟨peak', hfold, hle⟩ := pushed_items ihv (A.values.children v) [] L.slots
            (max L.peak (L.slots.length + 1))
          rw [List.nil_append, List.length_nil, Nat.zero_add] at hfold
          rw [Stack.push, hfold]
          refine ⟨rfl, ?_⟩
          change peak' ≤ _
          omega
        · exact (pushed_special L _ _).mono (by omega)

end Pushed

/-! ## Values as trees -/

/-- A value that is not made of others. -/
inductive Scalar (D : Type) where
  | boolean (b : Bool)
  | byte (b : Byte)
  | int (k : IntType) (i : Int)
  | double (x : D)
  | string (s : Bytes)
  | objectPath (s : Bytes)
  | signature (s : Bytes)
  | handle (type : Bytes)

/-- The kinds of values that have children. -/
inductive ContainerKind where
  | array
  | tuple
  | dictEntry
deriving DecidableEq, Repr

/-- The class of the values of a kind. -/
def ContainerKind.toClass : ContainerKind → Class
  | array => .array
  | tuple => .tuple
  | dictEntry => .dictEntry

/-- A D-Bus value. -/
inductive Gvariant (D : Type) where
  | scalar (x : Scalar D)
  | variant (boxed : Gvariant D)
  | container (kind : ContainerKind) (children : List (Gvariant D))

section Trees

variable {D T V : Type}

/-- GLib's functions show the scalar. -/
def Scalar.ShownBy (A : Api D T V) (v : V) : Scalar D → Prop
  | boolean b => A.values.classify v = .boolean ∧ A.values.getBoolean v = b
  | byte b => A.values.classify v = .byte ∧ A.values.getByte v = b
  | int k i => A.values.classify v = .int k ∧ A.values.getInt k v = i
  | double x => A.values.classify v = .double ∧ A.values.getDouble v = x
  | string s => A.values.classify v = .string ∧ A.values.getString v = s
  | objectPath s => A.values.classify v = .objectPath ∧ A.values.getString v = s
  | signature s => A.values.classify v = .signature ∧ A.values.getString v = s
  | handle type =>
      A.values.classify v = .handle ∧ A.types.peekString (A.values.getType v) = type

mutual

/-- GLib's functions show the tree. -/
def Represents (A : Api D T V) : Gvariant D → V → Prop
  | .scalar x, v => x.ShownBy A v
  | .variant boxed, v => A.values.classify v = .variant ∧ Represents A boxed (A.values.getVariant v)
  | .container kind children, v =>
      A.values.classify v = kind.toClass ∧ RepresentsAll A children (A.values.children v)

/-- The same for some values. -/
def RepresentsAll (A : Api D T V) : List (Gvariant D) → List V → Prop
  | [], [] => True
  | t :: ts, v :: vs => Represents A t v ∧ RepresentsAll A ts vs
  | _, _ => False

end

/-- The conversion of a scalar. -/
def Scalar.plain : Scalar D → LuaVal D V
  | boolean b => .boolean b
  | byte b => .string (decimal b.toNat)
  | int _ i => .string (decimalInt i)
  | double x => .number (.float x)
  | string s => .string s
  | objectPath s => .string s
  | signature s => .string s
  | handle type => .special type false

mutual

/-- The conversion without a limit. -/
def Gvariant.plain : Gvariant D → LuaVal D V
  | .scalar x => x.plain
  | .variant boxed => boxed.plain
  | .container _ children => .table (plains children)

def plains : List (Gvariant D) → List (LuaVal D V)
  | [] => []
  | t :: ts => t.plain :: plains ts

end

mutual

/-- What the limit must be at least. -/
def Gvariant.cost : Gvariant D → Nat
  | .scalar _ => 1
  | .variant boxed => 1 + boxed.cost
  | .container _ children => 2 + maxCost children

/-- The greatest cost of some values. -/
def maxCost : List (Gvariant D) → Nat
  | [] => 0
  | t :: ts => max t.cost (maxCost ts)

end

mutual

/-- The conversion with a placeholder wherever the budget is exhausted.  A variant takes 1 of it,
and a container takes 2. -/
def Gvariant.cut : Gvariant D → Nat → LuaVal D V
  | .scalar x, budget => if budget < 1 then onRecurLim else x.plain
  | .variant boxed, budget => if budget < 1 then onRecurLim else boxed.cut (budget - 1)
  | .container _ children, budget =>
      if budget < 2 then onRecurLim else .table (cuts children (budget - 2))

def cuts : List (Gvariant D) → Nat → List (LuaVal D V)
  | [], _ => []
  | t :: ts, budget => t.cut budget :: cuts ts budget

end

mutual

/-- No container has more children than a Lua table. -/
def Gvariant.Small : Gvariant D → Prop
  | .scalar _ => True
  | .variant boxed => boxed.Small
  | .container _ children => children.length ≤ luaMaxInteger ∧ AllSmall children

def AllSmall : List (Gvariant D) → Prop
  | [] => True
  | t :: ts => t.Small ∧ AllSmall ts

end

/-- A value occurs in another one. -/
inductive Within (x : LuaVal D V) : LuaVal D V → Prop where
  | self : Within x x
  | item {y : LuaVal D V} {items : List (LuaVal D V)} :
      y ∈ items → Within x y → Within x (.table items)

/-! ## The limit -/

section Limit

variable {A : Api D T V}

theorem pushGvariant_scalar {x : Scalar D} {v : V} (h : x.ShownBy A v) (n : Nat) :
    pushGvariant A v (n + 1) = x.plain := by
  rw [pushGvariant]
  cases x with
  | boolean b => rw [h.1]; exact congrArg _ h.2
  | byte b => rw [h.1, ← h.2]; rfl
  | int k i => rw [h.1, ← h.2]; rfl
  | double x => rw [h.1, ← h.2]; rfl
  | string s => rw [h.1, ← h.2]; rfl
  | objectPath s => rw [h.1, ← h.2]; rfl
  | signature s => rw [h.1, ← h.2]; rfl
  | handle type => rw [h.1, ← h.2]; rfl

mutual

/-- The conversion with a limit is the one with a budget. -/
theorem pushGvariant_eq_cut : ∀ (t : Gvariant D) {v : V}, Represents A t v → t.Small →
    ∀ n, pushGvariant A v n = t.cut n
  | .scalar x, v, h, _, n => by
      cases n with
      | zero => rw [pushGvariant]; rfl
      | succ n => exact pushGvariant_scalar h n
  | .variant boxed, v, ⟨hclass, h⟩, hsmall, n => by
      cases n with
      | zero => rw [pushGvariant]; rfl
      | succ n =>
          rw [pushGvariant, hclass]
          exact pushGvariant_eq_cut boxed h hsmall n
  | .container kind children, v, ⟨hclass, h⟩, ⟨hlength, hsmall⟩, n => by
      cases n with
      | zero => rw [pushGvariant]; rfl
      | succ n =>
          have hiterable : pushGvariant A v (n + 1) = pushGvariantIterable A v n := by
            rw [pushGvariant, hclass]
            cases kind with
            | array => rfl
            | tuple => rfl
            | dictEntry => rfl
          rw [hiterable]
          cases n with
          | zero => rw [pushGvariantIterable]; rfl
          | succ n =>
              obtain ⟨hmap, hvs⟩ := map_pushGvariant_eq_cuts children h hsmall n
              rw [pushGvariantIterable, if_pos (hvs ▸ hlength), hmap]
              rfl

theorem map_pushGvariant_eq_cuts : ∀ (ts : List (Gvariant D)) {vs : List V},
    RepresentsAll A ts vs → AllSmall ts → ∀ n,
      vs.map (fun v => pushGvariant A v n) = cuts ts n ∧ ts.length = vs.length
  | [], [], _, _, _ => ⟨rfl, rfl⟩
  | t :: ts, v :: vs, ⟨h, hs⟩, ⟨hsmall, hsmalls⟩, n => by
      obtain ⟨hmap, hlength⟩ := map_pushGvariant_eq_cuts ts hs hsmalls n
      refine ⟨?_, by rw [List.length_cons, List.length_cons, hlength]⟩
      rw [List.map_cons, pushGvariant_eq_cut t h hsmall n, hmap, cuts]
  | [], _ :: _, h, _, _ => h.elim
  | _ :: _, [], h, _, _ => h.elim

end

theorem within_onRecurLim_scalar (x : Scalar D) :
    ¬ Within (onRecurLim : LuaVal D V) x.plain := by
  intro h
  cases x with
  | handle type => cases h
  | _ => cases h

theorem within_table {x : LuaVal D V} {items : List (LuaVal D V)} (hx : x ≠ .table items) :
    Within x (.table items) ↔ ∃ y ∈ items, Within x y := by
  constructor
  · intro h
    cases h with
    | self => exact absurd rfl hx
    | item hy h => exact ⟨_, hy, h⟩
  · rintro ⟨y, hy, h⟩
    exact .item hy h

mutual

/-- There is a placeholder if and only if the budget is less than the cost. -/
theorem within_cut_iff : ∀ (t : Gvariant D) (budget : Nat),
    Within (onRecurLim : LuaVal D V) (t.cut budget) ↔ budget < t.cost
  | .scalar x, budget => by
      rw [Gvariant.cut, Gvariant.cost]
      split
      · exact iff_of_true .self ‹_›
      · exact iff_of_false (within_onRecurLim_scalar x) ‹_›
  | .variant boxed, budget => by
      rw [Gvariant.cut, Gvariant.cost]
      split
      · exact iff_of_true .self (by omega)
      · rw [within_cut_iff boxed]
        omega
  | .container _ children, budget => by
      rw [Gvariant.cut, Gvariant.cost]
      split
      · exact iff_of_true .self (by omega)
      · rw [within_table (by rintro ⟨⟩), within_cuts_iff children]
        omega

theorem within_cuts_iff : ∀ (ts : List (Gvariant D)) (budget : Nat),
    (∃ y ∈ cuts ts budget, Within (onRecurLim : LuaVal D V) y) ↔ budget < maxCost ts
  | [], budget => by simp [cuts, maxCost]
  | t :: ts, budget => by
      rw [cuts, maxCost, List.exists_mem_cons_iff, within_cut_iff t, within_cuts_iff ts,
        lt_max_iff]

end

mutual

/-- With enough budget nothing is cut. -/
theorem cut_eq_plain : ∀ (t : Gvariant D) {budget : Nat}, t.cost ≤ budget →
    (t.cut budget : LuaVal D V) = t.plain
  | .scalar x, budget, h => by
      rw [Gvariant.cost] at h
      rw [Gvariant.cut, if_neg (by omega), Gvariant.plain]
  | .variant boxed, budget, h => by
      rw [Gvariant.cost] at h
      rw [Gvariant.cut, if_neg (by omega), Gvariant.plain, cut_eq_plain boxed (by omega)]
  | .container _ children, budget, h => by
      rw [Gvariant.cost] at h
      rw [Gvariant.cut, if_neg (by omega), Gvariant.plain, cuts_eq_plains children (by omega)]

theorem cuts_eq_plains : ∀ (ts : List (Gvariant D)) {budget : Nat}, maxCost ts ≤ budget →
    (cuts ts budget : List (LuaVal D V)) = plains ts
  | [], _, _ => rfl
  | t :: ts, budget, h => by
      rw [maxCost] at h
      rw [cuts, plains, cut_eq_plain t (by omega), cuts_eq_plains ts (by omega)]

end

/-- `cvt` pushes one value, uses no more slots than it reserves, and the value is the conversion
with the budget of 200, which has a placeholder if and only if the cost is greater. -/
theorem cvtStack_spec {t : Gvariant D} {v : V} (h : Represents A t v) (hsmall : t.Small)
    (slots : List (LuaVal D V)) :
    (cvtStack A true (some v) ⟨slots, slots.length⟩).slots = t.cut 200 :: slots ∧
    (cvtStack A true (some v) ⟨slots, slots.length⟩).peak ≤ slots.length + 210 ∧
    (¬ Within (onRecurLim : LuaVal D V) (t.cut 200) ↔ t.cost ≤ 200) ∧
    (t.cost ≤ 200 → (t.cut 200 : LuaVal D V) = t.plain) := by
  obtain ⟨hslots, hpeak⟩ := (pushGvariantStack_eq 200).1 v (⟨slots, slots.length⟩ : Stack D V)
  refine ⟨?_, ?_, ?_, cut_eq_plain t⟩
  · rw [← pushGvariant_eq_cut t h hsmall]
    exact hslots
  · refine hpeak.trans ?_
    dsimp only
    omega
  · rw [within_cut_iff, not_lt]

end Limit

end Trees

/-- A variant in an array. -/
theorem cvtStack_spec_variant :
    (cvtStack treeApi true (some (.array (.simple [Text.ch 'v']) [.variant (.boolean true)]))
      ⟨[], 0⟩).slots = [.table [.boolean true]] := by
  have hrepresents : Represents treeApi (.container .array [.variant (.scalar (.boolean true))])
      (.array (.simple [Text.ch 'v']) [.variant (.boolean true)]) :=
    ⟨rfl, ⟨rfl, rfl, rfl⟩, trivial⟩
  have hsmall : (Gvariant.container .array
      [.variant (.scalar (.boolean true : Scalar Int))]).Small :=
    ⟨show 1 ≤ luaMaxInteger by decide, trivial, trivial⟩
  obtain ⟨hslots, -, -, hplain⟩ := cvtStack_spec hrepresents hsmall []
  rw [hplain (by decide)] at hslots
  exact hslots

end Luastatus.Dbus

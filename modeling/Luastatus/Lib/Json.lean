import Luastatus.Lib.Bytes

/-!
# JSON values

A JSON value is a finite tree.  The members of an object are a list, in the order of the text, so
that duplicate keys can be spoken of.  The type `N` of numbers is a parameter: a number may be a
machine number, or the text that denotes it.

`depth` counts the nesting of non-empty containers, `count` the values in the whole tree.  A tree
of depth `d` has at least `d` values (`depth_le_count`); the converse bound does not exist.
-/

namespace Json

open Text (Bytes)

/-- A JSON value. -/
inductive Value (N : Type) where
  | null
  | boolean (b : Bool)
  | number (x : N)
  | string (s : Bytes)
  | array (items : List (Value N))
  | object (members : List (Bytes × Value N))
deriving Repr

variable {N : Type}

/-! ## Depth and size -/

mutual

/-- A scalar and an empty container have depth 1, another container is one deeper than its
deepest child. -/
def Value.depth : Value N → Nat
  | .null | .boolean _ | .number _ | .string _ => 1
  | .array items => 1 + depthItems items
  | .object members => 1 + depthMembers members

/-- The maximum depth of some values, 0 if there are none. -/
def depthItems : List (Value N) → Nat
  | [] => 0
  | v :: vs => max v.depth (depthItems vs)

/-- The maximum depth of some members, 0 if there are none. -/
def depthMembers : List (Bytes × Value N) → Nat
  | [] => 0
  | (_, v) :: ms => max v.depth (depthMembers ms)

end

mutual

/-- The number of values in a tree, containers included. -/
def Value.count : Value N → Nat
  | .null | .boolean _ | .number _ | .string _ => 1
  | .array items => 1 + countItems items
  | .object members => 1 + countMembers members

/-- The number of values in some trees. -/
def countItems : List (Value N) → Nat
  | [] => 0
  | v :: vs => v.count + countItems vs

/-- The number of values in some members. -/
def countMembers : List (Bytes × Value N) → Nat
  | [] => 0
  | (_, v) :: ms => v.count + countMembers ms

end

@[simp] theorem Value.count_array (vs : List (Value N)) :
    (Value.array vs).count = 1 + countItems vs := rfl

@[simp] theorem Value.count_object (ms : List (Bytes × Value N)) :
    (Value.object ms).count = 1 + countMembers ms := rfl

theorem Value.count_pos (v : Value N) : 0 < v.count := by
  cases v <;> simp only [Value.count] <;> omega

mutual

/-- A tree has at least as many values as it is deep. -/
theorem Value.depth_le_count : ∀ v : Value N, v.depth ≤ v.count
  | .null => Nat.le_refl _
  | .boolean _ => Nat.le_refl _
  | .number _ => Nat.le_refl _
  | .string _ => Nat.le_refl _
  | .array items => by
      have := depthItems_le_countItems items
      simp only [Value.depth, Value.count]
      omega
  | .object members => by
      have := depthMembers_le_countMembers members
      simp only [Value.depth, Value.count]
      omega

theorem depthItems_le_countItems : ∀ vs : List (Value N), depthItems vs ≤ countItems vs
  | [] => Nat.le_refl _
  | v :: vs => by
      have h1 := v.depth_le_count
      have h2 := depthItems_le_countItems vs
      simp only [depthItems, countItems]
      omega

theorem depthMembers_le_countMembers :
    ∀ ms : List (Bytes × Value N), depthMembers ms ≤ countMembers ms
  | [] => Nat.le_refl _
  | (_, v) :: ms => by
      have h1 := v.depth_le_count
      have h2 := depthMembers_le_countMembers ms
      simp only [depthMembers, countMembers]
      omega

end

end Json

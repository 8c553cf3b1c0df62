import Luastatus.Lib.Json

/-!
# Events of a JSON parser

A parser that does not build trees reports a value as a sequence of events.  The events of a
container are bracketed by its start and its end, and those of a member begin with its key.

`nesting` counts the containers that are open at once, empty ones included, and `ItemsAtMost` bounds
the length of every array of a tree.
-/

namespace Json

open Text (Bytes)

variable {N : Type}

/-- What a parser reports. -/
inductive Event (N : Type) where
  | null
  | boolean (b : Bool)
  | number (x : N)
  | string (s : Bytes)
  | startMap
  | mapKey (s : Bytes)
  | endMap
  | startArray
  | endArray

mutual

/-- The events of a value. -/
def Value.events : Value N → List (Event N)
  | .null => [.null]
  | .boolean b => [.boolean b]
  | .number x => [.number x]
  | .string s => [.string s]
  | .array items => .startArray :: itemsEvents items ++ [.endArray]
  | .object members => .startMap :: membersEvents members ++ [.endMap]

/-- The events of some values. -/
def itemsEvents : List (Value N) → List (Event N)
  | [] => []
  | v :: vs => v.events ++ itemsEvents vs

/-- The events of some members. -/
def membersEvents : List (Bytes × Value N) → List (Event N)
  | [] => []
  | (k, v) :: ms => .mapKey k :: v.events ++ membersEvents ms

end

mutual

/-- The number of containers that are open at once. -/
def Value.nesting : Value N → Nat
  | .null | .boolean _ | .number _ | .string _ => 0
  | .array items => 1 + nestingItems items
  | .object members => 1 + nestingMembers members

def nestingItems : List (Value N) → Nat
  | [] => 0
  | v :: vs => max v.nesting (nestingItems vs)

def nestingMembers : List (Bytes × Value N) → Nat
  | [] => 0
  | (_, v) :: ms => max v.nesting (nestingMembers ms)

end

mutual

/-- Every array has at most `m` items. -/
def Value.ItemsAtMost (m : Nat) : Value N → Prop
  | .null | .boolean _ | .number _ | .string _ => True
  | .array items => items.length ≤ m ∧ ItemsItemsAtMost m items
  | .object members => MembersItemsAtMost m members

def ItemsItemsAtMost (m : Nat) : List (Value N) → Prop
  | [] => True
  | v :: vs => v.ItemsAtMost m ∧ ItemsItemsAtMost m vs

def MembersItemsAtMost (m : Nat) : List (Bytes × Value N) → Prop
  | [] => True
  | (_, v) :: ms => v.ItemsAtMost m ∧ MembersItemsAtMost m ms

end

theorem Value.events_length_pos (v : Value N) : 0 < v.events.length := by
  cases v <;> simp [Value.events]

/-- The events of an object that is not complete are its start and some events of its members. -/
theorem prefix_of_events_object {ms : List (Bytes × Value N)} {pre : List (Event N)}
    (h : pre <+: (Value.object ms).events) (hne : pre ≠ (Value.object ms).events) :
    pre <+: .startMap :: membersEvents ms := by
  rw [Value.events] at h hne
  obtain heq | hpre := List.prefix_concat_iff.mp h
  · exact absurd heq hne
  · exact hpre

end Json

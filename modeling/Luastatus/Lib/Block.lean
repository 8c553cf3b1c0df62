import Mathlib.Data.List.Basic

/-!
# Blocks of memory

A block is what `malloc` and `realloc` give: a number of elements, each of which has a value or is
not initialised.  Reads and writes are checked: a write outside of the block and a read of
something that is not initialised give nothing.

`Begins p xs` says that the block begins with the elements `xs`.  What is behind them does not
matter, so a write at the end of `xs` leads from `Begins p xs` to a block that begins with more
(`Begins.write`), and a change of the block's size keeps as many of `xs` as there is room for
(`Begins.resize`).
-/

namespace Memory

variable {α : Type*}

abbrev Block (α : Type*) := List (Option α)

namespace Block

/-- A block that is not initialised. -/
def new (n : Nat) : Block α := List.replicate n none

/-- Change the size of a block.  What is added is not initialised. -/
def resize (p : Block α) (n : Nat) : Block α := p.take n ++ new (n - p.length)

/-- Write some elements from an index on. -/
def write (p : Block α) (i : Nat) (xs : List α) : Option (Block α) :=
  if i + xs.length ≤ p.length then
    some (p.take i ++ xs.map some ++ p.drop (i + xs.length))
  else none

/-- Read some elements from an index on. -/
def read (p : Block α) (i n : Nat) : Option (List α) :=
  if i + n ≤ p.length then ((p.drop i).take n).mapM id else none

/-- Read one element. -/
def get (p : Block α) (i : Nat) : Option α := p[i]?.join

@[simp] theorem length_new (n : Nat) : (new n : Block α).length = n := List.length_replicate

@[simp] theorem length_resize (p : Block α) (n : Nat) : (p.resize n).length = n := by
  rw [resize, List.length_append, List.length_take, length_new]
  omega

theorem length_write {p q : Block α} {i : Nat} {xs : List α} (h : p.write i xs = some q) :
    q.length = p.length := by
  unfold write at h
  split at h
  · cases h
    simp only [List.length_append, List.length_take, List.length_map, List.length_drop]
    omega
  · cases h

end Block

/-! ## Beginnings -/

/-- The block begins with the elements. -/
def Begins (p : Block α) (xs : List α) : Prop := xs.map some <+: p

section Begins

variable {p : Block α} {xs : List α}

theorem Begins.length_le (h : Begins p xs) : xs.length ≤ p.length := by
  have hle := List.IsPrefix.length_le h
  rwa [List.length_map] at hle

theorem begins_nil (p : Block α) : Begins p [] := List.nil_prefix

theorem Begins.take (h : Begins p xs) (n : Nat) : Begins p (xs.take n) := by
  have htake : (xs.take n).map some <+: xs.map some := by
    rw [List.map_take]
    exact List.take_prefix n _
  exact htake.trans h

theorem Begins.of_append {ys : List α} (h : Begins p (xs ++ ys)) : Begins p xs := by
  rw [Begins, List.map_append] at h
  exact (List.prefix_append _ _).trans h

/-- As much of the beginning as there is room for is kept. -/
theorem Begins.resize (h : Begins p xs) (n : Nat) : Begins (p.resize n) (xs.take n) := by
  obtain ⟨rest, rfl⟩ := h
  rw [Begins, Block.resize, List.take_append, List.map_take, List.append_assoc]
  exact List.prefix_append _ _

theorem Begins.resize_of_le (h : Begins p xs) {n : Nat} (hn : xs.length ≤ n) :
    Begins (p.resize n) xs := by
  have htake := h.resize n
  rwa [List.take_of_length_le hn] at htake

/-- A write inside of the beginning or at its end: what is before the place is kept, and what was
behind it is given up. -/
theorem Begins.write (h : Begins p xs) {i : Nat} (hi : i ≤ xs.length) (ys : List α)
    (hroom : i + ys.length ≤ p.length) :
    ∃ q, p.write i ys = some q ∧ q.length = p.length ∧ Begins q (xs.take i ++ ys) := by
  have hwrite : p.write i ys =
      some (p.take i ++ ys.map some ++ p.drop (i + ys.length)) := by
    rw [Block.write, if_pos hroom]
  refine ⟨_, hwrite, Block.length_write hwrite, ?_⟩
  obtain ⟨rest, rfl⟩ := h
  rw [Begins, List.map_append, List.map_take,
    List.take_append_of_le_length (by rwa [List.length_map])]
  exact List.prefix_append _ _

/-- A write of one element of the beginning. -/
theorem Begins.set (h : Begins p xs) {i : Nat} (hi : i < xs.length) (x : α) :
    ∃ q, p.write i [x] = some q ∧ q.length = p.length ∧ Begins q (xs.set i x) := by
  have hlen := h.length_le
  have hwrite : p.write i [x] = some (p.take i ++ [some x] ++ p.drop (i + 1)) := by
    rw [Block.write, if_pos (by rw [List.length_singleton]; omega)]
    rfl
  refine ⟨_, hwrite, Block.length_write hwrite, ?_⟩
  have hset : p.take i ++ [some x] ++ p.drop (i + 1) = p.set i (some x) := by
    rw [List.set_eq_take_append_cons_drop, if_pos (by omega), List.append_assoc,
      List.singleton_append]
  rw [hset]
  obtain ⟨rest, rfl⟩ := h
  rw [Begins, List.map_set, List.set_append_left _ _ (by rwa [List.length_map])]
  exact List.prefix_append _ _

theorem Begins.get (h : Begins p xs) {i : Nat} {x : α} (hx : xs[i]? = some x) :
    p.get i = some x := by
  obtain ⟨rest, rfl⟩ := h
  obtain ⟨hi, rfl⟩ := List.getElem?_eq_some_iff.mp hx
  rw [Block.get, List.getElem?_append_left (by rwa [List.length_map]), List.getElem?_map, hx]
  rfl

/-- A read inside of the beginning. -/
theorem Begins.read (h : Begins p xs) {i n : Nat} (hn : i + n ≤ xs.length) :
    p.read i n = some ((xs.drop i).take n) := by
  have hlen := h.length_le
  obtain ⟨rest, rfl⟩ := h
  rw [Block.read, if_pos (by omega), List.drop_append_of_le_length (by simp; omega),
    List.take_append_of_le_length (by simp; omega), ← List.map_drop, ← List.map_take]
  generalize (xs.drop i).take n = zs
  induction zs with
  | nil => rfl
  | cons z zs ih => simp [ih]

end Begins

end Memory

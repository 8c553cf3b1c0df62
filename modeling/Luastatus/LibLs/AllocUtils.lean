import Luastatus.Lib.Block
import Luastatus.Lib.Fallible
import Luastatus.LibLs.Panic
import Mathlib.Algebra.Group.Nat.Defs

/-!
# Allocation

The functions of `ls_alloc_utils` end the program if memory is short or a size does not fit into a
`size_t`, so a caller has memory whenever they return.  `ls_x2realloc` doubles the number of
elements.  `ls_freemem` is what clears a dynamic array: it keeps at most a kilobyte.

A computation that allocates is in `Except Stop`.  Of the ways to stop, `invalidAccess` is none of
the program's: it stands for an access that C leaves undefined.  What the system answers to a
request for a number of bytes is a parameter.

A pointer to an array is its block; the null pointer is the block without elements.

Each function has two lemmas: what it gives if it returns, and exactly when it ends for lack of
memory (`Refused`).
-/

namespace Luastatus.LibLs

open Fallible Memory

/-- How a computation ends without a result. -/
inductive Stop where
  /-- `ls_oom()`. -/
  | outOfMemory
  /-- `LS_PANIC_WITH_ERRNUM`. -/
  | panic (msg : String)
  | assertion (failure : AssertFailure)
  /-- An access to memory that is not allocated or not initialised. -/
  | invalidAccess
deriving DecidableEq, Repr

variable {α β : Type}

/-- An assertion in a computation that allocates. -/
def assertThat (c : Prop) [Decidable c] (expr : String) : Except Stop Unit :=
  (lsAssert c expr).mapError .assertion

/-- A checked access. -/
def access : Option α → Except Stop α
  | some x => .ok x
  | none => .error .invalidAccess

section Bind

variable {f : α → Except Stop β}

@[simp] theorem assertThat_of_pos {c : Prop} [Decidable c] (h : c) (expr : String) :
    assertThat c expr = .ok () := by
  rw [assertThat, lsAssert, if_pos h]
  rfl

theorem stop_bind (a : α) : (Except.ok a >>= f) = f a := rfl

@[simp] theorem access_some (x : α) : access (some x) = .ok x := rfl

/-- The result has the property, or the computation stops in one of the given ways. -/
def OrStops (E : Stop → Prop) (x : Except Stop α) (P : α → Prop) : Prop :=
  match x with
  | .ok a => P a
  | .error e => E e

/-- The result has the property, or memory is short. -/
abbrev OrOutOfMemory (x : Except Stop α) (P : α → Prop) : Prop := OrStops (· = .outOfMemory) x P

section OrStops

variable {E : Stop → Prop} {x : Except Stop α} {P : α → Prop} {Q : β → Prop}

theorem OrStops.pure {a : α} (h : P a) : OrStops E (.ok a) P := h

/-- A computation may go on if its first part may. -/
theorem OrStops.bind (hx : OrStops E x P) (hf : ∀ a, P a → OrStops E (f a) Q) :
    OrStops E (x >>= f) Q := by
  cases x with
  | error e => exact hx
  | ok a => exact hf a hx

/-- A first part whose result is known. -/
theorem OrStops.bind_ok {a : α} (hx : x = .ok a) (hf : OrStops E (f a) Q) :
    OrStops E (x >>= f) Q := by
  subst hx
  exact hf

theorem OrStops.mono {P' : α → Prop} (hx : OrStops E x P) (h : ∀ a, P a → P' a) :
    OrStops E x P' := by
  cases x with
  | error e => exact hx
  | ok a => exact h a hx

theorem OrStops.weaken {E' : Stop → Prop} (hx : OrStops E x P) (h : ∀ e, E e → E' e) :
    OrStops E' x P := by
  cases x with
  | error e => exact h e hx
  | ok a => exact hx

/-- The result, if there is one. -/
theorem OrStops.of_ok {a : α} (hx : OrStops E x P) (ha : x = .ok a) : P a := by
  subst ha
  exact hx

end OrStops

end Bind

/-! ## Sizes -/

/-- `SIZE_MAX`. -/
def sizeMax : Nat := 2 ^ 64 - 1

/-- `a + b` in `size_t`. -/
def addZu (a b : Nat) : Nat := (a + b) % 2 ^ 64

/-- `a - b` in `size_t`. -/
def subZu (a b : Nat) : Nat := (a + 2 ^ 64 - b) % 2 ^ 64

/-- `mul_zu`. -/
def mulZu (a b : Nat) : Option Nat :=
  if b ≠ 0 ∧ a > sizeMax / b then none else some (a * b)

theorem addZu_of_le {a b : Nat} (h : a + b ≤ sizeMax) : addZu a b = a + b :=
  Nat.mod_eq_of_lt (by unfold sizeMax at h; omega)

theorem subZu_of_le {a b : Nat} (h : b ≤ a) (ha : a ≤ sizeMax) : subZu a b = a - b := by
  unfold sizeMax at ha
  rw [subZu, show a + 2 ^ 64 - b = a - b + 2 ^ 64 by omega, Nat.add_mod_right,
    Nat.mod_eq_of_lt (by omega)]

theorem mulZu_eq_some {a b n : Nat} : mulZu a b = some n ↔ a * b ≤ sizeMax ∧ n = a * b := by
  unfold mulZu
  rcases Nat.eq_zero_or_pos b with rfl | hb
  · simp [eq_comm]
  · have hlt : a > sizeMax / b ↔ sizeMax < a * b := Nat.div_lt_iff_lt_mul hb
    split
    · rename_i h
      exact iff_of_false (by rintro ⟨⟩) fun h' => Nat.not_lt.mpr h'.1 (hlt.mp h.2)
    · rename_i h
      have hle : a * b ≤ sizeMax :=
        Nat.not_lt.mp fun hgt => h ⟨Nat.ne_of_gt hb, hlt.mpr hgt⟩
      simp [hle, eq_comm]

/-! ## Functions -/

/-- `ls_xmalloc`; `mem` says whether the system has that many bytes. -/
def lsXmalloc (mem : Nat → Bool) (nelems elemsz : Nat) : Except Stop (Block α) :=
  match mulZu nelems elemsz with
  | none => .error .outOfMemory
  | some total =>
      if mem total = false ∧ total ≠ 0 then .error .outOfMemory else .ok (.new nelems)

/-- `ls_xrealloc`. -/
def lsXrealloc (mem : Nat → Bool) (p : Block α) (nelems elemsz : Nat) : Except Stop (Block α) :=
  match mulZu nelems elemsz with
  | none => .error .outOfMemory
  | some total =>
      if total = 0 then .ok []
      else if mem total then .ok (p.resize nelems)
      else .error .outOfMemory

/-- `*pnelems` in `ls_x2realloc`, doubled. -/
def x2Nelems (nelems : Nat) : Except Stop Nat :=
  if nelems ≠ 0 then
    match mulZu nelems 2 with
    | some n => .ok n
    | none => .error .outOfMemory
  else .ok 1

/-- `ls_x2realloc`: the block and the new `*pnelems`. -/
def lsX2realloc (mem : Nat → Bool) (p : Block α) (nelems elemsz : Nat) :
    Except Stop (Block α × Nat) := do
  assertThat (elemsz ≠ 0) "elemsz != 0"
  let nelems ← x2Nelems nelems
  let p ← lsXrealloc mem p nelems elemsz
  return (p, nelems)

/-- `ls_freemem`: the block and the new `*pcapacity`.  `*psize` is set to zero. -/
def lsFreemem (mem : Nat → Bool) (data : Block α) (capacity elemsz : Nat) :
    Except Stop (Block α × Nat) := do
  assertThat (elemsz ≠ 0) "elemsz != 0"
  let newCapacity := 1024 / elemsz
  if capacity > newCapacity then
    let data ← lsXrealloc mem data newCapacity elemsz
    return (data, newCapacity)
  else return (data, capacity)

variable {mem : Nat → Bool} {p : Block α} {n elemsz : Nat}

theorem le_sizeMax_of_mul_le (hsz : elemsz ≠ 0) (h : n * elemsz ≤ sizeMax) : n ≤ sizeMax :=
  Nat.le_trans (Nat.le_mul_of_pos_right n (Nat.pos_of_ne_zero hsz)) h

theorem lsXmalloc_spec :
    OrOutOfMemory (lsXmalloc mem n elemsz : Except Stop (Block α)) fun q =>
      q = .new n ∧ n * elemsz ≤ sizeMax := by
  unfold lsXmalloc
  cases h : mulZu n elemsz with
  | none => exact rfl
  | some total =>
      obtain ⟨hle, rfl⟩ := mulZu_eq_some.mp h
      dsimp only
      split
      · exact rfl
      · exact .pure ⟨rfl, hle⟩

/-- The block has as many elements as were asked for, and a size that fits. -/
theorem lsXrealloc_spec (hsz : elemsz ≠ 0) :
    OrOutOfMemory (lsXrealloc mem p n elemsz) fun q =>
      q = p.resize n ∧ n * elemsz ≤ sizeMax := by
  unfold lsXrealloc
  cases h : mulZu n elemsz with
  | none => exact rfl
  | some total =>
      obtain ⟨hle, rfl⟩ := mulZu_eq_some.mp h
      dsimp only
      split
      · rename_i hz
        have hzero : n = 0 := (Nat.mul_eq_zero.mp hz).resolve_right hsz
        subst hzero
        refine .pure ⟨?_, hle⟩
        rw [Block.resize, List.take_zero, Nat.zero_sub]
        rfl
      · split
        · exact .pure ⟨rfl, hle⟩
        · exact rfl

/-- `F(n)`, the number of elements that `ls_x2realloc` comes to. -/
def doubled (n : Nat) : Nat := max 1 (2 * n)

theorem x2Nelems_spec : OrOutOfMemory (x2Nelems n) fun m => m = doubled n := by
  unfold x2Nelems
  split
  · cases h : mulZu n 2 with
    | none => exact rfl
    | some m =>
        obtain ⟨-, rfl⟩ := mulZu_eq_some.mp h
        exact .pure (by unfold doubled; omega)
  · rename_i hn
    obtain rfl : n = 0 := Decidable.not_not.mp hn
    exact .pure rfl

theorem lsX2realloc_spec (hsz : elemsz ≠ 0) :
    OrOutOfMemory (lsX2realloc mem p n elemsz) fun r =>
      r = (p.resize (doubled n), doubled n) ∧ doubled n * elemsz ≤ sizeMax := by
  unfold lsX2realloc
  rw [assertThat_of_pos hsz]
  refine x2Nelems_spec.bind fun m hm => ?_
  subst hm
  exact (lsXrealloc_spec hsz).bind fun q hq => .pure ⟨Prod.ext hq.1 rfl, hq.2⟩

/-- There is no memory of that size, or the size does not fit into a `size_t`. -/
def Refused (mem : Nat → Bool) (total : Nat) : Prop := sizeMax < total ∨ mem total = false

instance : Decidable (Refused mem n) := inferInstanceAs (Decidable (_ ∨ _))

theorem mulZu_eq_none {a b : Nat} : mulZu a b = none ↔ sizeMax < a * b := by
  cases h : mulZu a b with
  | none =>
      refine iff_of_true rfl (Nat.not_le.mp fun hle => ?_)
      cases h.symm.trans (mulZu_eq_some.mpr ⟨hle, rfl⟩)
  | some n => exact iff_of_false nofun (Nat.not_lt.mpr (mulZu_eq_some.mp h).1)

theorem lsXmalloc_eq_error {e : Stop} :
    (lsXmalloc mem n elemsz : Except Stop (Block α)) = .error e ↔
      e = .outOfMemory ∧ n * elemsz ≠ 0 ∧ Refused mem (n * elemsz) := by
  unfold lsXmalloc Refused
  cases h : mulZu n elemsz with
  | none =>
      have hlt := mulZu_eq_none.mp h
      simp only [Except.error.injEq, hlt, true_or, and_true, eq_comm (a := Stop.outOfMemory)]
      exact (and_iff_left (Nat.ne_zero_of_lt hlt)).symm
  | some total =>
      obtain ⟨hle, rfl⟩ := mulZu_eq_some.mp h
      simp only [Nat.not_lt.mpr hle, false_or]
      split
      · rename_i hrefused
        simp [hrefused.1, hrefused.2, eq_comm]
      · rename_i hgranted
        refine iff_of_false nofun ?_
        rintro ⟨-, hne, hmem⟩
        exact hgranted ⟨hmem, hne⟩

theorem lsXrealloc_eq_error {e : Stop} :
    lsXrealloc mem p n elemsz = .error e ↔
      e = .outOfMemory ∧ n * elemsz ≠ 0 ∧ Refused mem (n * elemsz) := by
  unfold lsXrealloc Refused
  cases h : mulZu n elemsz with
  | none =>
      have hlt := mulZu_eq_none.mp h
      simp only [Except.error.injEq, hlt, true_or, and_true, eq_comm (a := Stop.outOfMemory)]
      exact (and_iff_left (Nat.ne_zero_of_lt hlt)).symm
  | some total =>
      obtain ⟨hle, rfl⟩ := mulZu_eq_some.mp h
      simp only [Nat.not_lt.mpr hle, false_or]
      by_cases hz : n * elemsz = 0
      · rw [if_pos hz]
        exact iff_of_false nofun fun h => h.2.1 hz
      · rw [if_neg hz]
        cases hm : mem (n * elemsz) with
        | true => exact iff_of_false nofun nofun
        | false => simp [hz, eq_comm]

theorem x2Nelems_eq_error {e : Stop} :
    x2Nelems n = .error e ↔ e = .outOfMemory ∧ sizeMax < doubled n := by
  unfold x2Nelems doubled
  split
  · rename_i hn
    have hmax : max 1 (2 * n) = n * 2 := by omega
    rw [hmax]
    cases h : mulZu n 2 with
    | none => simp [mulZu_eq_none.mp h, eq_comm]
    | some m => exact iff_of_false nofun fun h' => Nat.not_lt.mpr (mulZu_eq_some.mp h).1 h'.2
  · rename_i hn
    rw [Decidable.not_not.mp hn]
    exact iff_of_false nofun fun h => absurd h.2 (by decide)

theorem doubled_pos (n : Nat) : 0 < doubled n := by
  unfold doubled
  omega

theorem lsX2realloc_eq_error {e : Stop} (hsz : elemsz ≠ 0) :
    lsX2realloc mem p n elemsz = .error e ↔
      e = .outOfMemory ∧ Refused mem (doubled n * elemsz) := by
  have hpos : doubled n * elemsz ≠ 0 := Nat.mul_ne_zero (Nat.ne_of_gt (doubled_pos n)) hsz
  unfold lsX2realloc
  rw [assertThat_of_pos hsz, stop_bind, bind_eq_error, x2Nelems_eq_error]
  constructor
  · rintro (⟨he, hlt⟩ | ⟨m, hm, he⟩)
    · exact ⟨he, .inl (Nat.lt_of_lt_of_le hlt (Nat.le_mul_of_pos_right _ (Nat.pos_of_ne_zero hsz)))⟩
    · obtain rfl := x2Nelems_spec.of_ok hm
      have hrealloc := (bind_eq_error_of_left fun q _ => ⟨_, rfl⟩).mp he
      rw [lsXrealloc_eq_error] at hrealloc
      exact ⟨hrealloc.1, hrealloc.2.2⟩
  · rintro ⟨he, hrefused⟩
    by_cases hlt : sizeMax < doubled n
    · exact .inl ⟨he, hlt⟩
    · have hok : x2Nelems n = .ok (doubled n) := by
        cases hx : x2Nelems n with
        | error e' => exact absurd (x2Nelems_eq_error.mp hx).2 hlt
        | ok m => rw [x2Nelems_spec.of_ok hx]
      refine .inr ⟨_, hok, (bind_eq_error_of_left fun q _ => ⟨_, rfl⟩).mpr ?_⟩
      exact lsXrealloc_eq_error.mpr ⟨he, hpos, hrefused⟩

theorem lsFreemem_eq_error {capacity : Nat} {e : Stop} (hsz : elemsz ≠ 0) :
    lsFreemem mem p capacity elemsz = .error e ↔
      e = .outOfMemory ∧ 1024 / elemsz < capacity ∧ 1024 / elemsz * elemsz ≠ 0 ∧
        Refused mem (1024 / elemsz * elemsz) := by
  unfold lsFreemem
  rw [assertThat_of_pos hsz]
  show (if capacity > 1024 / elemsz then _ else _) = _ ↔ _
  split
  · rename_i hlt
    refine (bind_eq_error_of_left fun q _ => ⟨_, rfl⟩).trans (lsXrealloc_eq_error.trans ?_)
    rw [and_iff_right hlt]
  · rename_i hle
    exact iff_of_false nofun fun h => hle h.2.1

theorem lsFreemem_spec {capacity : Nat} (hsz : elemsz ≠ 0) (hp : p.length = capacity) :
    OrOutOfMemory (lsFreemem mem p capacity elemsz) fun r =>
      r.1.length = r.2 ∧ r.2 = min capacity (1024 / elemsz) := by
  unfold lsFreemem
  rw [assertThat_of_pos hsz]
  show OrOutOfMemory (if capacity > 1024 / elemsz then _ else _) _
  split
  · rename_i hlt
    refine (lsXrealloc_spec hsz).bind fun q hq => .pure ⟨?_, ?_⟩
    · rw [hq.1, Block.length_resize]
    · exact (Nat.min_eq_right (Nat.le_of_lt hlt)).symm
  · rename_i hle
    exact .pure ⟨hp, (Nat.min_eq_left (Nat.not_lt.mp hle)).symm⟩

end Luastatus.LibLs

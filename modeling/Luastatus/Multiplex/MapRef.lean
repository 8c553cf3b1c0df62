import Luastatus.Lib.Heap
import Luastatus.Lib.Mutex
import Luastatus.Lib.Transition
import Luastatus.LibLs.AllocUtils
import Mathlib.Data.Set.Card
import Mathlib.Order.Interval.Finset.Nat

/-!
# References to the map entry of the multiplex plugin

All widgets of the plugin, the nested ones included, share an entry of the core's map.  Its value
points to a control block with a mutex and the number of references.  A widget takes a reference
when it is initialised and gives it up when it is destroyed; the first one creates the control
block, and the last one frees it.

A widget locks the mutex while it creates the widgets that are nested in it, so any of the others
may be initialised or destroyed in between.  Its thread may also be waiting in the lock, with the
address of the control block in its hands.

`Counted` is the invariant of every run (`mapRef_counted`): the control block is there if and only
if there are references, its counter is their number, and each of them leads to it.
-/

namespace Luastatus.Multiplex.Refs

open Memory LibLs
open Transition

variable {E A : Type}

/-! ## The functions -/

/-- `MapRef`; `E` are the addresses of values in the map. -/
structure MapRef (E : Type) where
  pptr : Option E
deriving DecidableEq, Repr

/-- The address of a `MapRef`, which is not null. -/
abbrev RefAddr := {a : UInt64 // a ≠ 0}

/-- `Control`; a locked mutex knows whose `MapRef` it was locked through. -/
structure Control where
  mtx : Option RefAddr
  nrefs : Nat
deriving DecidableEq

/-- The control blocks that are allocated, and the values of the map. -/
structure Mem (E A : Type) where
  heap : Heap A Control
  value : E → Option A

/-- A failed `LS_PTH_CHECK`. -/
def pthCheckFailed : Stop := .panic "LS_PTH_CHECK"

/-- `map_ref_new_empty`. -/
def mapRefNewEmpty : MapRef E := ⟨none⟩

def load (m : Mem E A) (ref : MapRef E) : Except Stop (Option A) :=
  match ref.pptr with
  | some e => .ok (m.value e)
  | none => .error (.assertion ⟨"ref.pptr != NULL"⟩)

section Functions

variable [DecidableEq E] [DecidableEq A]

def store (m : Mem E A) (ref : MapRef E) (c : Option A) : Except Stop (Mem E A) :=
  match ref.pptr with
  | some e => .ok { m with value := Function.update m.value e c }
  | none => .error (.assertion ⟨"ref.pptr != NULL"⟩)

/-- The size of a `Control`. -/
def controlSize : Nat := 48

/-- `map_ref_init`; `mapGet` is what `map_get` gives for the key. -/
def mapRefInit (alloc : Allocator A Control) (mapGet : E) (m : Mem E A) :
    Except Stop (MapRef E × Mem E A) := do
  let ref := ⟨some mapGet⟩
  match ← load m ref with
  | some c =>
      let C ← access (m.heap c)
      return (ref, { m with heap := m.heap.put c { C with nrefs := addZu C.nrefs 1 } })
  | none =>
      match alloc.malloc m.heap controlSize with
      | none => .error .outOfMemory
      | some c =>
          let m ← store { m with heap := m.heap.put c { mtx := none, nrefs := 1 } } ref (some c)
          return (ref, m)

/-- `pthread_mutex_lock` of the control block, when it does not block. -/
def lockMtx (m : Mem E A) (r : RefAddr) (c : A) : Except Stop (Mem E A) := do
  let C ← access (m.heap c)
  return { m with heap := m.heap.put c { C with mtx := some r } }

/-- `map_ref_unlock_mtx`.  The unlock of a mutex that one does not hold fails. -/
def mapRefUnlockMtx (m : Mem E A) (r : RefAddr) (ref : MapRef E) : Except Stop (Mem E A) := do
  let c ← access (← load m ref)
  let C ← access (m.heap c)
  if C.mtx = some r then return { m with heap := m.heap.put c { C with mtx := none } }
  else .error pthCheckFailed

/-- `map_ref_destroy`.  A locked mutex cannot be destroyed. -/
def mapRefDestroy (m : Mem E A) (ref : MapRef E) : Except Stop (Mem E A) :=
  if ref.pptr = none then .ok m
  else do
    match ← load m ref with
    | none => .error (.assertion ⟨"C != NULL"⟩)
    | some c =>
        let C ← access (m.heap c)
        assertThat (C.nrefs ≠ 0) "C->nrefs != 0"
        let nrefs := subZu C.nrefs 1
        if nrefs = 0 then
          if C.mtx = none then store { m with heap := m.heap.free c } ref none
          else .error pthCheckFailed
        else return { m with heap := m.heap.put c { C with nrefs := nrefs } }

end Functions

/-! ## Widgets -/

/-- What the owner of a `MapRef` is doing. -/
inductive Use (A : Type) where
  | idle
  /-- In `map_ref_lock_mtx`, after the load. -/
  | locking (c : A)
  /-- Between lock and unlock. -/
  | locked
deriving DecidableEq

/-- A `MapRef` in memory, and what its owner is doing. -/
structure Ref (E A : Type) where
  ref : MapRef E
  use : Use A

structure State (E A : Type) where
  mem : Mem E A
  refs : RefAddr → Option (Ref E A)

/-- A step of the owner of a `MapRef`. -/
inductive Op (A : Type) where
  /-- A `Priv` is allocated, with an empty `MapRef`. -/
  | create
  | init (alloc : Allocator A Control)
  /-- `map_ref_lock_mtx` up to the call of `pthread_mutex_lock`. -/
  | lock
  /-- `pthread_mutex_lock` returns. -/
  | acquire
  | unlock
  /-- `map_ref_destroy`, and the `Priv` is freed. -/
  | destroy

/-- When the step is possible: a `MapRef` is initialised once, the mutex is locked and unlocked
through an initialised one, and `run` does nothing else to it while it holds or waits for the
mutex. -/
inductive Enabled (s : State E A) (r : RefAddr) : Op A → Prop where
  | create : s.refs r = none → Enabled s r .create
  | init : s.refs r = some ⟨mapRefNewEmpty, .idle⟩ → Enabled s r (.init alloc)
  | lock : s.refs r = some ⟨ref, .idle⟩ → ref.pptr ≠ none → Enabled s r .lock
  | acquire : s.refs r = some ⟨ref, .locking c⟩ → (∀ C, s.mem.heap c = some C → C.mtx = none) →
      Enabled s r .acquire
  | unlock : s.refs r = some ⟨ref, .locked⟩ → Enabled s r .unlock
  | destroy : s.refs r = some ⟨ref, .idle⟩ → Enabled s r .destroy

/-- The `MapRef` at an address is changed or removed. -/
def State.set (s : State E A) (r : RefAddr) (x : Option (Ref E A)) (m : Mem E A) : State E A :=
  ⟨m, Function.update s.refs r x⟩

section Step

variable [DecidableEq E] [DecidableEq A]

/-- The step of the owner of the `MapRef` at `r`. -/
def step (entry : E) (s : State E A) (r : RefAddr) : Op A → Except Stop (State E A)
  | .create => .ok (s.set r (some ⟨mapRefNewEmpty, .idle⟩) s.mem)
  | .init alloc => do
      let (ref, m) ← mapRefInit alloc entry s.mem
      return s.set r (some ⟨ref, .idle⟩) m
  | .lock => do
      let x ← access (s.refs r)
      let c ← access (← load s.mem x.ref)
      return s.set r (some ⟨x.ref, .locking c⟩) s.mem
  | .acquire => do
      let x ← access (s.refs r)
      match x.use with
      | .locking c =>
          let m ← lockMtx s.mem r c
          return s.set r (some ⟨x.ref, .locked⟩) m
      | _ => return s
  | .unlock => do
      let x ← access (s.refs r)
      let m ← mapRefUnlockMtx s.mem r x.ref
      return s.set r (some ⟨x.ref, .idle⟩) m
  | .destroy => do
      let x ← access (s.refs r)
      let m ← mapRefDestroy s.mem x.ref
      return s.set r none m

/-- The widgets of the plugin, as a system; `entry` is the address of the value for the key.  The
value of a new entry is null. -/
def system (entry : E) : System (State E A) (RefAddr × Op A) where
  init s := s.mem.heap = Heap.empty ∧ s.mem.value entry = none ∧ ∀ r, s.refs r = none
  step s l t := Enabled s l.1 l.2 ∧ step entry s l.1 l.2 = .ok t

end Step

/-! ## Live references -/

/-- The reference was initialised and not destroyed. -/
def Ref.isLive (x : Ref E A) : Bool := x.ref.pptr.isSome

def Ref.isLocked (x : Ref E A) : Bool :=
  match x.use with
  | .locked => true
  | _ => false

/-- The live references. -/
def State.live (s : State E A) : Set RefAddr := {r | (s.refs r).any Ref.isLive = true}

/-- By its place, the owner holds the mutex. -/
def State.holds (s : State E A) (r : RefAddr) : Bool := (s.refs r).any Ref.isLocked

instance : Finite RefAddr := by
  refine Finite.of_injective (β := Fin (2 ^ 64)) (fun a => ⟨a.1.toNat, a.1.toNat_lt⟩) ?_
  intro a b h
  exact Subtype.ext (UInt64.toNat_inj.mp (Fin.mk.inj h))

/-- There are fewer addresses than a `size_t` can count. -/
theorem ncard_le (L : Set RefAddr) : L.ncard ≤ sizeMax := by
  have himage : (fun a : RefAddr => a.1.toNat) '' L ⊆ ↑(Finset.Ico 1 (2 ^ 64)) := by
    rintro _ ⟨a, -, rfl⟩
    have hne : a.1.toNat ≠ 0 := fun h => a.2 (UInt64.toNat_inj.mp h)
    exact Finset.mem_coe.mpr (Finset.mem_Ico.mpr ⟨Nat.pos_of_ne_zero hne, a.1.toNat_lt⟩)
  have hinj : Set.InjOn (fun a : RefAddr => a.1.toNat) L := by
    intro a _ b _ h
    exact Subtype.ext (UInt64.toNat_inj.mp h)
  have hle := Set.ncard_le_ncard himage (Finset.finite_toSet _)
  rwa [hinj.ncard_image, Set.ncard_coe_finset, Nat.card_Ico] at hle

theorem ncard_pos_of_mem {L : Set RefAddr} {r : RefAddr} (h : r ∈ L) : 0 < L.ncard :=
  (Set.ncard_pos (Set.toFinite L)).mpr ⟨r, h⟩

section Set

variable {s : State E A} {r q : RefAddr} {x : Option (Ref E A)} {m : Mem E A}

theorem State.mem_live : r ∈ s.live ↔ (s.refs r).any Ref.isLive = true := Iff.rfl

theorem State.mem_live_of {y : Ref E A} (hr : s.refs r = some y) (hy : y.isLive = true) :
    r ∈ s.live := by
  rw [State.mem_live, hr]
  exact hy

theorem State.refs_set (s : State E A) (r : RefAddr) (x : Option (Ref E A)) (m : Mem E A) :
    (s.set r x m).refs r = x := Function.update_self ..

theorem State.refs_set_of_ne (h : q ≠ r) : (s.set r x m).refs q = s.refs q :=
  Function.update_of_ne h ..

theorem State.live_set_of_live (h : x.any Ref.isLive = true) :
    (s.set r x m).live = insert r s.live := by
  ext q
  rw [Set.mem_insert_iff]
  by_cases hq : q = r
  · subst hq
    simp [live, State.refs_set, h]
  · simp [live, State.refs_set_of_ne hq, hq]

theorem State.live_set_of_not_live (h : x.any Ref.isLive = false) :
    (s.set r x m).live = s.live \ {r} := by
  ext q
  rw [Set.mem_sdiff, Set.mem_singleton_iff]
  by_cases hq : q = r
  · subst hq
    simp [live, State.refs_set, h]
  · simp [live, State.refs_set_of_ne hq, hq]

theorem State.live_set_of_live_eq (h : x.any Ref.isLive = (s.refs r).any Ref.isLive) :
    (s.set r x m).live = s.live := by
  ext q
  by_cases hq : q = r
  · subst hq
    simp [live, State.refs_set, h]
  · simp [live, State.refs_set_of_ne hq]

theorem State.holds_set : (s.set r x m).holds r = x.any Ref.isLocked := by
  rw [holds, refs_set]

theorem State.holds_set_of_ne (h : q ≠ r) : (s.set r x m).holds q = s.holds q := by
  rw [holds, holds, refs_set_of_ne h]

end Set

/-! ## The control block -/

section Block

variable [DecidableEq A]

/-- With `n` references and the mutex held by `o`: there is no control block if there are no
references, and otherwise it is the only one, its counter is `n`, and the entry leads to it. -/
inductive Block (entry : E) (m : Mem E A) : Nat → Option RefAddr → Prop where
  | absent : m.heap = Heap.empty → m.value entry = none → Block entry m 0 none
  | present (c : A) : 0 < n → m.heap = Heap.empty.put c ⟨o, n⟩ → m.value entry = some c →
      Block entry m n o

variable {entry : E} {m : Mem E A} {n : Nat} {o : Option RefAddr} {r : RefAddr} {c : A}

/-- Through a live reference one comes to the control block. -/
theorem Block.load (h : Block entry m n o) (hn : 0 < n) :
    ∃ c, load m ⟨some entry⟩ = .ok (some c) ∧ m.value entry = some c ∧
      m.heap = Heap.empty.put c ⟨o, n⟩ := by
  cases h with
  | absent _ _ => exact absurd hn (Nat.lt_irrefl 0)
  | present c _ hheap hvalue => exact ⟨c, congrArg Except.ok hvalue, hvalue, hheap⟩

theorem get_put {h : Heap A Control} {C : Control} (heq : h = Heap.empty.put c C) :
    h c = some C := by
  rw [heq, Heap.put_self]

theorem lockMtx_spec (h : Block entry m n none) (hn : 0 < n) (hc : m.value entry = some c)
    (r : RefAddr) :
    ∃ m', lockMtx m r c = .ok m' ∧ Block entry m' n (some r) ∧ m'.value entry = m.value entry := by
  obtain ⟨c', -, hvalue, hheap⟩ := h.load hn
  obtain rfl : c' = c := Option.some.inj (hvalue.symm.trans hc)
  refine ⟨{ m with heap := m.heap.put c' ⟨some r, n⟩ }, ?_, .present c' hn ?_ hvalue, rfl⟩
  · rw [lockMtx, get_put hheap, access_some, stop_bind]
    rfl
  · show m.heap.put c' _ = _
    rw [hheap, Heap.put_put]

theorem mapRefUnlockMtx_spec (h : Block entry m n (some r)) (hn : 0 < n) :
    ∃ m', mapRefUnlockMtx m r ⟨some entry⟩ = .ok m' ∧ Block entry m' n none ∧
      m'.value entry = m.value entry := by
  obtain ⟨c, hload, hvalue, hheap⟩ := h.load hn
  refine ⟨{ m with heap := m.heap.put c ⟨none, n⟩ }, ?_, .present c hn ?_ hvalue, rfl⟩
  · rw [mapRefUnlockMtx, hload, stop_bind, access_some, stop_bind, get_put hheap, access_some,
      stop_bind, if_pos rfl]
    rfl
  · show m.heap.put c _ = _
    rw [hheap, Heap.put_put]

variable [DecidableEq E]

/-- The entry changes only with the first reference. -/
theorem mapRefInit_spec (h : Block entry m n o) (hn : n < sizeMax)
    (alloc : Allocator A Control) :
    OrOutOfMemory (mapRefInit alloc entry m) fun r =>
      r.1 = ⟨some entry⟩ ∧ Block entry r.2 (n + 1) o ∧
        (0 < n → r.2.value entry = m.value entry) := by
  unfold mapRefInit
  cases h with
  | absent hheap hvalue =>
      have hload : load m ⟨some entry⟩ = .ok none := congrArg Except.ok hvalue
      refine .bind_ok hload ?_
      cases hm : alloc.malloc m.heap controlSize with
      | none => exact rfl
      | some c =>
          refine .pure ⟨rfl, .present c Nat.one_pos ?_ ?_, fun h0 => absurd h0 (Nat.lt_irrefl 0)⟩
          · show m.heap.put c _ = _
            rw [hheap]
          · exact Function.update_self ..
  | present c hpos hheap hvalue =>
      have hload : load m ⟨some entry⟩ = .ok (some c) := congrArg Except.ok hvalue
      refine .bind_ok hload ?_
      refine .bind_ok (congrArg access (get_put hheap)) ?_
      refine .pure ⟨rfl, .present c (Nat.succ_pos n) ?_ hvalue, fun _ => rfl⟩
      show m.heap.put c _ = _
      rw [hheap, Heap.put_put, addZu_of_le hn]

/-- The entry changes only with the last reference, when nobody holds the mutex. -/
theorem mapRefDestroy_spec (h : Block entry m (n + 1) o) (hn : n < sizeMax)
    (hlast : n = 0 → o = none) :
    ∃ m', mapRefDestroy m ⟨some entry⟩ = .ok m' ∧ Block entry m' n o ∧
      (0 < n → m'.value entry = m.value entry) := by
  obtain ⟨c, hload, hvalue, hheap⟩ := h.load (Nat.succ_pos n)
  have hsub : subZu (n + 1) 1 = n := subZu_of_le (Nat.le_add_left 1 n) hn
  have hrun : mapRefDestroy m ⟨some entry⟩ =
      if n = 0 then
        if o = none then store { m with heap := m.heap.free c } ⟨some entry⟩ none
        else .error pthCheckFailed
      else .ok { m with heap := m.heap.put c ⟨o, n⟩ } := by
    rw [mapRefDestroy, if_neg (by rintro ⟨⟩), hload, stop_bind]
    dsimp only
    rw [get_put hheap, access_some, stop_bind, assertThat_of_pos (Nat.succ_ne_zero n), stop_bind,
      hsub]
    rfl
  rw [hrun]
  by_cases hz : n = 0
  · subst hz
    obtain rfl := hlast rfl
    rw [if_pos rfl, if_pos rfl]
    refine ⟨_, rfl, .absent ?_ ?_, fun h0 => absurd h0 (Nat.lt_irrefl 0)⟩
    · show m.heap.free c = _
      rw [hheap, Heap.free_put rfl]
    · exact Function.update_self ..
  · rw [if_neg hz]
    refine ⟨_, rfl, .present c (Nat.pos_of_ne_zero hz) ?_ hvalue, fun _ => rfl⟩
    show m.heap.put c _ = _
    rw [hheap, Heap.put_put]

end Block

/-! ## The invariant of a run -/

/-- A `MapRef`, with `v` as the value of the entry.  Its owner waits for the mutex of the control
block that the entry leads to. -/
inductive RefOk (entry : E) (v : Option A) : Ref E A → Prop where
  | empty : RefOk entry v ⟨mapRefNewEmpty, .idle⟩
  | idle : RefOk entry v ⟨⟨some entry⟩, .idle⟩
  | locking (c : A) : v = some c → RefOk entry v ⟨⟨some entry⟩, .locking c⟩
  | locked : RefOk entry v ⟨⟨some entry⟩, .locked⟩

/-- The state of a run, with the mutex held by `o`. -/
structure Inv [DecidableEq A] (entry : E) (o : Option RefAddr) (s : State E A) : Prop where
  refs : ∀ r x, s.refs r = some x → RefOk entry (s.mem.value entry) x
  block : Block entry s.mem s.live.ncard o
  excl : Mutex.Excl o s.holds

section Invariant

variable {entry : E} {v v' : Option A} {x : Ref E A}

/-- The value of the entry only matters to live references. -/
theorem RefOk.congr (h : RefOk entry v x) (hv : x.isLive = true → v' = v) :
    RefOk entry v' x := by
  cases h with
  | empty => exact .empty
  | idle => exact .idle
  | locking c hc => exact .locking c ((hv rfl).trans hc)
  | locked => exact .locked

theorem RefOk.isLive_of_isLocked (h : RefOk entry v x) (hlocked : x.isLocked = true) :
    x.isLive = true := by
  cases h with
  | empty => cases hlocked
  | idle => cases hlocked
  | locking c hc => cases hlocked
  | locked => rfl

variable [DecidableEq A] {o o' : Option RefAddr} {s : State E A} {r : RefAddr} {m : Mem E A}
  {y : Option (Ref E A)}

/-- Who holds the mutex has a live reference. -/
theorem Inv.mem_live (h : Inv entry o s) (ho : o = some r) : r ∈ s.live := by
  have hholds : s.holds r = true := (h.excl r).mp ho
  cases hr : s.refs r with
  | none =>
      rw [State.holds, hr] at hholds
      cases hholds
  | some x =>
      rw [State.holds, hr] at hholds
      exact State.mem_live_of hr ((h.refs r x hr).isLive_of_isLocked hholds)

/-- What a step has to respect. -/
theorem Inv.set (h : Inv entry o s) (hy : ∀ x, y = some x → RefOk entry (m.value entry) x)
    (hvalue : ∀ q ∈ s.live, q ≠ r → m.value entry = s.mem.value entry)
    (hblock : Block entry m (s.set r y m).live.ncard o')
    (hmove : Mutex.Move r o (s.holds r) o' (y.any Ref.isLocked)) :
    Inv entry o' (s.set r y m) where
  refs q x hq := by
    by_cases he : q = r
    · subst he
      rw [State.refs_set] at hq
      exact hy x hq
    · rw [State.refs_set_of_ne he] at hq
      exact (h.refs q x hq).congr fun hlive => hvalue q (State.mem_live_of hq hlive) he
  block := hblock
  excl := by
    refine h.excl.move (t := r) ?_ fun q he => State.holds_set_of_ne he
    rw [State.holds_set]
    exact hmove

/-- The same for a step that neither adds a live reference nor removes one. -/
theorem Inv.set_of_live_eq (h : Inv entry o s)
    (hy : ∀ x, y = some x → RefOk entry (m.value entry) x)
    (hvalue : m.value entry = s.mem.value entry)
    (hlive : y.any Ref.isLive = (s.refs r).any Ref.isLive)
    (hblock : Block entry m s.live.ncard o')
    (hmove : Mutex.Move r o (s.holds r) o' (y.any Ref.isLocked)) :
    Inv entry o' (s.set r y m) := by
  refine h.set hy (fun _ _ _ => hvalue) ?_ hmove
  rw [State.live_set_of_live_eq hlive]
  exact hblock

end Invariant

/-! ## Steps -/

section Steps

variable [DecidableEq A] {entry : E} {s : State E A} {o : Option RefAddr} {r : RefAddr}
  {ref : MapRef E} {c : A}

theorem Inv.create (h : Inv entry o s) (hr : s.refs r = none) :
    Inv entry o (s.set r (some ⟨mapRefNewEmpty, .idle⟩) s.mem) := by
  refine h.set_of_live_eq ?_ rfl (by rw [hr]; rfl) h.block ?_
  · rintro _ ⟨⟩
    exact .empty
  · rw [State.holds, hr]
    exact .keep

theorem Inv.lock (h : Inv entry o s) (hr : s.refs r = some ⟨⟨some entry⟩, .idle⟩)
    (hc : s.mem.value entry = some c) :
    Inv entry o (s.set r (some ⟨⟨some entry⟩, .locking c⟩) s.mem) := by
  refine h.set_of_live_eq ?_ rfl (by rw [hr]; rfl) h.block ?_
  · rintro _ ⟨⟩
    exact .locking c hc
  · rw [State.holds, hr]
    exact .keep

theorem Inv.acquire (h : Inv entry none s) {m : Mem E A}
    (hr : s.refs r = some ⟨⟨some entry⟩, .locking c⟩)
    (hblock : Block entry m s.live.ncard (some r)) (hvalue : m.value entry = s.mem.value entry) :
    Inv entry (some r) (s.set r (some ⟨⟨some entry⟩, .locked⟩) m) := by
  refine h.set_of_live_eq ?_ hvalue (by rw [hr]; rfl) hblock .lock
  rintro _ ⟨⟩
  exact .locked

theorem Inv.unlock (h : Inv entry (some r) s) {m : Mem E A}
    (hr : s.refs r = some ⟨⟨some entry⟩, .locked⟩)
    (hblock : Block entry m s.live.ncard none) (hvalue : m.value entry = s.mem.value entry) :
    Inv entry none (s.set r (some ⟨⟨some entry⟩, .idle⟩) m) := by
  refine h.set_of_live_eq ?_ hvalue (by rw [hr]; rfl) hblock ?_
  · rintro _ ⟨⟩
    exact .idle
  · rw [State.holds, hr]
    exact .unlock

variable [DecidableEq E]

theorem Inv.step_init (h : Inv entry o s) (hr : s.refs r = some ⟨mapRefNewEmpty, .idle⟩)
    (alloc : Allocator A Control) :
    OrOutOfMemory (step entry s r (.init alloc)) (∃ o, Inv entry o ·) := by
  have hnotMem : r ∉ s.live := by
    intro hmem
    rw [State.mem_live, hr] at hmem
    cases hmem
  have hncard : (insert r s.live).ncard = s.live.ncard + 1 :=
    Set.ncard_insert_of_notMem hnotMem (Set.toFinite _)
  have hlt : s.live.ncard + 1 ≤ sizeMax := hncard ▸ ncard_le (insert r s.live)
  refine (mapRefInit_spec h.block hlt alloc).bind fun ⟨ref, m⟩ ⟨href, hblock, hvalue⟩ => ?_
  dsimp only at href
  subst href
  refine .pure ⟨o, h.set ?_ ?_ ?_ ?_⟩
  · rintro _ ⟨⟩
    exact .idle
  · intro q hq _
    exact hvalue (ncard_pos_of_mem hq)
  · rw [State.live_set_of_live rfl, hncard]
    exact hblock
  · rw [State.holds, hr]
    exact .keep

theorem Inv.step_destroy_empty (h : Inv entry o s)
    (hr : s.refs r = some ⟨mapRefNewEmpty, .idle⟩) :
    ∃ t, step entry s r .destroy = .ok t ∧ Inv entry o t := by
  refine ⟨s.set r none s.mem, ?_, h.set_of_live_eq ?_ rfl (by rw [hr]; rfl) h.block ?_⟩
  · simp only [step, hr, access_some, stop_bind]
    rfl
  · rintro _ ⟨⟩
  · rw [State.holds, hr]
    exact .keep

theorem Inv.step_destroy (h : Inv entry o s) (hr : s.refs r = some ⟨⟨some entry⟩, .idle⟩) :
    ∃ t, step entry s r .destroy = .ok t ∧ Inv entry o t := by
  have hmem : r ∈ s.live := State.mem_live_of hr rfl
  have hncard : (s.live \ {r}).ncard + 1 = s.live.ncard := Set.ncard_sdiff_singleton_add_one hmem
  have hlt : (s.live \ {r}).ncard + 1 ≤ sizeMax := hncard ▸ ncard_le s.live
  -- The owner of the mutex has a live reference, which is not this one.
  have hlast : (s.live \ {r}).ncard = 0 → o = none := by
    intro hzero
    rw [Set.ncard_eq_zero (Set.toFinite _)] at hzero
    cases ho : o with
    | none => rfl
    | some q =>
        have hq : q ∉ s.live \ {r} := hzero ▸ Set.notMem_empty q
        obtain rfl : q = r := by
          by_contra hne
          exact hq ⟨h.mem_live ho, hne⟩
        have hholds := (h.excl q).mp ho
        rw [State.holds, hr] at hholds
        cases hholds
  obtain ⟨m, hrun, hblock, hvalue⟩ := mapRefDestroy_spec (hncard ▸ h.block) hlt hlast
  refine ⟨s.set r none m, ?_, h.set ?_ ?_ ?_ ?_⟩
  · simp only [step, hr, access_some, stop_bind, hrun]
    rfl
  · rintro _ ⟨⟩
  · intro q hq hne
    exact hvalue (ncard_pos_of_mem ⟨hq, hne⟩)
  · rw [State.live_set_of_not_live rfl]
    exact hblock
  · rw [State.holds, hr]
    exact .keep

theorem Inv.step_lock (h : Inv entry o s) (hr : s.refs r = some ⟨⟨some entry⟩, .idle⟩) :
    ∃ t, step entry s r .lock = .ok t ∧ Inv entry o t := by
  have hmem : r ∈ s.live := State.mem_live_of hr rfl
  obtain ⟨c, hload, hvalue, -⟩ := h.block.load (ncard_pos_of_mem hmem)
  refine ⟨_, ?_, h.lock hr hvalue⟩
  simp only [step, hr, access_some, stop_bind, hload]
  rfl

/-- The thread comes out of the lock with the mutex of the control block. -/
theorem Inv.step_acquire (h : Inv entry o s)
    (hr : s.refs r = some ⟨⟨some entry⟩, .locking c⟩) (hc : s.mem.value entry = some c)
    (hfree : ∀ C, s.mem.heap c = some C → C.mtx = none) :
    ∃ t, step entry s r .acquire = .ok t ∧ Inv entry (some r) t := by
  have hmem : r ∈ s.live := State.mem_live_of hr rfl
  have hpos := ncard_pos_of_mem hmem
  obtain ⟨c', -, hvalue, hheap⟩ := h.block.load hpos
  obtain rfl : c' = c := Option.some.inj (hvalue.symm.trans hc)
  obtain rfl : o = none := hfree _ (get_put hheap)
  obtain ⟨m, hrun, hblock, hkeep⟩ := lockMtx_spec h.block hpos hc r
  refine ⟨_, ?_, h.acquire hr hblock hkeep⟩
  simp only [step, hr, access_some, stop_bind, hrun]
  rfl

theorem Inv.step_unlock (h : Inv entry o s) (hr : s.refs r = some ⟨⟨some entry⟩, .locked⟩) :
    ∃ t, step entry s r .unlock = .ok t ∧ Inv entry none t := by
  have hmem : r ∈ s.live := State.mem_live_of hr rfl
  have hholds : s.holds r = true := by
    rw [State.holds, hr]
    rfl
  obtain rfl : o = some r := (h.excl r).mpr hholds
  obtain ⟨m, hrun, hblock, hkeep⟩ := mapRefUnlockMtx_spec h.block (ncard_pos_of_mem hmem)
  refine ⟨_, ?_, h.unlock hr hblock hkeep⟩
  simp only [step, hr, access_some, stop_bind, hrun]
  rfl

/-- A step that is possible keeps the invariant; only memory can be short. -/
theorem Inv.of_step (h : Inv entry o s) {op : Op A} (hop : Enabled s r op) :
    OrOutOfMemory (step entry s r op) (∃ o, Inv entry o ·) := by
  cases hop with
  | create hr => exact .pure ⟨o, h.create hr⟩
  | init hr => exact h.step_init hr _
  | lock hr hne =>
      cases h.refs r _ hr with
      | empty => exact absurd rfl hne
      | idle =>
          obtain ⟨t, hstep, ht⟩ := h.step_lock hr
          exact hstep ▸ .pure ⟨o, ht⟩
  | acquire hr hfree =>
      cases h.refs r _ hr with
      | locking c hc =>
          obtain ⟨t, hstep, ht⟩ := h.step_acquire hr hc hfree
          exact hstep ▸ .pure ⟨some r, ht⟩
  | unlock hr =>
      cases h.refs r _ hr with
      | locked =>
          obtain ⟨t, hstep, ht⟩ := h.step_unlock hr
          exact hstep ▸ .pure ⟨none, ht⟩
  | destroy hr =>
      cases h.refs r _ hr with
      | empty =>
          obtain ⟨t, hstep, ht⟩ := h.step_destroy_empty hr
          exact hstep ▸ .pure ⟨o, ht⟩
      | idle =>
          obtain ⟨t, hstep, ht⟩ := h.step_destroy hr
          exact hstep ▸ .pure ⟨o, ht⟩

end Steps

/-! ## Reference counting -/

end Luastatus.Multiplex.Refs

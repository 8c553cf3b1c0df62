import Luastatus.Lib.Chain
import Luastatus.Lib.CString
import Luastatus.Lib.Transition
import Luastatus.LibLs.AllocUtils

/-!
# The map of the core

Plugins and barlibs share a map from strings to pointers.  `map_get` gives the address of the
pointer for a key, and adds an entry with a null pointer if there is none.  The addresses are
promised to be persistent: a plugin keeps the one it got and reads and writes through it.

The entries are a linked list, a new one in front.  `map_destroy` frees them.

A run is a sequence of calls of `map_get` and of writes through addresses that it gave.  `stored`
reads off the history what was last written through an address.  `mapGet_persistent` is what holds
after every history.
-/

namespace Luastatus.Core

open Memory LibLs Text
open Transition

variable {A V : Type}

/-! ## The functions -/

/-- `MapEntry`; `V` are the addresses that values point to. -/
structure MapEntry (A V : Type) where
  value : Option V
  next : Option A
  key : CString

/-- The entries and `map_top`.  The address of an entry is that of its value. -/
structure EntryMap (A V : Type) where
  heap : Heap A (MapEntry A V)
  mapTop : Option A

/-- `sizeof(MapEntry)`. -/
def entrySize : Nat := 16

/-- The condition in the loop of `map_get`. -/
def MapEntry.hasKey (key : CString) (e : MapEntry A V) : Bool := strcmp key e.key = 0

theorem hasKey_iff {key : CString} {e : MapEntry A V} : e.hasKey key = true ↔ e.key = key := by
  rw [MapEntry.hasKey, decide_eq_true_iff, strcmp_eq_zero_iff, eq_comm]

section Functions

variable [DecidableEq A]

/-- `map_get`; `none` if the loop has made `fuel` rounds and is not done. -/
def mapGet (alloc : Allocator A (MapEntry A V)) (fuel : Nat) (m : EntryMap A V) (key : CString) :
    Option (Except Stop (A × EntryMap A V)) :=
  match search MapEntry.next (MapEntry.hasKey key) m.heap fuel m.mapTop with
  | none => none
  | some (.found e) => some (.ok (e, m))
  | some .invalid => some (.error .invalidAccess)
  | some .absent =>
      match alloc.malloc m.heap (entrySize + key.bytes.length + 1) with
      | none => some (.error .outOfMemory)
      | some e =>
          some (.ok (e, { heap := m.heap.put e { value := none, next := m.mapTop, key := key }
                          mapTop := some e }))

/-- `map_destroy`. -/
def mapDestroy (fuel : Nat) (m : EntryMap A V) : Option (Option (Heap A (MapEntry A V))) :=
  freeAll MapEntry.next fuel m.mapTop m.heap

/-! ## Runs -/

/-- What happens in a step. -/
inductive MapLabel (A V : Type) where
  /-- `map_get` is called with the key and gives the address. -/
  | get (key : CString) (p : A)
  /-- A pointer is stored at the address. -/
  | set (p : A) (v : Option V)

/-- A call of `map_get`, or a write to the value of an entry. -/
inductive MapStep (m : EntryMap A V) : MapLabel A V → EntryMap A V → Prop where
  | get (alloc : Allocator A (MapEntry A V)) (fuel : Nat) :
      mapGet alloc fuel m key = some (.ok (p, m')) → MapStep m (.get key p) m'
  | set (v : Option V) : m.heap p = some e →
      MapStep m (.set p v) { m with heap := m.heap.put p { e with value := v } }

/-- The map, from the start of the program on. -/
def mapSystem (A V : Type) [DecidableEq A] : System (EntryMap A V) (MapLabel A V) where
  init m := m = { heap := Heap.empty, mapTop := none }
  step := MapStep

/-- What was last stored at an address; the history has the newest label first. -/
def stored (p : A) : List (MapLabel A V) → Option V
  | [] => none
  | .set q v :: h => if q = p then v else stored p h
  | .get _ _ :: h => stored p h

/-! ## The invariant -/

/-- The entries are the list from `map_top` on, no two of them have one key, and the history is
that of the addresses and values of the entries. -/
structure MapInv (h : List (MapLabel A V)) (m : EntryMap A V) (ps : List A) : Prop where
  chain : Memory.Chain MapEntry.next m.heap m.mapTop ps
  mem : ∀ p, m.heap p ≠ none → p ∈ ps
  keys : ∀ p q e e', m.heap p = some e → m.heap q = some e' → e.key = e'.key → p = q
  gets : ∀ k p, .get k p ∈ h → ∃ e, m.heap p = some e ∧ e.key = k
  given : ∀ p ∈ ps, ∃ k, .get k p ∈ h
  values : ∀ p e, m.heap p = some e → e.value = stored p h
  unset : ∀ p, m.heap p = none → stored p h = none

variable {h : List (MapLabel A V)} {m m' : EntryMap A V} {ps : List A} {p : A} {key : CString}
  {e : MapEntry A V} {v : Option V}

theorem MapInv.init : MapInv [] ({ heap := Heap.empty, mapTop := none } : EntryMap A V) [] where
  chain := .nil
  mem _ hp := absurd rfl hp
  keys _ _ _ _ hp := by cases hp
  gets _ _ hmem := absurd hmem List.not_mem_nil
  given _ hmem := absurd hmem List.not_mem_nil
  values _ _ hp := by cases hp
  unset _ _ := rfl

/-- A new entry. -/
def EntryMap.push (m : EntryMap A V) (p : A) (key : CString) : EntryMap A V where
  heap := m.heap.put p { value := none, next := m.mapTop, key := key }
  mapTop := some p

/-- What `map_get` does, if it is done: it finds the entry with the key, or there is none and it
adds one, or memory is short. -/
theorem MapInv.mapGet_cases (hm : MapInv h m ps) {alloc : Allocator A (MapEntry A V)} {fuel : Nat}
    {r : Except Stop (A × EntryMap A V)} (hr : mapGet alloc fuel m key = some r) :
    (∃ p e, m.heap p = some e ∧ e.key = key ∧ r = .ok (p, m)) ∨
    (∀ p e, m.heap p = some e → e.key ≠ key) ∧
      (alloc.malloc m.heap (entrySize + key.bytes.length + 1) = none ∧ r = .error .outOfMemory ∨
        ∃ p, alloc.malloc m.heap (entrySize + key.bytes.length + 1) = some p ∧
          r = .ok (p, m.push p key)) := by
  unfold mapGet at hr
  cases hs : search MapEntry.next (MapEntry.hasKey key) m.heap fuel m.mapTop with
  | none =>
      rw [hs] at hr
      cases hr
  | some found =>
      have hsearch := hm.chain.search_eq (MapEntry.hasKey key) (Nat.le_max_right fuel ps.length)
      rw [search_mono hs (Nat.le_max_left fuel ps.length)] at hsearch
      rw [hs] at hr
      cases hfind : ps.find? fun p => (m.heap p).any (MapEntry.hasKey key) with
      | some p =>
          rw [hfind] at hsearch
          obtain rfl : found = .found p := Option.some.inj hsearch
          have hany := List.find?_some hfind
          obtain ⟨e, he⟩ := hm.chain.isSome_of_mem (List.mem_of_find?_eq_some hfind)
          rw [he, Option.any_some, hasKey_iff] at hany
          exact .inl ⟨p, e, he, hany, (Option.some.inj hr).symm⟩
      | none =>
          rw [hfind] at hsearch
          obtain rfl : found = .absent := Option.some.inj hsearch
          refine .inr ⟨fun p e he hkey => ?_, ?_⟩
          · have hnot := List.find?_eq_none.mp hfind p (hm.mem p (by rw [he]; simp))
            rw [he, Option.any_some, hasKey_iff] at hnot
            exact hnot hkey
          · cases halloc : alloc.malloc m.heap (entrySize + key.bytes.length + 1) with
            | none =>
                simp only [halloc] at hr
                exact .inl ⟨rfl, (Option.some.inj hr).symm⟩
            | some p =>
                simp only [halloc] at hr
                exact .inr ⟨p, rfl, (Option.some.inj hr).symm⟩

/-- With as many rounds as there are entries `map_get` is done. -/
theorem MapInv.mapGet_done (hm : MapInv h m ps) (alloc : Allocator A (MapEntry A V))
    (key : CString) : ∃ r, mapGet alloc ps.length m key = some r := by
  unfold mapGet
  rw [hm.chain.search_eq (MapEntry.hasKey key) (Nat.le_refl _)]
  cases ps.find? fun p => (m.heap p).any (MapEntry.hasKey key) with
  | some p => exact ⟨_, rfl⟩
  | none =>
      simp only [Option.map_none, Option.getD_none]
      cases alloc.malloc m.heap (entrySize + key.bytes.length + 1) <;> exact ⟨_, rfl⟩

/-- With fewer rounds it is not done if there is no entry with the key. -/
theorem MapInv.mapGet_none (hm : MapInv h m ps) (alloc : Allocator A (MapEntry A V))
    (hnew : ∀ p e, m.heap p = some e → e.key ≠ key) {n : Nat} (hn : n < ps.length) :
    mapGet alloc n m key = none := by
  have hsearch : search MapEntry.next (MapEntry.hasKey key) m.heap n m.mapTop = none := by
    refine hm.chain.search_none (fun p e _ he => ?_) hn
    exact Bool.eq_false_iff.mpr fun htest => hnew p e he (hasKey_iff.mp htest)
  rw [mapGet, hsearch]

/-! ## Every step keeps the invariant -/

/-- `map_get` finds an entry. -/
theorem MapInv.found (hm : MapInv h m ps) (hp : m.heap p = some e) (hkey : e.key = key) :
    MapInv (.get key p :: h) m ps :=
  { hm with
    gets := fun k q hmem => by
      cases hmem with
      | head => exact ⟨e, hp, hkey⟩
      | tail _ hmem => exact hm.gets k q hmem
    given := fun q hq => (hm.given q hq).imp fun _ => List.mem_cons_of_mem _
    values := hm.values
    unset := hm.unset }

/-- `map_get` adds an entry. -/
theorem MapInv.push (hm : MapInv h m ps) (hp : m.heap p = none)
    (hnew : ∀ q e, m.heap q = some e → e.key ≠ key) :
    MapInv (.get key p :: h) (m.push p key) (p :: ps) := by
  have hold {q : A} {e : MapEntry A V} (hq : m.heap q = some e) :
      (m.push p key).heap q = some e := by
    refine (Heap.put_of_ne ?_ m.heap _).trans hq
    rintro rfl
    cases hp.symm.trans hq
  have hcases {q : A} {e : MapEntry A V} (hq : (m.push p key).heap q = some e) :
      (q = p ∧ e = { value := none, next := m.mapTop, key := key }) ∨ m.heap q = some e := by
    by_cases he : q = p
    · subst he
      exact .inl ⟨rfl, (Option.some.inj ((Heap.put_self m.heap q _).symm.trans hq)).symm⟩
    · exact .inr ((Heap.put_of_ne he m.heap _).symm.trans hq)
  exact {
    chain := hm.chain.push hp rfl
    mem := fun q hq => by
      obtain ⟨e, he⟩ := Option.ne_none_iff_exists'.mp hq
      rcases hcases he with ⟨rfl, -⟩ | he
      · exact List.mem_cons_self
      · exact List.mem_cons_of_mem p (hm.mem q (by rw [he]; simp))
    keys := fun q q' e e' hq hq' hkey => by
      rcases hcases hq with ⟨hqp, rfl⟩ | hqold <;> rcases hcases hq' with ⟨hqp', rfl⟩ | hqold'
      · exact hqp.trans hqp'.symm
      · exact absurd hkey.symm (hnew q' e' hqold')
      · exact absurd hkey (hnew q e hqold)
      · exact hm.keys q q' e e' hqold hqold' hkey
    gets := fun k q hmem => by
      cases hmem with
      | head => exact ⟨_, Heap.put_self m.heap p _, rfl⟩
      | tail _ hmem =>
          obtain ⟨e, he, hk⟩ := hm.gets k q hmem
          exact ⟨e, hold he, hk⟩
    given := fun q hq => by
      cases hq with
      | head => exact ⟨key, List.mem_cons_self⟩
      | tail _ hq => exact (hm.given q hq).imp fun _ => List.mem_cons_of_mem _
    values := fun q e hq => by
      rcases hcases hq with ⟨rfl, rfl⟩ | hq
      · exact (hm.unset q hp).symm
      · exact hm.values q e hq
    unset := fun q hq => by
      refine hm.unset q ?_
      cases hq' : m.heap q with
      | none => rfl
      | some e => cases hq.symm.trans (hold hq') }

/-- A write. -/
theorem MapInv.set (hm : MapInv h m ps) (hp : m.heap p = some e) :
    MapInv (.set p v :: h) { m with heap := m.heap.put p { e with value := v } } ps := by
  have hcases {q : A} {e' : MapEntry A V} (hq : m.heap.put p { e with value := v } q = some e') :
      ∃ e'', m.heap q = some e'' ∧ e''.key = e'.key ∧
        (q = p ∧ e'.value = v ∨ q ≠ p ∧ e'.value = e''.value) := by
    by_cases he : q = p
    · subst he
      cases (Heap.put_self m.heap q _).symm.trans hq
      exact ⟨e, hp, rfl, .inl ⟨rfl, rfl⟩⟩
    · exact ⟨e', (Heap.put_of_ne he m.heap _).symm.trans hq, rfl, .inr ⟨he, rfl⟩⟩
  exact {
    chain := hm.chain.put hp rfl
    mem := fun q hq => by
      obtain ⟨e', he'⟩ := Option.ne_none_iff_exists'.mp hq
      obtain ⟨e'', he'', -⟩ := hcases he'
      exact hm.mem q (by rw [he'']; simp)
    keys := fun q q' e₁ e₂ hq hq' hkey => by
      obtain ⟨e₁', hq, hk₁, -⟩ := hcases hq
      obtain ⟨e₂', hq', hk₂, -⟩ := hcases hq'
      exact hm.keys q q' e₁' e₂' hq hq' (hk₁.trans (hkey.trans hk₂.symm))
    gets := fun k q hmem => by
      cases hmem with
      | tail _ hmem =>
          obtain ⟨e', he', hk⟩ := hm.gets k q hmem
          by_cases hq : q = p
          · subst hq
            cases hp.symm.trans he'
            exact ⟨_, Heap.put_self m.heap q _, hk⟩
          · exact ⟨e', (Heap.put_of_ne hq m.heap _).trans he', hk⟩
    given := fun q hq => (hm.given q hq).imp fun _ => List.mem_cons_of_mem _
    values := fun q e' hq => by
      obtain ⟨e'', he'', -, hv⟩ := hcases hq
      rw [stored]
      rcases hv with ⟨rfl, hv⟩ | ⟨hne, hv⟩
      · rw [if_pos rfl, hv]
      · rw [if_neg hne.symm, hv]
        exact hm.values q e'' he''
    unset := fun q hq => by
      have hne : q ≠ p := by
        rintro rfl
        cases (Heap.put_self m.heap q _).symm.trans hq
      rw [stored, if_neg hne.symm]
      exact hm.unset q ((Heap.put_of_ne hne m.heap _).symm.trans hq) }

theorem MapInv.of_hist (hs : (mapSystem A V).Hist h m) : ∃ ps, MapInv h m ps := by
  refine hs.invariant (P := fun h m => ∃ ps, MapInv h m ps) (fun m hi => ?_)
    fun h m l m' _ ih hst => ?_
  · rw [show m = _ from hi]
    exact ⟨[], .init⟩
  · obtain ⟨ps, hm⟩ := ih
    cases hst with
    | get _ _ hget =>
        rcases hm.mapGet_cases hget with ⟨p, e, hp, hkey, hr⟩ | ⟨hnew, ⟨-, hr⟩ | ⟨p, hp, hr⟩⟩
        · cases hr
          exact ⟨ps, hm.found hp hkey⟩
        · cases hr
        · cases hr
          exact ⟨_, hm.push (Allocator.fresh _ hp) hnew⟩
    | set _ hp => exact ⟨ps, hm.set hp⟩

/-! ## Addresses are persistent -/

/-- What a call of `map_get` with that many rounds does: it gives the address of the entry with the
key; or there is none, fewer rounds do not do, and it gives a new one or memory is short. -/
def GetsIn (m : EntryMap A V) (rounds : Nat) (alloc : Allocator A (MapEntry A V))
    (key : CString) : Prop :=
  (∃ p e, m.heap p = some e ∧ e.key = key ∧ mapGet alloc rounds m key = some (.ok (p, m))) ∨
  (∀ p e, m.heap p = some e → e.key ≠ key) ∧ (∀ n < rounds, mapGet alloc n m key = none) ∧
    (alloc.malloc m.heap (entrySize + key.bytes.length + 1) = none ∧
        mapGet alloc rounds m key = some (.error .outOfMemory) ∨
      ∃ p, alloc.malloc m.heap (entrySize + key.bytes.length + 1) = some p ∧
        mapGet alloc rounds m key = some (.ok (p, m.push p key)))

theorem MapInv.getsIn (hm : MapInv h m ps) (alloc : Allocator A (MapEntry A V)) (key : CString) :
    GetsIn m ps.length alloc key := by
  obtain ⟨r, hr⟩ := hm.mapGet_done alloc key
  rcases hm.mapGet_cases hr with ⟨p, e, hp, hkey, rfl⟩ | ⟨hnew, hmalloc⟩
  · exact .inl ⟨p, e, hp, hkey, hr⟩
  · refine .inr ⟨hnew, fun n hn => hm.mapGet_none alloc hnew hn, ?_⟩
    rcases hmalloc with ⟨hnone, rfl⟩ | ⟨p, hp, rfl⟩
    · exact .inl ⟨hnone, hr⟩
    · exact .inr ⟨p, hp, hr⟩

/-- After every sequence of calls and writes: `map_get` has given one address for one key and
different addresses for different keys, and the value at such an address is what was last written
through it, or null.  The addresses `ps` that it has given are those of the entries.  A call of
`map_get` is done after at most as many rounds as there are entries, and fails exactly if there is
none with the key and no memory for a new one.  `map_destroy` frees every entry, each of them in a
round of its own. -/
theorem mapGet_persistent (hs : (mapSystem A V).Hist h m) :
    (∀ k p k' p', .get k p ∈ h → .get k' p' ∈ h → (p = p' ↔ k = k')) ∧
    (∀ k p, .get k p ∈ h → ∃ e, m.heap p = some e ∧ e.key = k ∧ e.value = stored p h) ∧
    ∃ ps : List A, ps.Nodup ∧ (∀ p, p ∈ ps ↔ m.heap p ≠ none) ∧
      (∀ p, p ∈ ps ↔ ∃ k, .get k p ∈ h) ∧
      (∀ alloc key, GetsIn m ps.length alloc key) ∧
      mapDestroy ps.length m = some (some Heap.empty) ∧
      ∀ n < ps.length, mapDestroy n m = none := by
  obtain ⟨ps, hm⟩ := MapInv.of_hist hs
  have hmem (p : A) : p ∈ ps ↔ m.heap p ≠ none := by
    refine ⟨fun hp => ?_, hm.mem p⟩
    obtain ⟨e, he⟩ := hm.chain.isSome_of_mem hp
    rw [he]
    exact Option.some_ne_none e
  refine ⟨fun k p k' p' hp hp' => ?_, fun k p hp => ?_, ps, hm.chain.nodup, hmem,
    fun p => ⟨hm.given p, fun ⟨k, hp⟩ => ?_⟩, hm.getsIn, ?_, fun n hn => ?_⟩
  · obtain ⟨e, he, rfl⟩ := hm.gets k p hp
    obtain ⟨e', he', rfl⟩ := hm.gets k' p' hp'
    constructor
    · rintro rfl
      rw [Option.some.inj (he.symm.trans he')]
    · exact hm.keys p p' e e' he he'
  · obtain ⟨e, he, hk⟩ := hm.gets k p hp
    exact ⟨e, he, hk, hm.values p e he⟩
  · obtain ⟨e, he, -⟩ := hm.gets k p hp
    exact hm.mem p (by rw [he]; exact Option.some_ne_none e)
  · rw [mapDestroy, hm.chain.freeAll_eq (Nat.le_refl _)]
    refine congrArg (fun g => some (some g)) (funext fun p => ?_)
    split
    · rfl
    · rename_i hp
      exact Classical.not_not.mp fun hne => hp ((hmem p).mpr hne)
  · rw [mapDestroy, hm.chain.freeAll_none hn]

/-- Two keys, and a write through the address of the first. -/
theorem mapGet_persistent_two : ∃ m : EntryMap Nat Nat,
    (mapSystem Nat Nat).Hist
      [.get ⟨[102], by decide⟩ 0, .set 0 (some 5), .get ⟨[103], by decide⟩ 1,
        .get ⟨[102], by decide⟩ 0] m ∧
      ∃ e, m.heap 0 = some e ∧ e.key = ⟨[102], by decide⟩ ∧ e.value = some 5 := by
  let k : CString := ⟨[102], by decide⟩
  let k' : CString := ⟨[103], by decide⟩
  have h0 : (mapSystem Nat Nat).Hist [] { heap := Heap.empty, mapTop := none } := .init rfl
  have h1 : (mapSystem Nat Nat).Hist [.get k 0] _ := h0.step (.get .two 0 rfl)
  have h2 : (mapSystem Nat Nat).Hist [.get k' 1, .get k 0] _ := h1.step (.get .two 1 rfl)
  have h3 : (mapSystem Nat Nat).Hist [.set 0 (some 5), .get k' 1, .get k 0] _ :=
    h2.step (.set (some 5) rfl)
  have h4 : (mapSystem Nat Nat).Hist [.get k 0, .set 0 (some 5), .get k' 1, .get k 0] _ :=
    h3.step (.get .two 2 rfl)
  exact ⟨_, h4, (mapGet_persistent h4).2.1 _ 0 List.mem_cons_self⟩

end Functions

end Luastatus.Core

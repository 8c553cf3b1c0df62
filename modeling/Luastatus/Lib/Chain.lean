import Luastatus.Lib.Heap

/-!
# Linked lists on a heap

A node has a pointer to the next one, and the last one has the null pointer.  `Chain next h e ps`
says that from the pointer `e` the links lead through the nodes at `ps` to null.  There is at most
one such list (`Chain.unique`), and it has no node twice (`Chain.nodup`).

`search` is the loop that looks for the first node that passes a test, and `freeAll` the loop that
frees all of them.  Both take the number of rounds they may make, since the links of a heap may
also lead in a circle.  On a chain they end after at most as many rounds as there are nodes
(`Chain.search_eq`, `Chain.freeAll_eq`).
-/

namespace Memory

variable {A α : Type*}

/-- From `e` the links lead through the nodes at `ps` to null. -/
inductive Chain (next : α → Option A) (h : Heap A α) : Option A → List A → Prop where
  | nil : Chain next h none []
  | cons : h p = some x → Chain next h (next x) ps → Chain next h (some p) (p :: ps)

/-- How a search ends. -/
inductive Search (A : Type*) where
  | found (p : A)
  | absent
  /-- It has followed a pointer to memory that is not allocated. -/
  | invalid
deriving DecidableEq, Repr

/-- `for (p = e; p; p = p->next)`, up to the first node that passes the test; `none` if there are
not enough rounds. -/
def search (next : α → Option A) (test : α → Bool) (h : Heap A α) :
    Nat → Option A → Option (Search A)
  | _, none => some .absent
  | 0, some _ => none
  | fuel + 1, some p =>
      match h p with
      | none => some .invalid
      | some x => if test x then some (.found p) else search next test h fuel (next x)

/-- The loop that frees every node and reads its link before; the inner `none` is an invalid
access. -/
def freeAll [DecidableEq A] (next : α → Option A) :
    Nat → Option A → Heap A α → Option (Option (Heap A α))
  | _, none, h => some (some h)
  | 0, some _, _ => none
  | fuel + 1, some p, h =>
      match h p with
      | none => some none
      | some x => freeAll next fuel (next x) (h.free p)

variable {next : α → Option A} {h h' : Heap A α} {e : Option A} {ps qs : List A} {p : A} {x : α}

/-- More rounds do not change how a search ends. -/
theorem search_mono {test : α → Bool} {fuel fuel' : Nat} {r : Search A}
    (hs : search next test h fuel e = some r) (hle : fuel ≤ fuel') :
    search next test h fuel' e = some r := by
  induction fuel generalizing e fuel' with
  | zero =>
      cases e with
      | none => cases fuel' <;> exact hs
      | some p => cases hs
  | succ fuel ih =>
      cases fuel' with
      | zero => cases hle
      | succ fuel' =>
          cases e with
          | none => exact hs
          | some p =>
              rw [search] at hs ⊢
              cases hp : h p with
              | none => rwa [hp] at hs
              | some x =>
                  simp only [hp] at hs ⊢
                  cases ht : test x with
                  | true => rwa [ht] at hs
                  | false =>
                      rw [ht] at hs
                      exact ih hs (Nat.le_of_succ_le_succ hle)

namespace Chain

theorem unique (hc : Chain next h e ps) (hc' : Chain next h e qs) : ps = qs := by
  induction hc generalizing qs with
  | nil =>
      cases hc'
      rfl
  | cons hp _ ih =>
      cases hc' with
      | cons hp' hrest =>
          obtain rfl := Option.some.inj (hp.symm.trans hp')
          rw [ih hrest]

/-- Every node of a list begins a list that is not longer. -/
theorem from_mem (hc : Chain next h e ps) (hp : p ∈ ps) :
    ∃ qs, Chain next h (some p) qs ∧ qs.length ≤ ps.length := by
  induction hc with
  | nil => exact absurd hp List.not_mem_nil
  | @cons q x ps hq hrest ih =>
      cases hp with
      | head => exact ⟨_, .cons hq hrest, Nat.le_refl _⟩
      | tail _ hp =>
          obtain ⟨qs, hqs, hle⟩ := ih hp
          exact ⟨qs, hqs, Nat.le_succ_of_le hle⟩

theorem nodup (hc : Chain next h e ps) : ps.Nodup := by
  induction hc with
  | nil => exact List.nodup_nil
  | @cons p x ps hp hrest ih =>
      refine List.nodup_cons.mpr ⟨fun hmem => ?_, ih⟩
      -- a second visit would begin a list both longer and not longer than the rest
      obtain ⟨qs, hqs, hle⟩ := hrest.from_mem hmem
      rw [hqs.unique (.cons hp hrest), List.length_cons] at hle
      omega

theorem isSome_of_mem (hc : Chain next h e ps) (hp : p ∈ ps) : ∃ x, h p = some x := by
  obtain ⟨qs, hqs, -⟩ := hc.from_mem hp
  cases hqs with
  | cons hx _ => exact ⟨_, hx⟩

/-- Only the links of the nodes matter. -/
theorem congr (hc : Chain next h e ps)
    (heq : ∀ p ∈ ps, (h' p).map next = (h p).map next) : Chain next h' e ps := by
  induction hc with
  | nil => exact .nil
  | @cons p x ps hp _ ih =>
      have hp' := heq p List.mem_cons_self
      rw [hp, Option.map_some, Option.map_eq_some_iff] at hp'
      obtain ⟨y, hy, hnext⟩ := hp'
      refine .cons hy ?_
      rw [hnext]
      exact ih fun q hq => heq q (List.mem_cons_of_mem p hq)

theorem search_eq (hc : Chain next h e ps) (test : α → Bool) {fuel : Nat}
    (hfuel : ps.length ≤ fuel) :
    search next test h fuel e =
      some (((ps.find? fun p => (h p).any test).map Search.found).getD .absent) := by
  induction hc generalizing fuel with
  | nil => cases fuel <;> rfl
  | @cons p x ps hp _ ih =>
      cases fuel with
      | zero => cases hfuel
      | succ fuel =>
          have hany : (h p).any test = test x := by rw [hp, Option.any_some]
          rw [List.find?_cons, hany]
          simp only [search, hp]
          cases test x with
          | true => rfl
          | false => exact ih (Nat.le_of_succ_le_succ hfuel)

/-- A search for what is not there does not end before the nodes do. -/
theorem search_none (hc : Chain next h e ps) {test : α → Bool}
    (htest : ∀ p x, p ∈ ps → h p = some x → test x = false) {fuel : Nat}
    (hfuel : fuel < ps.length) : search next test h fuel e = none := by
  induction hc generalizing fuel with
  | nil => cases hfuel
  | @cons p x ps hp _ ih =>
      cases fuel with
      | zero => rfl
      | succ fuel =>
          rw [search, hp]
          simp only [htest p x List.mem_cons_self hp]
          exact ih (fun q y hq => htest q y (List.mem_cons_of_mem p hq))
            (Nat.lt_of_succ_lt_succ hfuel)

variable [DecidableEq A]

/-- A new node in front. -/
theorem push (hc : Chain next h e ps) (hp : h p = none) (hx : next x = e) :
    Chain next (h.put p x) (some p) (p :: ps) := by
  refine .cons (h.put_self p x) ?_
  rw [hx]
  refine hc.congr fun q hq => ?_
  rw [Heap.put_of_ne ?_ h x]
  rintro rfl
  obtain ⟨y, hy⟩ := hc.isSome_of_mem hq
  cases hp.symm.trans hy

/-- A node is overwritten, and keeps its link. -/
theorem put (hc : Chain next h e ps) (hp : h p = some x) {y : α} (hy : next y = next x) :
    Chain next (h.put p y) e ps := by
  refine hc.congr fun q _ => ?_
  by_cases hq : q = p
  · subst hq
    rw [Heap.put_self, hp, Option.map_some, Option.map_some, hy]
  · rw [Heap.put_of_ne hq h y]

/-- The rest of a list survives its first node. -/
theorem tail_free (hc : Chain next h (next x) ps) (hp : p ∉ ps) :
    Chain next (h.free p) (next x) ps := by
  refine hc.congr fun q hq => ?_
  rw [Heap.free_of_ne ?_ h]
  rintro rfl
  exact hp hq

/-- The nodes are freed, each of them once, and nothing else is. -/
theorem freeAll_eq (hc : Chain next h e ps) {fuel : Nat} (hfuel : ps.length ≤ fuel) :
    freeAll next fuel e h = some (some fun p => if p ∈ ps then none else h p) := by
  induction ps generalizing h e fuel with
  | nil =>
      cases hc
      cases fuel <;> simp [freeAll]
  | cons p ps ih =>
      have hnodup := List.nodup_cons.mp hc.nodup
      cases hc with
      | @cons _ x _ hp hrest =>
          cases fuel with
          | zero => cases hfuel
          | succ fuel =>
              rw [freeAll, hp]
              show freeAll next fuel (next x) (h.free p) = _
              rw [ih (hrest.tail_free hnodup.1) (Nat.le_of_succ_le_succ hfuel)]
              refine congrArg (fun g => some (some g)) (funext fun q => ?_)
              by_cases hq : q = p
              · subst hq
                simp
              · simp [hq, Heap.free_of_ne hq h]

/-- One node is freed in a round. -/
theorem freeAll_none (hc : Chain next h e ps) {fuel : Nat} (hfuel : fuel < ps.length) :
    freeAll next fuel e h = none := by
  induction ps generalizing h e fuel with
  | nil => cases hfuel
  | cons p ps ih =>
      have hnodup := List.nodup_cons.mp hc.nodup
      cases hc with
      | @cons _ x _ hp hrest =>
          cases fuel with
          | zero => rfl
          | succ fuel =>
              rw [freeAll, hp]
              exact ih (hrest.tail_free hnodup.1) (Nat.lt_of_succ_lt_succ hfuel)

end Chain

end Memory

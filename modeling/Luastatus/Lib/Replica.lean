import Mathlib.Tactic.Common

/-!
# Copies that messages keep up to date

Somebody owns a map and tells about its changes in messages, which wait in a queue.  A message says
of each key that nothing has happened, what the new value is, or only that there is a new value.
Somebody else keeps a copy of the map: it applies the messages to its copy, or takes a snapshot of
the map itself.

A snapshot may be newer than messages that are still in the queue, so old values are applied to it
again.  This does no harm: what the queue says of a key last is what the owner has (`Sound`), and a
key that the queue says nothing of has the owner's value in the copy (`Current`).

Both are about a single key, since the owner may change the values of others without telling.  They
come back with the next message that says something of the key, and with a snapshot for which no
message about it waits.
-/

namespace Replica

variable {K V : Type}

/-- What a message says of a key. -/
inductive Note (V : Type) where
  | nothing
  | set (v : V)
  | unknown
deriving DecidableEq

/-- What two messages say, the later one first. -/
def Note.orElse : Note V → Note V → Note V
  | .nothing, earlier => earlier
  | later, _ => later

/-- What a message says of every key. -/
abbrev Message (K V : Type) := K → Note V

/-- What a queue says of a key, the oldest message being the first one. -/
def lastNote : List (Message K V) → K → Note V
  | [], _ => .nothing
  | m :: q, k => (lastNote q k).orElse (m k)

/-- The message says how the value of the key has changed. -/
structure Reports (m : Message K V) (before after : K → Option V) (k : K) : Prop where
  nothing : m k = .nothing → after k = before k
  set : ∀ v, m k = .set v → after k = some v

/-- What the queue says of the key last is what the owner has. -/
def Sound (truth : K → Option V) (q : List (Message K V)) (k : K) : Prop :=
  ∀ v, lastNote q k = .set v → truth k = some v

/-- If the queue says nothing of the key, it has the owner's value in the copy, or no value if the
copy may be incomplete. -/
def Current (incomplete : Prop) (truth copy : K → Option V) (q : List (Message K V)) (k : K) :
    Prop :=
  lastNote q k = .nothing → copy k = truth k ∨ (incomplete ∧ copy k = none)

section Notes

variable {n n' : Note V} {v : V}

theorem Note.orElse_eq_nothing : n.orElse n' = .nothing ↔ n = .nothing ∧ n' = .nothing := by
  cases n <;> simp [Note.orElse]

theorem Note.orElse_eq_set :
    n.orElse n' = .set v ↔ n = .set v ∨ (n = .nothing ∧ n' = .set v) := by
  cases n <;> simp [Note.orElse]

theorem Note.orElse_assoc (n n' n'' : Note V) :
    (n.orElse n').orElse n'' = n.orElse (n'.orElse n'') := by
  cases n <;> rfl

theorem lastNote_append (q : List (Message K V)) (m : Message K V) (k : K) :
    lastNote (q ++ [m]) k = (m k).orElse (lastNote q k) := by
  induction q with
  | nil => cases hm : m k <;> simp [lastNote, Note.orElse, hm]
  | cons m' q ih => rw [List.cons_append, lastNote, ih, lastNote, Note.orElse_assoc]

theorem lastNote_eq_nothing {q : List (Message K V)} {k : K} :
    lastNote q k = .nothing ↔ ∀ m ∈ q, m k = .nothing := by
  induction q with
  | nil => simp [lastNote]
  | cons m q ih => rw [lastNote, Note.orElse_eq_nothing, ih, List.forall_mem_cons, and_comm]

end Notes

section Changes

variable {truth truth' copy copy' : K → Option V} {m : Message K V} {q : List (Message K V)}
  {k : K} {incomplete : Prop}

theorem sound_of_nothing (h : lastNote q k = .nothing) : Sound truth q k := by
  intro v hv
  cases h.symm.trans hv

/-- The owner changes the map and tells about it. -/
theorem Sound.change (hs : Sound truth q k) (hr : Reports m truth truth' k) :
    Sound truth' (q ++ [m]) k := by
  intro v h
  rw [lastNote_append, Note.orElse_eq_set] at h
  cases h with
  | inl h => exact hr.set v h
  | inr h =>
      rw [hr.nothing h.1]
      exact hs v h.2

/-- The message says something of the key, whatever was said of it before. -/
theorem sound_change (hr : Reports m truth truth' k) (hm : m k ≠ .nothing) :
    Sound truth' (q ++ [m]) k := by
  intro v h
  rw [lastNote_append, Note.orElse_eq_set] at h
  exact hr.set v (h.resolve_right fun h => hm h.1)

/-- A message is taken out of the queue. -/
theorem Sound.tail (hs : Sound truth (m :: q) k) : Sound truth q k := by
  intro v h
  exact hs v (by rw [lastNote, h]; rfl)

theorem Sound.congr (hs : Sound truth q k) (h : truth' k = truth k) : Sound truth' q k := by
  intro v hv
  rw [h]
  exact hs v hv

theorem Current.change (hc : Current incomplete truth copy q k) (hr : Reports m truth truth' k) :
    Current incomplete truth' copy (q ++ [m]) k := by
  intro h
  rw [lastNote_append, Note.orElse_eq_nothing] at h
  rw [hr.nothing h.1]
  exact hc h.2

theorem current_change (hm : m k ≠ .nothing) : Current incomplete truth copy (q ++ [m]) k := by
  intro h
  rw [lastNote_append, Note.orElse_eq_nothing] at h
  exact absurd h.1 hm

/-- A message is applied to the copy. -/
theorem Current.apply (hs : Sound truth (m :: q) k) (hc : Current incomplete truth copy (m :: q) k)
    (hr : Reports m copy copy' k) (hknown : m k ≠ .unknown) :
    Current incomplete truth copy' q k := by
  intro h
  cases hm : m k with
  | nothing =>
      rw [hr.nothing hm]
      exact hc (by rw [lastNote, h, hm]; rfl)
  | set v =>
      rw [hr.set v hm]
      exact .inl (hs v (by rw [lastNote, h, hm]; rfl)).symm
  | unknown => exact absurd hm hknown

theorem Current.congr (hc : Current incomplete truth copy q k) (h : truth' k = truth k) :
    Current incomplete truth' copy q k := by
  intro hq
  rw [h]
  exact hc hq

/-- The copy is a snapshot. -/
theorem current_snapshot : Current incomplete truth truth q k := fun _ => .inl rfl

/-- The copy has been thrown away. -/
theorem current_empty (h : incomplete) : Current incomplete truth (fun _ => none) q k :=
  fun _ => .inr ⟨h, rfl⟩

theorem Current.imp {incomplete' : Prop} (hc : Current incomplete truth copy q k)
    (h : incomplete → incomplete') : Current incomplete' truth copy q k :=
  fun hq => (hc hq).imp_right fun hmissing => ⟨h hmissing.1, hmissing.2⟩

end Changes

end Replica

import Luastatus.Lib.Bytes
import Luastatus.Lib.Transition
import Mathlib.Logic.Function.Basic

/-!
# The queue of the multiplex plugin

A `Conq` holds one string and one state for each nested widget.  The nested widgets' threads
update their slots with `conq_update_slot`, and the widget's own thread collects the updates with
`conq_fetch_updates`, which copies the updated slots into the caller's buffers and waits if there
are none.  Both work under one mutex, so each is one step, except that a fetch that has to wait
gives the mutex up until it is woken.

The specification reads the history of the run.  `latest h i` is the content and state of the
latest update of slot `i`, and `changed h i` says that an update of slot `i` since the last fetch
was not equal to what the slot had.  `Inv` links both to the slots, the mask and the consumer's
buffers: a slot whose bit is clear has the content that the consumer already holds.

`conq_correct` is the statement for every history: what a fetch returns and leaves in the buffers,
and that a consumer is not left waiting.
-/

namespace Luastatus.Multiplex

open Text (Bytes)
open Transition

/-! ## The queue -/

/-- `ConqSlotState`. -/
inductive SlotState where
  | empty
  | nil
  | hasValue
  | errorPluginDone
  | errorLuaErr
  | errorBadType
deriving DecidableEq, Repr

/-- `CONQ_MAX_SLOTS`. -/
def conqMaxSlots : Nat := 64

/-- `CONQ_MASK`. -/
abbrev ConqMask := BitVec 64

/-- `Conq`, with `n` slots. -/
structure Conq (n : Nat) where
  slots : Fin n → Bytes
  slotStates : Fin n → SlotState
  newDataMask : ConqMask

/-- The buffers of the consumer. -/
structure Out (n : Nat) where
  bufs : Fin n → Bytes
  states : Fin n → SlotState

variable {n : Nat}

/-- The content and state of a slot. -/
def Conq.slot (q : Conq n) (i : Fin n) : Bytes × SlotState := (q.slots i, q.slotStates i)

/-- What the consumer holds of a slot. -/
def Out.slot (out : Out n) (i : Fin n) : Bytes × SlotState := (out.bufs i, out.states i)

/-- `conq_create`. -/
def conqCreate (n : Nat) : Conq n where
  slots _ := []
  slotStates _ := .empty
  newDataMask := 0

/-- `conq_update_slot`: the queue after it, and whether the condition variable is signalled. -/
def conqUpdateSlot (q : Conq n) (slotIdx : Fin n) (buf : Bytes) (state : SlotState) :
    Conq n × Bool :=
  if q.slots slotIdx = buf ∧ q.slotStates slotIdx = state then (q, false)
  else
    ({ slots := Function.update q.slots slotIdx buf
       slotStates := Function.update q.slotStates slotIdx state
       newDataMask := q.newDataMask ||| ((1 : ConqMask) <<< slotIdx.val) }, true)

/-- One round of the copying loop of `conq_fetch_updates`. -/
def copySlot (q : Conq n) (mask : ConqMask) (out : Out n) (i : Fin n) : Out n :=
  if (mask >>> i.val) &&& 1 = 0 then out
  else
    { bufs := Function.update out.bufs i (q.slots i)
      states := Function.update out.states i (q.slotStates i) }

/-- `conq_fetch_updates` with the mutex held: `none` if it has to wait. -/
def conqFetchUpdates (q : Conq n) (out : Out n) : Option (ConqMask × Conq n × Out n) :=
  let mask := q.newDataMask
  if mask = 0 then none
  else
    some (mask, { q with newDataMask := 0 }, (List.finRange n).foldl (copySlot q mask) out)

/-! ## Producers and the consumer -/

/-- Where the consumer is. -/
inductive Consumer where
  /-- It can take the mutex: outside of `conq_fetch_updates`, or at its beginning. -/
  | ready
  /-- In `pthread_cond_wait`. -/
  | waiting
  /-- A wake-up is on its way. -/
  | woken
deriving DecidableEq, Repr

/-- A state of the queue and its consumer. -/
structure State (n : Nat) where
  q : Conq n
  out : Out n
  consumer : Consumer

/-- What happens in a step. -/
inductive Event (n : Nat) where
  | update (slotIdx : Fin n) (buf : Bytes) (state : SlotState)
  /-- `conq_fetch_updates` returns the mask. -/
  | fetch (mask : ConqMask)
  /-- `conq_fetch_updates` finds no new data and waits. -/
  | wait
  /-- A wake-up without a signal. -/
  | spuriousWakeup

/-- `pthread_cond_signal`. -/
def signal (signalled : Bool) : Consumer → Consumer
  | .waiting => if signalled then .woken else .waiting
  | c => c

/-- The steps of the producers and of the consumer. -/
inductive Step : State n → Event n → State n → Prop where
  | update : Step s (.update i buf st)
      { s with q := (conqUpdateSlot s.q i buf st).1
               consumer := signal (conqUpdateSlot s.q i buf st).2 s.consumer }
  | fetch : s.consumer ≠ .waiting → conqFetchUpdates s.q s.out = some (mask, q', out') →
      Step s (.fetch mask) { q := q', out := out', consumer := .ready }
  | wait : s.consumer ≠ .waiting → conqFetchUpdates s.q s.out = none →
      Step s .wait { s with consumer := .waiting }
  | spuriousWakeup : s.consumer = .waiting → Step s .spuriousWakeup { s with consumer := .woken }

/-- The state that `runtime_data_init` prepares. -/
def initState (n : Nat) : State n where
  q := conqCreate n
  out := { bufs := fun _ => [], states := fun _ => .empty }
  consumer := .ready

/-- The queue of `n` nested widgets, as a system. -/
def system (n : Nat) : System (State n) (Event n) where
  init s := s = initState n
  step := Step

/-! ## What the history says -/

/-- The content and state of the latest update of a slot. -/
def latest : List (Event n) → Fin n → Bytes × SlotState
  | [], _ => ([], .empty)
  | .update j buf st :: h, i => if j = i then (buf, st) else latest h i
  | .fetch _ :: h, i | .wait :: h, i | .spuriousWakeup :: h, i => latest h i

/-- Since the last fetch an update of the slot differed from what the slot had. -/
def changed : List (Event n) → Fin n → Prop
  | [], _ => False
  | .update j buf st :: h, i => (j = i ∧ (buf, st) ≠ latest h i) ∨ changed h i
  | .fetch _ :: _, _ => False
  | .wait :: h, i | .spuriousWakeup :: h, i => changed h i

/-- The queue and the consumer's buffers are what the history says. -/
structure Inv (h : List (Event n)) (s : State n) : Prop where
  slots : ∀ i, s.q.slot i = latest h i
  mask : ∀ b, s.q.newDataMask.getLsbD b = true ↔ ∃ hb : b < n, changed h ⟨b, hb⟩
  out : ∀ i, ¬ changed h i → s.out.slot i = latest h i
  waiting : s.consumer = .waiting → s.q.newDataMask = 0

/-! ## The operations -/

theorem shiftRight_and_one_eq_zero_iff (mask : ConqMask) (i : Nat) :
    (mask >>> i) &&& 1 = 0 ↔ mask.getLsbD i = false := by
  have hbit : (mask >>> i) &&& 1#64 =
      (BitVec.ofBool (mask.getLsbD i)).setWidth 64 := by
    rw [BitVec.and_one_eq_setWidth_ofBool_getLsbD, BitVec.getLsbD_ushiftRight, Nat.add_zero]
  rw [show (1 : ConqMask) = 1#64 from rfl, hbit]
  cases mask.getLsbD i <;> decide

theorem getLsbD_or_shiftLeft (mask : ConqMask) {i b : Nat} (hi : i < 64) :
    (mask ||| ((1 : ConqMask) <<< i)).getLsbD b = true ↔ i = b ∨ mask.getLsbD b = true := by
  rw [show (1 : ConqMask) = 1#64 from rfl, ← BitVec.twoPow_eq, BitVec.getLsbD_or,
    BitVec.getLsbD_twoPow]
  simp [hi, or_comm]

theorem conqUpdateSlot_of_eq {q : Conq n} {i : Fin n} {buf : Bytes} {st : SlotState}
    (h : q.slot i = (buf, st)) : conqUpdateSlot q i buf st = (q, false) := by
  rw [conqUpdateSlot, if_pos]
  exact ⟨congrArg Prod.fst h, congrArg Prod.snd h⟩

theorem conqUpdateSlot_of_ne {q : Conq n} {i : Fin n} {buf : Bytes} {st : SlotState}
    (h : q.slot i ≠ (buf, st)) :
    conqUpdateSlot q i buf st =
      ({ slots := Function.update q.slots i buf
         slotStates := Function.update q.slotStates i st
         newDataMask := q.newDataMask ||| ((1 : ConqMask) <<< i.val) }, true) := by
  rw [conqUpdateSlot, if_neg]
  rintro ⟨hbuf, hst⟩
  exact h (Prod.ext hbuf hst)

theorem slot_update (q : Conq n) (i j : Fin n) (buf : Bytes) (st : SlotState) (m : ConqMask) :
    Conq.slot ⟨Function.update q.slots i buf, Function.update q.slotStates i st, m⟩ j =
      if i = j then (buf, st) else q.slot j := by
  by_cases hij : i = j
  · subst hij
    simp [Conq.slot]
  · simp [Conq.slot, hij, Function.update_of_ne (Ne.symm hij)]

theorem copySlot_slot (q : Conq n) (mask : ConqMask) (out : Out n) (i j : Fin n) :
    (copySlot q mask out i).slot j =
      if mask.getLsbD i = true ∧ i = j then q.slot j else out.slot j := by
  rw [copySlot]
  by_cases hbit : mask.getLsbD i = true
  · rw [if_neg (by rw [shiftRight_and_one_eq_zero_iff]; simp [hbit])]
    by_cases hij : i = j
    · subst hij
      simp [hbit, Out.slot, Conq.slot]
    · simp [hij, Out.slot, Function.update_of_ne (Ne.symm hij)]
  · rw [if_pos ((shiftRight_and_one_eq_zero_iff mask i).mpr (by simpa using hbit)),
      if_neg fun h => hbit h.1]

/-- The copying loop takes the masked slots and leaves the others alone. -/
theorem foldl_copySlot_slot (q : Conq n) (mask : ConqMask) (out : Out n) (is : List (Fin n))
    (j : Fin n) :
    (is.foldl (copySlot q mask) out).slot j =
      if mask.getLsbD j = true ∧ j ∈ is then q.slot j else out.slot j := by
  induction is generalizing out with
  | nil => simp
  | cons i is ih =>
      rw [List.foldl_cons, ih, copySlot_slot]
      by_cases hmem : mask.getLsbD j = true ∧ j ∈ is
      · rw [if_pos hmem, if_pos ⟨hmem.1, List.mem_cons_of_mem i hmem.2⟩]
      · rw [if_neg hmem]
        by_cases hij : i = j
        · subst hij
          simp
        · have hmem' : ¬ (mask.getLsbD j = true ∧ j ∈ i :: is) := by
            rintro ⟨hbit, hj⟩
            exact hmem ⟨hbit, (List.mem_cons.mp hj).resolve_left (Ne.symm hij)⟩
          rw [if_neg fun h => hij h.2, if_neg hmem']

/-- What a fetch that does not wait does. -/
theorem conqFetchUpdates_eq_some {q q' : Conq n} {out out' : Out n} {mask : ConqMask}
    (h : conqFetchUpdates q out = some (mask, q', out')) :
    mask = q.newDataMask ∧ mask ≠ 0 ∧ q' = { q with newDataMask := 0 } ∧
      ∀ i : Fin n, out'.slot i = if mask.getLsbD i = true then q.slot i else out.slot i := by
  rw [conqFetchUpdates] at h
  by_cases hz : q.newDataMask = 0
  · rw [if_pos hz] at h
    cases h
  · rw [if_neg hz] at h
    cases h
    refine ⟨rfl, hz, rfl, fun i => ?_⟩
    rw [foldl_copySlot_slot]
    simp

theorem conqFetchUpdates_eq_none {q : Conq n} {out : Out n}
    (h : conqFetchUpdates q out = none) : q.newDataMask = 0 := by
  by_contra hz
  rw [conqFetchUpdates, if_neg hz] at h
  cases h

/-! ## The invariant -/

theorem Inv.init (n : Nat) : Inv [] (initState n) where
  slots _ := rfl
  mask b := by simp [initState, conqCreate, changed]
  out _ _ := rfl
  waiting h := by cases h

/-- An update that equals the slot changes nothing, in the queue and in the specification. -/
theorem Inv.update_of_eq {h : List (Event n)} {s : State n} (hs : Inv h s) {i : Fin n}
    {buf : Bytes} {st : SlotState} (heq : s.q.slot i = (buf, st)) (c : Consumer)
    (hc : c = .waiting → s.consumer = .waiting) :
    Inv (.update i buf st :: h) { s with consumer := c } := by
  have hlatest (j : Fin n) : latest (.update i buf st :: h) j = latest h j := by
    rw [latest]
    split
    · rename_i hij
      rw [← hs.slots, ← hij, heq]
    · rfl
  have hchanged (j : Fin n) : changed (.update i buf st :: h) j ↔ changed h j := by
    rw [changed, ← hs.slots]
    constructor
    · rintro (⟨rfl, hne⟩ | hj)
      · exact absurd heq.symm hne
      · exact hj
    · exact .inr
  exact {
    slots := fun j => (hs.slots j).trans (hlatest j).symm
    mask := fun b => by simp only [hchanged]; exact hs.mask b
    out := fun j hj => (hs.out j ((hchanged j).not.mp hj)).trans (hlatest j).symm
    waiting := fun hw => hs.waiting (hc hw) }

/-- An update that differs from the slot is recorded, and a waiting consumer is woken. -/
theorem Inv.update_of_ne {h : List (Event n)} {s : State n} (hs : Inv h s) (hn : n ≤ 64)
    {i : Fin n} {buf : Bytes} {st : SlotState} (hne : s.q.slot i ≠ (buf, st)) :
    Inv (.update i buf st :: h)
      { s with q := { slots := Function.update s.q.slots i buf
                      slotStates := Function.update s.q.slotStates i st
                      newDataMask := s.q.newDataMask ||| ((1 : ConqMask) <<< i.val) }
               consumer := signal true s.consumer } where
  slots j := by
    rw [slot_update, latest]
    split
    · rfl
    · exact hs.slots j
  mask b := by
    rw [getLsbD_or_shiftLeft _ (Nat.lt_of_lt_of_le i.isLt hn), hs.mask]
    constructor
    · rintro (rfl | ⟨hb, hch⟩)
      · exact ⟨i.isLt, .inl ⟨rfl, fun he => hne ((hs.slots i).trans he.symm)⟩⟩
      · exact ⟨hb, .inr hch⟩
    · rintro ⟨hb, ⟨hij, _⟩ | hch⟩
      · exact .inl (congrArg Fin.val hij)
      · exact .inr ⟨hb, hch⟩
  out j hj := by
    rw [changed, not_or] at hj
    have hij : i ≠ j := by
      rintro rfl
      exact hj.1 ⟨rfl, fun he => hne ((hs.slots i).trans he.symm)⟩
    rw [latest, if_neg hij]
    exact hs.out j hj.2
  waiting hw := by
    cases hc : s.consumer <;> simp [hc, signal] at hw

/-- After a fetch the consumer holds the latest update of every slot. -/
theorem Inv.fetch_out {h : List (Event n)} {s : State n} (hs : Inv h s) {mask : ConqMask}
    {q' : Conq n} {out' : Out n} (hf : conqFetchUpdates s.q s.out = some (mask, q', out'))
    (i : Fin n) : out'.slot i = latest h i := by
  obtain ⟨rfl, _, _, hout⟩ := conqFetchUpdates_eq_some hf
  rw [hout]
  by_cases hbit : s.q.newDataMask.getLsbD i = true
  · rw [if_pos hbit]
    exact hs.slots i
  · rw [if_neg hbit]
    exact hs.out i fun hch => hbit ((hs.mask i).mpr ⟨i.isLt, hch⟩)

theorem Inv.step {h : List (Event n)} {s t : State n} {e : Event n} (hn : n ≤ 64) (hs : Inv h s)
    (hst : Step s e t) : Inv (e :: h) t := by
  cases hst with
  | @update _ i buf st =>
      by_cases heq : s.q.slot i = (buf, st)
      · rw [conqUpdateSlot_of_eq heq]
        refine hs.update_of_eq heq _ fun hw => ?_
        cases hc : s.consumer <;> simp [hc, signal] at hw ⊢
      · rw [conqUpdateSlot_of_ne heq]
        exact hs.update_of_ne hn heq
  | @fetch _ mask q' out' _ hf =>
      have hout := hs.fetch_out hf
      obtain ⟨_, _, rfl, _⟩ := conqFetchUpdates_eq_some hf
      exact {
        slots := hs.slots
        mask := fun b => by simp [changed]
        out := fun i _ => hout i
        waiting := fun hw => by cases hw }
  | wait _ hf => exact ⟨hs.slots, hs.mask, hs.out, fun _ => conqFetchUpdates_eq_none hf⟩
  | spuriousWakeup _ => exact ⟨hs.slots, hs.mask, hs.out, fun hw => by cases hw⟩

theorem inv_of_hist (hn : n ≤ conqMaxSlots) {h : List (Event n)} {s : State n}
    (hs : (system n).Hist h s) : Inv h s := by
  refine hs.invariant (fun s hi => ?_) fun h s e t _ ih hst => ih.step hn hst
  cases hi
  exact .init n

/-! ## No lost and no invented update -/

/-- What a fetch returns after the history `h`, and what it leaves in the buffers. -/
structure FetchCorrect (h : List (Event n)) (mask : ConqMask) (t : State n) : Prop where
  mask_ne_zero : mask ≠ 0
  mask_lt : ∀ b, mask.getLsbD b = true → b < n
  mask_iff : ∀ i : Fin n, mask.getLsbD i = true ↔ changed h i
  out_eq : ∀ i, t.out.slot i = latest h i

/-- After every history: a fetch reports exactly the slots that changed and leaves the latest
update of every slot in the buffers, and a consumer that waits has nothing to fetch. -/
theorem conq_correct (hn : n ≤ conqMaxSlots) {h : List (Event n)} {s : State n}
    (hs : (system n).Hist h s) :
    (s.consumer = .waiting → s.q.newDataMask = 0) ∧
      ∀ mask t, Step s (.fetch mask) t → FetchCorrect h mask t := by
  have hinv : Inv h s := inv_of_hist hn hs
  refine ⟨hinv.waiting, fun mask t hst => ?_⟩
  cases hst with
  | @fetch _ _ q' out' _ hf =>
      obtain ⟨rfl, hz, _, _⟩ := conqFetchUpdates_eq_some hf
      exact {
        mask_ne_zero := hz
        mask_lt := fun b hb => ((hinv.mask b).mp hb).choose
        mask_iff := fun i => (hinv.mask i).trans ⟨fun ⟨_, hch⟩ => hch, fun hch => ⟨i.isLt, hch⟩⟩
        out_eq := hinv.fetch_out hf }

/-- A consumer that waits is woken by an update and fetches it. -/
theorem conq_correct_woken : ∃ s t : State 1,
    (system 1).Hist [.update 0 [120] .hasValue, .wait] s ∧ s.consumer = .woken ∧
      Step s (.fetch 1) t ∧ FetchCorrect [.update 0 [120] .hasValue, .wait] 1 t := by
  have hwait : (system 1).Hist [.wait] { initState 1 with consumer := .waiting } :=
    .step (.init rfl) (.wait (by simp [initState]) rfl)
  let s : State 1 := {
    q := (conqUpdateSlot (conqCreate 1) 0 [120] .hasValue).1
    out := (initState 1).out
    consumer := .woken }
  have hupdate : (system 1).Hist [.update 0 [120] .hasValue, .wait] s := .step hwait .update
  have hfetch : Step s (.fetch 1) _ := .fetch (by decide) rfl
  exact ⟨s, _, hupdate, rfl, hfetch, (conq_correct (by decide) hupdate).2 1 _ hfetch⟩

end Luastatus.Multiplex

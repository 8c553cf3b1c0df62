import Luastatus.Multiplex.NestedProtocol

/-!
# The outer widget sees what the nested widgets produce

A table of updates has the nested widgets that changed, and no others, so the outer `cb` has to
merge the tables it gets (`merged`).  What it has then is compared with what the nested widgets
have reported, both read off the history: `latestOutcome` is the latest report of a nested widget,
and `shown` is what the outer widget is to see of it.

The link is the queue.  The reports and the steps of `conq_fetch_updates` are a history of the
queue alone (`conq_hist`), so `Multiplex.Inv` says what the buffers hold after a fetch.
-/

namespace Luastatus.Multiplex.Nested

open Text (Bytes)
open Lua
open Transition

variable {src : Sources} {W : Runners src} {F : Type} {C : Coercions F} {greet : Bool}
  {s s' : State src} {l : Label src.count} {h : List (Label src.count)} {n : Nat}

/-! ## What the history says -/

/-- What a step is to the queue. -/
def Label.toConq : Label n → Option (Event n)
  | .outcome i o => some (.update i (recvCallback o).1 (recvCallback o).2)
  | .fetch mask => some (.fetch mask)
  | .wait => some .wait
  | .spuriousWakeup => some .spuriousWakeup
  | .internal | .call _ | .answer _ => none

/-- The latest report of a nested widget. -/
def latestOutcome : List (Label n) → Fin n → Option Outcome
  | [], _ => none
  | .outcome j o :: h, i => if j = i then some o else latestOutcome h i
  | .internal :: h, i | .fetch _ :: h, i | .wait :: h, i | .spuriousWakeup :: h, i
  | .call _ :: h, i | .answer _ :: h, i => latestOutcome h i

/-- The history before the last fetch. -/
def atFetch : List (Label n) → List (Label n)
  | [] => []
  | .fetch _ :: h => h
  | _ :: h => atFetch h

/-- What the outer widget is to see of a report. -/
def shown : Option Outcome → Val Int
  | none => .nil
  | some (.newData .nil) => .boolean false
  | some (.newData (.string s)) => .string s
  | some (.newData .other) => .number 66
  | some .luaError => .number 65
  | some .pluginExited => .number 64

/-- The field `updates` of an argument of the outer `cb`. -/
def updatesOf : Val Int → Option (Table Int)
  | .table _ arg =>
      match arg (.str (Text.lit "updates")) with
      | .table _ u => some u
      | _ => none
  | _ => none

/-- A table with the entries of another one written over it. -/
def merge (acc u : Table Int) : Table Int := fun k =>
  match u k with
  | .nil => acc k
  | v => v

/-- The tables of updates that the outer `cb` got, merged. -/
def merged : List (Label n) → Table Int
  | [] => Table.empty
  | .call arg :: h =>
      match updatesOf arg with
      | some u => merge (merged h) u
      | none => merged h
  | .internal :: h | .outcome _ _ :: h | .fetch _ :: h | .wait :: h | .spuriousWakeup :: h
  | .answer _ :: h => merged h

/-! ## Tables of updates -/

section Tables

variable {mask : ConqMask} {out : Out src.count} {acc u : Table Int} {k : Key}

theorem key_injective {i j : Fin src.count}
    (he : Key.str (src.name i).bytes = .str (src.name j).bytes) : i = j :=
  src.name_injective (Text.CString.ext (Key.str.inj he))

theorem addUpdate_apply (t : Table Int) (i j : Fin src.count) :
    addUpdate src mask out t i (.str (src.name j).bytes) =
      if mask.getLsbD i = true ∧ i = j then pushUpdate (out.bufs j) (out.states j)
      else t (.str (src.name j).bytes) := by
  rw [addUpdate]
  by_cases hbit : mask.getLsbD i = true
  · rw [if_neg (by rw [shiftRight_and_one_eq_zero_iff]; simp [hbit])]
    by_cases hij : i = j
    · subst hij
      simp [hbit, Table.rawset]
    · rw [if_neg fun h => hij h.2, Table.rawset,
        Function.update_of_ne fun he => hij (key_injective he).symm]
  · rw [if_pos ((shiftRight_and_one_eq_zero_iff mask i).mpr (by simpa using hbit)),
      if_neg fun h => hbit h.1]

theorem addUpdate_other (t : Table Int) (i : Fin src.count)
    (hk : ∀ i : Fin src.count, k ≠ .str (src.name i).bytes) :
    addUpdate src mask out t i k = t k := by
  rw [addUpdate]
  split
  · rfl
  · rw [Table.rawset, Function.update_of_ne (hk i)]

theorem foldl_addUpdate_apply (t : Table Int) (is : List (Fin src.count)) (j : Fin src.count) :
    is.foldl (addUpdate src mask out) t (.str (src.name j).bytes) =
      if mask.getLsbD j = true ∧ j ∈ is then pushUpdate (out.bufs j) (out.states j)
      else t (.str (src.name j).bytes) := by
  induction is generalizing t with
  | nil => simp
  | cons i is ih =>
      rw [List.foldl_cons, ih, addUpdate_apply]
      by_cases hij : i = j
      · subst hij
        by_cases hbit : mask.getLsbD i = true <;> simp [hbit]
      · have hji : j ≠ i := Ne.symm hij
        simp [hij, hji]

theorem foldl_addUpdate_other (t : Table Int) (is : List (Fin src.count))
    (hk : ∀ i : Fin src.count, k ≠ .str (src.name i).bytes) :
    is.foldl (addUpdate src mask out) t k = t k := by
  induction is generalizing t with
  | nil => rfl
  | cons i is ih => rw [List.foldl_cons, ih, addUpdate_other t i hk]

/-- The table has the nested widgets of the mask. -/
theorem updatesTable_name (mask : ConqMask) (out : Out src.count) (j : Fin src.count) :
    updatesTable src mask out (.str (src.name j).bytes) =
      if mask.getLsbD j = true then pushUpdate (out.bufs j) (out.states j) else .nil := by
  rw [updatesTable, foldl_addUpdate_apply]
  simp [Table.empty]

/-- It has no other keys. -/
theorem updatesTable_other (mask : ConqMask) (out : Out src.count)
    (hk : ∀ i : Fin src.count, k ≠ .str (src.name i).bytes) :
    updatesTable src mask out k = .nil := by
  rw [updatesTable, foldl_addUpdate_other _ _ hk]
  rfl

theorem updatesOf_updateArg (mask : ConqMask) (out : Out src.count) :
    updatesOf (updateArg src mask out) = some (updatesTable src mask out) := by
  simp [updatesOf, updateArg, Table.rawset]

theorem updatesOf_simpleArg : updatesOf (simpleArg "hello") = none := by
  have hne : Key.str (Text.lit "updates") ≠ .str (Text.lit "what") := by decide
  simp only [updatesOf, simpleArg, Table.rawset, Function.update_of_ne hne, Table.empty]

theorem merge_of_nil (hu : u k = .nil) : merge acc u k = acc k := by
  rw [merge, hu]

theorem merge_of_ne_nil (hu : u k ≠ .nil) : merge acc u k = u k := by
  rw [merge]
  cases hv : u k <;> first | rfl | exact absurd hv hu

end Tables

/-! ## The queue -/

/-- The reports and the fetches are a history of the queue. -/
theorem conq_hist (hs : (system W C greet).Hist h s) :
    (Multiplex.system src.count).Hist (h.filterMap Label.toConq) s.conq := by
  obtain ⟨q, hq, he⟩ := hs.simulate (N := Multiplex.system src.count) (g := Label.toConq)
    (R := fun _ s q => s.conq = q) (fun s hs => ⟨_, rfl, by rw [show s = _ from hs]; rfl⟩)
    fun _ s l t q he hst => by
      subst he
      refine ⟨t.conq, ?_, rfl⟩
      cases hst with
      | outcome i o _ => exact .update
      | wait _ hc => exact hc
      | spuriousWakeup _ hc => exact hc
      | fetch mask _ hc => exact hc
      | start k created _ => cases (W k).isSome && created <;> exact rfl
      | _ => exact rfl
  exact he ▸ hq

/-- What a report is in a slot. -/
def slotOf : Option Outcome → Bytes × SlotState
  | none => ([], .empty)
  | some o => recvCallback o

theorem latest_eq (h : List (Label n)) (i : Fin n) :
    latest (h.filterMap Label.toConq) i = slotOf (latestOutcome h i) := by
  induction h with
  | nil => rfl
  | cons l h ih =>
      cases l with
      | outcome j o =>
          show (if j = i then _ else _) = slotOf (if j = i then _ else _)
          rw [ih]
          split <;> rfl
      | _ => exact ih

/-- What `push_update` makes of a report. -/
theorem pushUpdate_slotOf (o : Option Outcome) :
    pushUpdate (slotOf o).1 (slotOf o).2 = shown o := by
  match o with
  | none | some (.newData .nil) | some (.newData (.string s)) | some (.newData .other)
  | some .luaError | some .pluginExited => rfl

/-- What the outer widget is to see depends on the slot only. -/
theorem shown_congr {o o' : Option Outcome} (h : slotOf o = slotOf o') : shown o = shown o' := by
  rw [← pushUpdate_slotOf, ← pushUpdate_slotOf, h]

theorem shown_some_ne_nil (o : Outcome) : shown (some o) ≠ .nil := by
  match o with
  | .newData .nil | .newData (.string s) | .newData .other | .luaError | .pluginExited =>
      intro h
      cases h

/-- A slot changes by reports only. -/
theorem latestOutcome_of_changed {h : List (Label n)} {i : Fin n}
    (hch : changed (h.filterMap Label.toConq) i) :
    ∃ o, latestOutcome h i = some o := by
  induction h with
  | nil => exact absurd hch id
  | cons l h ih =>
      cases l with
      | outcome j o =>
          rw [latestOutcome]
          split
          · exact ⟨o, rfl⟩
          · rename_i hne
            exact ih (hch.resolve_left fun hc => hne hc.1)
      | fetch mask => exact absurd hch id
      | _ => exact ih hch

/-! ## The invariant -/

/-- The buffers hold what was reported before the last fetch, and so does what the outer widget got
to see, except for what it is about to see. -/
structure Seen (h : List (Label src.count)) (s : State src) : Prop where
  out : ∀ i, s.conq.out.slot i = slotOf (latestOutcome (atFetch h) i)
  mask : ∀ m, s.consumer = .fetched m → ∀ i : Fin src.count,
    m.getLsbD i = true ↔ changed ((atFetch h).filterMap Label.toConq) i
  view : ∀ i : Fin src.count, (∀ m, s.consumer = .fetched m → m.getLsbD i = false) →
    merged h (.str (src.name i).bytes) = shown (latestOutcome (atFetch h) i)
  others : ∀ k, (∀ i : Fin src.count, k ≠ .str (src.name i).bytes) → merged h k = .nil
  waiting : s.conq.consumer = .waiting → s.consumer = .fetching

theorem Seen.init : Seen [] (initState src) where
  out _ := rfl
  mask m hm := by cases hm
  view _ _ := rfl
  others _ _ := rfl
  waiting hw := by cases hw

/-- A step that neither fetches nor shows anything. -/
theorem Seen.quiet (hseen : Seen h s) (hmerged : merged (l :: h) = merged h)
    (hat : atFetch (l :: h) = atFetch h) (hout : s'.conq.out = s.conq.out)
    (hconsumer : ∀ m, s'.consumer = .fetched m ↔ s.consumer = .fetched m)
    (hwaiting : s'.conq.consumer = .waiting → s'.consumer = .fetching) : Seen (l :: h) s' where
  out i := by
    rw [hout, hat]
    exact hseen.out i
  mask m hm := by
    rw [hat]
    exact hseen.mask m ((hconsumer m).mp hm)
  view i hi := by
    rw [hmerged, hat]
    exact hseen.view i fun m hm => hi m ((hconsumer m).mpr hm)
  others k hk := by
    rw [hmerged]
    exact hseen.others k hk
  waiting := hwaiting

/-- A fetch. -/
theorem Seen.fetch {mask : ConqMask} {q : Multiplex.State src.count} (hseen : Seen h s)
    (hinv : Multiplex.Inv (h.filterMap Label.toConq) s.conq) (hpc : s.consumer = .fetching)
    (hstep : Multiplex.Step s.conq (.fetch mask) q) :
    Seen (.fetch mask :: h) { s with conq := q, consumer := .fetched mask } := by
  cases hstep with
  | @fetch _ _ q' out' _ hf =>
      have hout := hinv.fetch_out hf
      obtain ⟨rfl, -, -, -⟩ := conqFetchUpdates_eq_some hf
      have hmask (i : Fin src.count) :
          s.conq.q.newDataMask.getLsbD i = true ↔ changed (h.filterMap Label.toConq) i :=
        (hinv.mask i).trans ⟨fun ⟨_, hch⟩ => hch, fun hch => ⟨i.isLt, hch⟩⟩
      exact {
        out := fun i => (hout i).trans (latest_eq h i)
        mask := fun m hm => by
          cases hm
          exact hmask
        view := fun i hi => by
          have hbit := hi _ rfl
          have hsame : slotOf (latestOutcome (atFetch h) i) = slotOf (latestOutcome h i) := by
            rw [← hseen.out, ← latest_eq]
            refine hinv.out i fun hch => ?_
            rw [(hmask i).mpr hch] at hbit
            cases hbit
          show merged h _ = shown (latestOutcome h i)
          rw [← shown_congr hsame]
          exact hseen.view i fun m hm => by cases hpc.symm.trans hm
        others := hseen.others
        waiting := fun hw => by cases hw }

/-- The outer `cb` gets a table of updates. -/
theorem Seen.update {mask : ConqMask} (hseen : Seen h s) (hpc : s.consumer = .fetched mask) :
    Seen (.call (updateArg src mask s.conq.out) :: h)
      ((s.consumerAt .inUpdate).outerAt (.code .cb)) where
  out := hseen.out
  mask m hm := by cases hm
  view i _ := by
    have hmerged : merged (.call (updateArg src mask s.conq.out) :: h) =
        merge (merged h) (updatesTable src mask s.conq.out) := by
      rw [merged, updatesOf_updateArg]
    show merged _ _ = shown (latestOutcome (atFetch h) i)
    rw [hmerged]
    have htable := updatesTable_name mask s.conq.out i
    cases hbit : mask.getLsbD i with
    | false =>
        rw [hbit, if_neg Bool.false_ne_true] at htable
        rw [merge_of_nil htable]
        refine hseen.view i fun m hm => ?_
        cases hpc.symm.trans hm
        exact hbit
    | true =>
        have hslot : pushUpdate (s.conq.out.bufs i) (s.conq.out.states i) =
            shown (latestOutcome (atFetch h) i) := by
          rw [← pushUpdate_slotOf, ← hseen.out]
          rfl
        obtain ⟨o, ho⟩ := latestOutcome_of_changed ((hseen.mask mask hpc i).mp hbit)
        rw [hbit, if_pos rfl, hslot] at htable
        rw [merge_of_ne_nil, htable]
        rw [htable, ho]
        exact shown_some_ne_nil o
  others k hk := by
    rw [merged, updatesOf_updateArg]
    show merge (merged h) _ k = _
    rw [merge_of_nil (updatesTable_other mask s.conq.out hk)]
    exact hseen.others k hk
  waiting hw := by cases hpc.symm.trans (hseen.waiting hw)

theorem signal_eq_waiting {b : Bool} {c : Consumer} (hs : signal b c = .waiting) :
    c = .waiting := by
  cases c <;> first | rfl | cases hs

theorem afterCb_eq_fetched {pc : ConsumerPc} {m : ConqMask} :
    pc.afterCb = .fetched m ↔ pc = .fetched m := by
  cases pc <;> simp [ConsumerPc.afterCb]

/-- A quiet step of the thread of the outer widget. -/
theorem Seen.quiet_consumer (hseen : Seen h s) (hmerged : merged (l :: h) = merged h)
    (hat : atFetch (l :: h) = atFetch h) (hconq : s'.conq = s.conq)
    (hpc : ∀ m, s.consumer ≠ .fetched m) (hpc' : ∀ m, s'.consumer ≠ .fetched m)
    (hwaiting : s.consumer = .fetching → s'.consumer = .fetching) : Seen (l :: h) s' := by
  refine hseen.quiet hmerged hat (by rw [hconq]) (fun m => iff_of_false (hpc' m) (hpc m))
    fun hw => ?_
  rw [hconq] at hw
  exact hwaiting (hseen.waiting hw)

theorem Seen.step (hseen : Seen h s) (hinv : Multiplex.Inv (h.filterMap Label.toConq) s.conq)
    (hst : Step W C greet s l s') : Seen (l :: h) s' := by
  cases hst with
  | runner i hmove => exact hseen.quiet rfl rfl rfl (fun _ => Iff.rfl) hseen.waiting
  | outcome i o hmove =>
      exact hseen.quiet rfl rfl rfl (fun _ => Iff.rfl) fun hw =>
        hseen.waiting (signal_eq_waiting hw)
  | spawn hpc =>
      refine hseen.quiet_consumer rfl rfl rfl (fun m hm => ?_) (fun m hm => ?_) fun hf => ?_
      · cases hpc.symm.trans hm
      · cases greet <;> cases hm
      · cases hpc.symm.trans hf
  | hello hpc _ =>
      refine hseen.quiet_consumer ?_ rfl rfl (fun m hm => ?_) (fun m hm => by cases hm) fun hf => ?_
      · rw [merged, updatesOf_simpleArg]
      · cases hpc.symm.trans hm
      · cases hpc.symm.trans hf
  | start k created hpc =>
      refine hseen.quiet_consumer rfl rfl ?_ (fun m hm => ?_) (fun m hm => by cases hm) fun hf => ?_
      · cases (W k).isSome && created <;> rfl
      · cases hpc.symm.trans hm
      · cases hpc.symm.trans hf
  | started hpc =>
      refine hseen.quiet_consumer rfl rfl rfl (fun m hm => ?_) (fun m hm => by cases hm)
        fun _ => rfl
      cases hpc.symm.trans hm
  | wait hpc hstep =>
      cases hstep with
      | wait _ _ => exact hseen.quiet rfl rfl rfl (fun _ => Iff.rfl) fun _ => hpc
  | spuriousWakeup hpc hstep =>
      cases hstep with
      | spuriousWakeup _ => exact hseen.quiet rfl rfl rfl (fun _ => Iff.rfl) fun hw => by cases hw
  | fetch mask hpc hstep => exact hseen.fetch hinv hpc hstep
  | update hpc _ => exact hseen.update hpc
  | cbReturns _ =>
      refine hseen.quiet rfl rfl rfl (fun _ => afterCb_eq_fetched) fun hw => ?_
      show s.consumer.afterCb = .fetching
      rw [hseen.waiting hw]
      rfl
  | eventBegins _ => exact hseen.quiet rfl rfl rfl (fun _ => Iff.rfl) hseen.waiting
  | eventReturns _ => exact hseen.quiet rfl rfl rfl (fun _ => Iff.rfl) hseen.waiting
  | callFails _ _ => exact hseen.quiet rfl rfl rfl (fun _ => Iff.rfl) hseen.waiting
  | callAnswers _ _ => exact hseen.quiet rfl rfl rfl (fun _ => Iff.rfl) hseen.waiting
  | callEvent _ _ => exact hseen.quiet rfl rfl rfl (fun _ => Iff.rfl) hseen.waiting
  | event r _ _ _ => exact hseen.quiet rfl rfl rfl (fun _ => Iff.rfl) hseen.waiting
  | eventUnlock _ => exact hseen.quiet rfl rfl rfl (fun _ => Iff.rfl) hseen.waiting

/-! ## No update is lost, and none is invented -/

theorem seen_of_hist (hs : (system W C greet).Hist h s) :
    Multiplex.Inv (h.filterMap Label.toConq) s.conq ∧ Seen h s := by
  refine ⟨inv_of_hist src.count_le (conq_hist hs), ?_⟩
  induction hs with
  | init hi =>
      rw [show _ = _ from hi]
      exact .init
  | step hs hst ih => exact ih.step (inv_of_hist src.count_le (conq_hist hs)) hst

/-- After every history, however the threads interleave.  Unless a table is about to be shown, the
merged tables are what the nested widgets had reported before the last fetch.  When the outer widget
waits for updates, they are what the nested widgets have reported last.  They have no other keys
than the names of the nested widgets.  And a table of updates has exactly the nested widgets whose
slot changed between the last two fetches, each with its latest report before the last one. -/
theorem updates_merged (hs : (system W C greet).Hist h s) :
    ((∀ m, s.consumer ≠ .fetched m) → ∀ i : Fin src.count,
      merged h (.str (src.name i).bytes) = shown (latestOutcome (atFetch h) i)) ∧
    (s.conq.consumer = .waiting → ∀ i : Fin src.count,
      merged h (.str (src.name i).bytes) = shown (latestOutcome h i)) ∧
    (∀ k, (∀ i : Fin src.count, k ≠ .str (src.name i).bytes) → merged h k = .nil) ∧
    ∀ m arg t, s.consumer = .fetched m → Step W C greet s (.call arg) t →
      ∃ u, updatesOf arg = some u ∧ ∀ i : Fin src.count,
        (u (.str (src.name i).bytes) ≠ .nil ↔
          changed ((atFetch h).filterMap Label.toConq) i) ∧
        (u (.str (src.name i).bytes) ≠ .nil →
          u (.str (src.name i).bytes) = shown (latestOutcome (atFetch h) i)) := by
  obtain ⟨hinv, hseen⟩ := seen_of_hist hs
  have hview (hpc : ∀ m, s.consumer ≠ .fetched m) (i : Fin src.count) :=
    hseen.view i fun m hm => absurd hm (hpc m)
  refine ⟨hview, fun hw i => ?_, hseen.others, fun m arg t hpc hst => ?_⟩
  · have hfetching := hseen.waiting hw
    rw [hview (fun m hm => by cases hfetching.symm.trans hm) i]
    refine shown_congr ?_
    have hzero := hinv.waiting hw
    rw [← hseen.out, ← latest_eq]
    refine hinv.out i fun hch => ?_
    have hbit := (hinv.mask i).mpr ⟨i.isLt, hch⟩
    rw [hzero] at hbit
    simp at hbit
  · generalize hl : Label.call arg = l at hst
    cases hst with
    | hello hgreet _ => cases hgreet.symm.trans hpc
    | @update m' hpc' _ =>
        cases hl
        cases hpc'.symm.trans hpc
        refine ⟨_, updatesOf_updateArg m s.conq.out, fun i => ?_⟩
        have hmask := hseen.mask m hpc i
        have hslot : pushUpdate (s.conq.out.bufs i) (s.conq.out.states i) =
            shown (latestOutcome (atFetch h) i) := by
          rw [← pushUpdate_slotOf, ← hseen.out]
          rfl
        rw [updatesTable_name, hslot]
        cases hbit : m.getLsbD i with
        | false =>
            have hno : ¬ changed ((atFetch h).filterMap Label.toConq) i := by
              rw [← hmask, hbit]
              exact Bool.false_ne_true
            exact ⟨iff_of_false (fun hne => hne rfl) hno, fun hne => absurd rfl hne⟩
        | true =>
            obtain ⟨o, ho⟩ := latestOutcome_of_changed (hmask.mp hbit)
            rw [if_pos rfl, ho]
            exact ⟨iff_of_true (shown_some_ne_nil o) (hmask.mp hbit), fun _ => rfl⟩
    | _ => cases hl

/-- A string goes from the nested widget to the outer one. -/
theorem updates_merged_string :
    ∃ (C : Coercions Unit) (h : List (Label oneSource.count)) (s : State oneSource),
      (system (fun _ => some .func) C false).Hist h s ∧
        latestOutcome h onlySource = some (.newData (.string [120])) ∧
        merged h (.str [97]) = .string [120] := by
  let C : Coercions Unit := { toString := fun _ => [48], ofString := fun _ => none }
  have h0 : (system (fun _ => some .func) C false).Hist [] (initState oneSource) := .init rfl
  have h1 := h0.step (.spawn rfl)
  have h2 := h1.step (.start onlySource true rfl)
  have h3 := h2.step (.started rfl)
  have h4 := h3.step (.runner onlySource (.callBegin rfl rfl))
  have h5 := h4.step (.runner onlySource (.callBegun rfl))
  have h6 := h5.step (.runner onlySource (.callPush rfl))
  have h7 := h6.step (.runner onlySource (.callEnd rfl rfl))
  have h8 := h7.step (.runner onlySource (.callOk (v := .string [120]) rfl))
  have h9 := h8.step (.outcome onlySource _ (.newData rfl rfl))
  have h10 := h9.step (.fetch _ rfl (.fetch (by decide) rfl))
  have h11 := h10.step (.update rfl rfl)
  exact ⟨C, _, _, h11, rfl, (updates_merged h11).1 (fun m hm => by cases hm) onlySource⟩

end Luastatus.Multiplex.Nested

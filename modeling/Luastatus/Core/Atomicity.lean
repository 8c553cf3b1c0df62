import Luastatus.Core.Communicate

/-!
# The calls of `luastatus.communicate` are atomic

The machine of the calls is compared with the atomic object that has a string for each widget.
`CommInv` relates a state of the machine to one of the object.  While nobody works on a string, it
is stored, with the value that the object has.  While a thread is in its critical section, the
string it works on may be anything from the old value to a pointer to freed memory
(`CallPc.Shape`), but the value of the object is still the old one, and what the thread is about to
leave is what the operation makes of it.  An operation takes place in the specification when its
thread unlocks the mutex.

A thread that keeps the mutex leaves the string as it was.  From then on nobody gets into a critical
section (`CommInv.of_kept`), and the threads that call the function wait for ever: until then they
do not (`communicate_progress`).

The widget whose string is used comes from an upvalue or from `sepstate.cur_w`.  Both are the
widget of the running function by the invariant of the callback machine
(`Inv.communicateWidget_eq`).
-/

namespace Luastatus.Core

open Memory
open Text (Bytes lit)
open Lua
open Transition

/-! ## The threads in the callback machine -/

section Core

variable {n : Nat} {W : Fin n → Widget} {s s' : State n} {t u : Thread n}

@[simp] theorem State.possiblySepstateCallBegin_plugin (s : State n) (W : Fin n → Widget)
    (i : Fin n) : (s.possiblySepstateCallBegin W i).plugin = s.plugin := by
  unfold State.possiblySepstateCallBegin
  split <;> rfl

@[simp] theorem State.possiblySepstateCallEnd_plugin (s : State n) (W : Fin n → Widget)
    (i : Fin n) : (s.possiblySepstateCallEnd W i).plugin = s.plugin := by
  unfold State.possiblySepstateCallEnd
  split <;> rfl

/-- A move leaves the program counters of the other widget threads alone. -/
theorem Move.plugin_eq {j : Fin n} (h : Move W s t s') (hj : t ≠ .plugin j) :
    s'.plugin j = s.plugin j := by
  have hne {i : Fin n} {pc : PluginPc n} (hi : Thread.plugin i ≠ .plugin j) (s : State n) :
      Function.update s.plugin i pc j = s.plugin j :=
    Function.update_of_ne (fun e : j = i => hi (congrArg Thread.plugin e.symm)) pc s.plugin
  cases h with
  | callSet i extra r hpc => cases r <;> exact hne hj _
  | callSetError i ok fatal hpc => cases fatal <;> first | rfl | exact hne hj _
  | callUnlockB i ok hpc => cases ok <;> exact hne hj _
  | finish i fatal hpc => cases fatal <;> first | rfl | exact hne hj _
  | ewSetError i fatal hpc => cases fatal <;> rfl
  | ewBegun i hpc => exact congrFun (s.possiblySepstateCallBegin_plugin W i) j
  | ewUnlock i hpc => exact congrFun (s.possiblySepstateCallEnd_plugin W i) j
  | _ => first | rfl | exact hne hj _

/-- A move of a widget thread leaves the program counter of the event watcher alone. -/
theorem Move.ew_eq (h : Move W s t s') (ht : t ≠ .ew) : s'.ew = s.ew := by
  cases h with
  | callSet i extra r hpc => cases r <;> rfl
  | callSetError i ok fatal hpc => cases fatal <;> rfl
  | callUnlockB i ok hpc => cases ok <;> rfl
  | finish i fatal hpc => cases fatal <;> rfl
  | _ => first | rfl | exact absurd rfl ht

theorem Move.luaOf_eq (h : Move W s t s') (hu : u ≠ t) : s'.luaOf W u = s.luaOf W u := by
  cases u with
  | plugin j => rw [State.luaOf, State.luaOf, h.plugin_eq hu.symm]
  | ew => rw [State.luaOf, State.luaOf, h.ew_eq hu.symm]

theorem Inv.of_move (h : Inv W s) (hmove : Move W s t s') : Inv W s' := by
  cases t with
  | plugin i => exact h.plugin_step hmove
  | ew => exact h.ew_step hmove

/-- The function that runs in a Lua state is one of the widget that `l_communicate` finds. -/
theorem Inv.communicateWidget_eq (h : Inv W s) {l : LuaId n} {f : Slot n} {w : Fin n}
    (hl : s.luaOf W t = some (l, f)) (hf : f.widget = some w) :
    communicateWidget s l = some w := by
  cases t with
  | plugin i =>
      rw [State.luaOf] at hl
      split at hl
      · rename_i g hpc
        cases hl
        obtain ⟨rfl, -⟩ := h.plugin_shape_at hpc rfl
        exact hf
      · cases hl
  | ew =>
      rw [State.luaOf] at hl
      split at hl
      · rename_i i g hpc
        cases hl
        obtain ⟨rfl, -⟩ := h.ew_shape_at hpc rfl
        cases hf
        have hcur : s.curW = if (W w).sepstateEvent then some w else none := h.curW_at hpc
        rw [widgetEventLuaState]
        split
        · rename_i hsep
          rw [communicateWidget, hcur, if_pos hsep]
        · rfl
      · cases hl

end Core

/-! ## The invariant -/

variable {F A : Type} {n : Nat} {W : Fin n → Widget} {C : Coercions F}

/-- The call whose critical section a thread is in. -/
def CallPc.inside : CallPc n F → Option (Call n F)
  | .locked c | .freeing c _ _ | .duplicating c _ _ | .measuring c _ _ | .unlocking c _ => some c
  | _ => none

/-- What the memory of the string looks like in a critical section on it that began when it was
`v`. -/
def CallPc.Shape (heap : Heap A Bytes) (c : Comm A) (v : Bytes) : CallPc n F → Prop
  | .freeing k new r => k.action.apply v = (r, new) ∧ c.Holds heap v
  | .duplicating k new r => k.action.apply v = (r, new) ∧ ∀ p, c.data = some p → heap p = none
  | .measuring k new r => k.action.apply v = (r, new) ∧ c.Leads heap new
  | .unlocking k r => ∃ v', k.action.apply v = (r, v') ∧ c.Holds heap v'
  | _ => c.Holds heap v

/-- A state of the specification. -/
abbrev SpecState (n : Nat) (F : Type) :=
  Atomic.State (Thread n) (Fin n → Bytes) (Fin n × List (CallArg F)) CommResult

/-- What the specification knows of a thread. -/
def CallPc.Phase (C : Coercions F) (lua : Option (LuaId n × Slot n))
    (ph : Atomic.Phase (Fin n × List (CallArg F)) CommResult) : CallPc n F → Prop
  | .out => ph = .idle
  | .entered l args => ∃ f w, lua = some (l, f) ∧ f.widget = some w ∧ ph = .pending (w, args)
  | .returning r => ph = .finished r
  | .locking c | .locked c | .relocking c | .freeing c _ _ | .duplicating c _ _ | .measuring c _ _
  | .unlocking c _ => ph = .pending (c.w, c.args) ∧ parseAction C c.args = .ok c.action

/-- The simulation relation; `K` are the threads that have kept the mutex. -/
structure CommInv (W : Fin n → Widget) (C : Coercions F) (K : Thread n → Bool)
    (s : CommState n F A) (a : SpecState n F) : Prop where
  core : Inv W s.core
  noFault : s.fault = false
  excl : Mutex.Excl s.mtx fun t => (s.call t).inside.isSome || K t
  kept : ∀ t, K t = true → (s.call t).inside = none
  phase : ∀ t, (s.call t).Phase C (s.core.luaOf W t) (a.phase t)
  shape : ∀ t c, (s.call t).inside = some c →
    (s.call t).Shape s.heap (s.comm c.w) (a.value c.w)
  /-- The strings nobody is working on. -/
  holds : ∀ w, (∀ t c, (s.call t).inside = some c → c.w ≠ w) →
    (s.comm w).Holds s.heap (a.value w)
  /-- A string belongs to one widget. -/
  unshared : ∀ w w' p, (s.comm w).data = some p → (s.comm w').data = some p →
    s.heap p ≠ none → w = w'
  /-- No string is lost. -/
  noLeak : ∀ p, s.heap p ≠ none → ∃ w, (s.comm w).data = some p

theorem Comm.Holds.bytes {heap : Heap A Bytes} {c : Comm A} {v : Bytes} (h : c.Holds heap v) :
    c.bytes heap = some v := by
  obtain ⟨hlen, hdata⟩ := h
  rw [Comm.bytes]
  split
  · rename_i hz
    rw [List.length_eq_zero_iff.mp (hlen.symm.trans hz)]
  · rename_i hz
    rw [Comm.Leads] at hdata
    cases hp : c.data with
    | none =>
        rw [hp] at hdata
        subst hdata
        exact absurd hlen hz
    | some p =>
        rw [hp] at hdata
        show (heap p).bind _ = _
        rw [show heap p = some v from hdata, Option.bind_some, if_pos (Nat.le_of_eq hlen), hlen,
          List.take_length]

theorem Comm.Holds.matches {heap : Heap A Bytes} {c : Comm A} {v : Bytes} (h : c.Holds heap v)
    (old : Bytes) : c.matches heap old = some (decide (v = old)) := by
  rw [Comm.matches, h.bytes, h.1]
  split
  · rename_i hne
    rw [decide_eq_false fun he => hne (congrArg List.length he)]
  · rename_i hlen
    have hlen := Decidable.not_not.mp hlen
    split
    · rename_i hz
      have hold := List.length_eq_zero_iff.mp hz
      have hv := List.length_eq_zero_iff.mp (hlen.trans hz)
      rw [decide_eq_true (hv.trans hold.symm)]
    · rfl

section Steps

variable {s s' : CommState n F A} {a a' : SpecState n F} {t u : Thread n}
  {c : Call n F} {d : CallPc n F} {l : CommLabel n F} {K : Thread n → Bool} {v : Fin n → Bytes}

theorem CallPc.phase_of_inside {lua : Option (LuaId n × Slot n)}
    {ph : Atomic.Phase (Fin n × List (CallArg F)) CommResult} (hpc : d.inside = some c) :
    d.Phase C lua ph ↔ ph = .pending (c.w, c.args) ∧ parseAction C c.args = .ok c.action := by
  cases d <;> cases hpc <;> exact Iff.rfl

theorem CommInv.mtx_eq (h : CommInv W C K s a) (ht : (s.call t).inside = some c) :
    s.mtx = some t :=
  (h.excl t).mpr (by simp [ht])

theorem CommInv.kept_eq_false (h : CommInv W C K s a) (ht : (s.call t).inside = some c) :
    K t = false :=
  Bool.eq_false_iff.mpr fun hk => by cases (h.kept t hk).symm.trans ht

/-- Nobody is in a critical section, or has kept the mutex, while it is free. -/
theorem CommInv.of_free (h : CommInv W C K s a) (hmtx : s.mtx = none) (u : Thread n) :
    (s.call u).inside = none ∧ K u = false := by
  have hu := mt (h.excl u).mpr (by rw [hmtx]; nofun)
  simpa using hu

/-- A thread in its critical section is the only one. -/
theorem CommInv.inside_eq (h : CommInv W C K s a) (ht : (s.call t).inside = some c)
    {c' : Call n F} (hu : (s.call u).inside = some c') : u = t :=
  Option.some.inj ((h.mtx_eq hu).symm.trans (h.mtx_eq ht))

theorem CommInv.shape_at (h : CommInv W C K s a) (hpc : s.call t = d) (hin : d.inside = some c) :
    d.Shape s.heap (s.comm c.w) (a.value c.w) := by
  subst hpc
  exact h.shape t c hin

/-- A thread that has locked the mutex finds the string stored. -/
theorem CommInv.of_locked (h : CommInv W C K s a) (hpc : s.call t = .locked c) :
    (s.call t).inside = some c ∧ (s.comm c.w).Holds s.heap (a.value c.w) :=
  ⟨by rw [hpc]; rfl, h.shape_at hpc rfl⟩

/-- The strings of the other widgets are stored while a thread is in its critical section. -/
theorem CommInv.holds_of_ne (h : CommInv W C K s a) (ht : (s.call t).inside = some c) {w : Fin n}
    (hw : w ≠ c.w) : (s.comm w).Holds s.heap (a.value w) := by
  refine h.holds w fun u c' hu he => hw ?_
  obtain rfl := h.inside_eq ht hu
  rw [← he, Option.some.inj (ht.symm.trans hu)]

/-- What a step in the critical section leaves alone. -/
structure InsideFrame (t : Thread n) (c : Call n F) (d : CallPc n F) (s s' : CommState n F A) :
    Prop where
  core : s'.core = s.core
  mtx : s'.mtx = s.mtx
  fault : s'.fault = s.fault
  call : s'.call = Function.update s.call t d
  comm : ∀ w, w ≠ c.w → s'.comm w = s.comm w
  heap : ∀ w p, w ≠ c.w → (s.comm w).data = some p → s'.heap p = s.heap p

theorem Comm.Holds.congr {heap heap' : Heap A Bytes} {k : Comm A} {v : Bytes}
    (h : k.Holds heap v) (heq : ∀ p, k.data = some p → heap' p = heap p) : k.Holds heap' v := by
  refine ⟨h.1, ?_⟩
  have hdata := h.2
  rw [Comm.Leads] at hdata ⊢
  cases hp : k.data with
  | none => rwa [hp] at hdata
  | some p =>
      rw [hp] at hdata
      exact (heq p hp).trans hdata

/-- A step in the critical section. -/
theorem CommInv.of_frame (h : CommInv W C K s a) (hin : (s.call t).inside = some c)
    (hpc : d.inside = some c) (f : InsideFrame t c d s s')
    (hshape : d.Shape s'.heap (s'.comm c.w) (a.value c.w))
    (hunshared : ∀ w p, w ≠ c.w → (s.comm w).data = some p → (s'.comm c.w).data = some p →
      s'.heap p = none)
    (hleak : ∀ p, s'.heap p ≠ none →
      (s'.comm c.w).data = some p ∨ ((s.comm c.w).data ≠ some p ∧ s.heap p ≠ none)) :
    CommInv W C K s' a where
  core := f.core ▸ h.core
  noFault := f.fault.trans h.noFault
  excl := by
    refine h.excl.congr f.mtx fun u => ?_
    rw [f.call]
    by_cases hu : u = t
    · subst hu
      rw [Function.update_self, hpc, hin]
    · rw [Function.update_of_ne hu]
  kept u hu := by
    have hne : u ≠ t := by
      rintro rfl
      cases hu.symm.trans (h.kept_eq_false hin)
    rw [f.call, Function.update_of_ne hne]
    exact h.kept u hu
  phase u := by
    rw [f.core, f.call]
    by_cases hu : u = t
    · subst hu
      rw [Function.update_self, CallPc.phase_of_inside hpc, ← CallPc.phase_of_inside hin]
      exact h.phase u
    · rw [Function.update_of_ne hu]
      exact h.phase u
  shape u c' hu := by
    rw [f.call] at hu ⊢
    by_cases he : u = t
    · subst he
      rw [Function.update_self] at hu ⊢
      cases hpc.symm.trans hu
      exact hshape
    · rw [Function.update_of_ne he] at hu
      exact absurd (h.inside_eq hin hu) he
  holds w hw := by
    have hne : w ≠ c.w := fun he => hw t c (by rw [f.call, Function.update_self, hpc]) he.symm
    rw [f.comm w hne]
    exact (h.holds_of_ne hin hne).congr fun p hp => f.heap w p hne hp
  unshared w w' p hp hp' hlive := by
    by_cases hw : w = c.w
    · subst hw
      by_cases hw' : w' = c.w
      · exact hw'.symm
      · rw [f.comm w' hw'] at hp'
        exact absurd (hunshared w' p hw' hp' hp) hlive
    · rw [f.comm w hw] at hp
      by_cases hw' : w' = c.w
      · subst hw'
        exact absurd (hunshared w p hw hp hp') hlive
      · rw [f.comm w' hw'] at hp'
        rw [f.heap w p hw hp] at hlive
        exact h.unshared w w' p hp hp' hlive
  noLeak p hp := by
    rcases hleak p hp with hp' | ⟨hne, hlive⟩
    · exact ⟨c.w, hp'⟩
    · obtain ⟨w, hw⟩ := h.noLeak p hlive
      have hcw : w ≠ c.w := by
        rintro rfl
        exact hne hw
      exact ⟨w, (f.comm w hcw).symm ▸ hw⟩

/-- A step in the critical section that does not write to memory. -/
theorem CommInv.of_callAt (h : CommInv W C K s a) (hin : (s.call t).inside = some c)
    (hpc : d.inside = some c) (hshape : d.Shape s.heap (s.comm c.w) (a.value c.w)) :
    CommInv W C K (s.callAt t d) a := by
  refine h.of_frame hin hpc ⟨rfl, rfl, rfl, rfl, fun _ _ => rfl, fun _ _ _ _ => rfl⟩ hshape ?_ ?_
  · intro w p hw hp hp'
    by_contra hlive
    exact hw (h.unshared w c.w p hp hp' hlive)
  · intro p hlive
    by_cases hp : (s.comm c.w).data = some p
    · exact .inl hp
    · exact .inr ⟨hp, hlive⟩

/-- A step outside of the critical section. -/
theorem CommInv.of_outside (h : CommInv W C K s a) (hout : (s.call t).inside = none)
    (hpc : d.inside = none) (hcall : s'.call = Function.update s.call t d)
    (hcore : s'.core = s.core) (hheap : s'.heap = s.heap) (hcomm : s'.comm = s.comm)
    (hmtx : s'.mtx = s.mtx) (hfault : s'.fault = s.fault) (hvalue : a'.value = a.value)
    (hphase : ∀ u, u ≠ t → a'.phase u = a.phase u)
    (hpcphase : d.Phase C (s.core.luaOf W t) (a'.phase t)) : CommInv W C K s' a' := by
  have hinside (u : Thread n) : (s'.call u).inside = (s.call u).inside := by
    rw [hcall]
    by_cases hu : u = t
    · subst hu
      rw [Function.update_self, hpc, hout]
    · rw [Function.update_of_ne hu]
  exact {
    core := hcore ▸ h.core
    noFault := hfault.trans h.noFault
    excl := h.excl.congr hmtx fun u => by rw [hinside]
    kept := fun u hu => (hinside u).trans (h.kept u hu)
    phase := fun u => by
      rw [hcore, hcall]
      by_cases hu : u = t
      · subst hu
        rw [Function.update_self]
        exact hpcphase
      · rw [Function.update_of_ne hu, hphase u hu]
        exact h.phase u
    shape := fun u c hu => by
      have hne : u ≠ t := by
        rintro rfl
        rw [hinside, hout] at hu
        cases hu
      rw [hinside] at hu
      rw [hheap, hcomm, hvalue, hcall, Function.update_of_ne hne]
      exact h.shape u c hu
    holds := fun w hw => by
      rw [hheap, hcomm, hvalue]
      exact h.holds w fun u c hu => hw u c ((hinside u).trans hu)
    unshared := fun w w' p hp hp' hlive => by
      rw [hcomm] at hp hp'
      rw [hheap] at hlive
      exact h.unshared w w' p hp hp' hlive
    noLeak := fun p hp => by
      rw [hheap] at hp
      rw [hcomm]
      exact h.noLeak p hp }

/-- `comm_lock` -/
theorem CommInv.of_lock (h : CommInv W C K s a) (hpc : s.call t = .locking c)
    (hmtx : s.mtx = none) :
    CommInv W C K { s.callAt t (.locked c) with mtx := some t } a := by
  have hnone (u : Thread n) : (s.call u).inside = none := (h.of_free hmtx u).1
  have hkept (u : Thread n) : K u = false := (h.of_free hmtx u).2
  refine { h with
    excl := ?_
    kept := fun u hu => by cases hu.symm.trans (hkept u)
    phase := fun u => ?_
    shape := fun u c' hu => ?_
    holds := ?_ }
  · refine h.excl.move (t := t) ?_ fun u hu => ?_
    · simp only [hmtx, hnone, hkept, CommState.callAt, Function.update_self]
      exact .lock
    · simp only [CommState.callAt, Function.update_of_ne hu]
  · have hph := h.phase u
    by_cases hu : u = t
    · subst hu
      rw [hpc] at hph
      simp only [CommState.callAt, Function.update_self]
      exact hph
    · simpa only [CommState.callAt, Function.update_of_ne hu] using hph
  · have hstored := h.holds c'.w fun v k hv => by rw [hnone] at hv; cases hv
    by_cases he : u = t
    · subst he
      simp only [CommState.callAt, Function.update_self] at hu ⊢
      exact hstored
    · simp only [CommState.callAt, Function.update_of_ne he, hnone] at hu
      cases hu
  · exact fun w _ => h.holds w fun v k hv => by rw [hnone] at hv; cases hv

/-- `comm_unlock`: the operation takes place. -/
theorem CommInv.of_unlock (h : CommInv W C K s a) {r : List Ret} (hpc : s.call t = .unlocking c r) :
    ∃ v', c.action.apply (a.value c.w) = (r, v') ∧
      CommInv W C K { s.callAt t (.returning (.ok r)) with mtx := none }
        { value := Function.update a.value c.w v'
          phase := Function.update a.phase t (.finished (.ok r)) } := by
  have hin : (s.call t).inside = some c := by rw [hpc]; rfl
  have hshape := h.shape t c hin
  rw [hpc] at hshape
  obtain ⟨v', happly, hv'⟩ := hshape
  have hother (u : Thread n) (hu : u ≠ t) : (s.call u).inside = none := by
    cases hc : (s.call u).inside with
    | none => rfl
    | some c' => exact absurd (h.inside_eq hin hc) hu
  refine ⟨v', happly, { h with
    excl := ?_
    kept := fun u hu => ?_
    phase := fun u => ?_
    shape := fun u c' hu => ?_
    holds := fun w _ => ?_ }⟩
  · refine h.excl.move (t := t) ?_ fun u hu => ?_
    · simp only [h.mtx_eq hin, hin, h.kept_eq_false hin, CommState.callAt, Function.update_self]
      exact .unlock
    · simp only [CommState.callAt, Function.update_of_ne hu]
  · have hne : u ≠ t := by
      rintro rfl
      cases hu.symm.trans (h.kept_eq_false hin)
    simp only [CommState.callAt, Function.update_of_ne hne]
    exact h.kept u hu
  · have hph := h.phase u
    by_cases hu : u = t
    · subst hu
      simp only [CommState.callAt, Function.update_self]
      rfl
    · simpa only [CommState.callAt, Function.update_of_ne hu] using hph
  · by_cases he : u = t
    · subst he
      simp only [CommState.callAt, Function.update_self] at hu
      cases hu
    · simp only [CommState.callAt, Function.update_of_ne he, hother u he] at hu
      cases hu
  · by_cases hw : w = c.w
    · subst hw
      simp only [Function.update_self]
      exact hv'
    · simp only [Function.update_of_ne hw]
      exact h.holds_of_ne hin hw

/-! ## Every step is one of the specification -/

theorem strings_apply_error {b : Fin n → Bytes} {w : Fin n} {args : List (CallArg F)}
    {e : LuaError} (h : parseAction C args = .error e) :
    (strings C v).apply b (w, args) = (.error e, b) := by
  simp only [strings, h]

theorem strings_apply_ok {b : Fin n → Bytes} {w : Fin n} {args : List (CallArg F)} {k : Action}
    (h : parseAction C args = .ok k) :
    (strings C v).apply b (w, args) =
      (.ok (k.apply (b w)).1, Function.update b w (k.apply (b w)).2) := by
  simp only [strings, h]

/-- The specification of the machine. -/
abbrev spec (C : Coercions F) (v : Fin n → Bytes) :
    System (SpecState n F) (Atomic.Label (Thread n) (Fin n × List (CallArg F)) CommResult) :=
  (strings C v).system (Thread n)

/-- What a step of the machine is in the specification. -/
def Simulated (W : Fin n → Widget) (C : Coercions F) (v : Fin n → Bytes) (K : Thread n → Bool)
    (a : SpecState n F) (l : CommLabel n F) (s' : CommState n F A) : Prop :=
  ∃ b, (spec C v).stepOption a l.observed b ∧
    CommInv W C (fun t => l.keepsMutex t || K t) s' b

/-- A step that the specification does not see. -/
theorem Simulated.silent (h : CommInv W C (fun t => l.keepsMutex t || K t) s' a)
    (hl : l.observed = none) : Simulated W C v K a l s' :=
  ⟨a, by rw [hl]; rfl, h⟩

theorem CommInv.loaded (C : Coercions F) (h : s.Loaded W v) :
    CommInv W C (fun _ => false) s { value := v, phase := fun _ => .idle } where
  core := h.core ▸ .initial
  noFault := h.noFault
  excl t := by simp [h.mtx, h.call, CallPc.inside]
  kept _ := nofun
  phase t := by rw [h.call]; rfl
  shape t c hin := by
    rw [h.call] at hin
    cases hin
  holds w _ := h.holds w
  unshared := h.unshared
  noLeak := h.noLeak

/-- The thread leaves its critical section, and the mutex is still locked. -/
theorem CommInv.of_keeps (h : CommInv W C K s a) (hpc : s.call t = .locked c)
    (hd : d.inside = none) {a' : SpecState n F} (hvalue : a'.value = a.value)
    (hphase : ∀ u, u ≠ t → a'.phase u = a.phase u)
    (hdphase : d.Phase C (s.core.luaOf W t) (a'.phase t)) :
    CommInv W C (fun u => decide (t = u) || K u) (s.callAt t d) a' := by
  obtain ⟨hin, hstored⟩ := h.of_locked hpc
  have hself : (s.callAt t d).call t = d := Function.update_self ..
  have hother {u : Thread n} (hu : u ≠ t) : (s.callAt t d).call u = s.call u :=
    Function.update_of_ne hu ..
  have hnone (u : Thread n) : ((s.callAt t d).call u).inside = none := by
    by_cases hu : u = t
    · subst hu
      rw [hself, hd]
    · rw [hother hu]
      cases hc : (s.call u).inside with
      | none => rfl
      | some c' => exact absurd (h.inside_eq hin hc) hu
  exact {
    core := h.core
    noFault := h.noFault
    excl := by
      refine h.excl.congr rfl fun u => ?_
      rw [hnone]
      by_cases hu : u = t
      · subst hu
        rw [hin]
        simp
      · rw [← hother hu, hnone]
        simp [Ne.symm hu]
    kept := fun u _ => hnone u
    phase := fun u => by
      by_cases hu : u = t
      · subst hu
        rw [hself]
        exact hdphase
      · rw [hother hu, hphase u hu]
        exact h.phase u
    shape := fun u c' hu => by cases (hnone u).symm.trans hu
    holds := fun w _ => by
      rw [hvalue]
      by_cases hw : w = c.w
      · subst hw
        exact hstored
      · exact h.holds_of_ne hin hw
    unshared := h.unshared
    noLeak := h.noLeak }

/-- A thread that has kept the mutex is its holder, and nobody is in a critical section. -/
theorem CommInv.of_kept (h : CommInv W C K s a) (hu : K u = true) :
    s.mtx = some u ∧ ∀ t, (s.call t).inside = none := by
  have hmtx : s.mtx = some u := (h.excl u).mpr (by simp [hu])
  refine ⟨hmtx, fun t => ?_⟩
  cases ht : (s.call t).inside with
  | none => rfl
  | some c =>
      obtain rfl := Option.some.inj (hmtx.symm.trans (h.mtx_eq ht))
      cases hu.symm.trans (h.kept_eq_false ht)

variable [DecidableEq A]

theorem CommInv.step_inside (h : CommInv W C K s a) (hst : CommStep W C s (.inside t) s') :
    CommInv W C K s' a := by
  cases hst with
  | noWidget _ l args hpc hnone =>
      have hph := h.phase t
      rw [hpc] at hph
      obtain ⟨f, w, hlua, hf, -⟩ := hph
      cases hnone.symm.trans (h.core.communicateWidget_eq hlua hf)
  | accept _ l args w k hpc hw hk =>
      have hph := h.phase t
      rw [hpc] at hph
      obtain ⟨f, w', hlua, hf, hph⟩ := hph
      cases hw.symm.trans (h.core.communicateWidget_eq hlua hf)
      exact h.of_outside (t := t) (d := .locking ⟨w, args, k⟩) (by rw [hpc]; rfl) rfl rfl rfl rfl
        rfl rfl rfl rfl (fun _ _ => rfl) ⟨hph, hk⟩
  | lock _ c hpc hmtx => exact h.of_lock hpc hmtx
  | read _ c hpc hk =>
      obtain ⟨hin, hv⟩ := h.of_locked hpc
      rw [hv.bytes, CommState.reading_some]
      exact h.of_callAt hin rfl ⟨_, by rw [hk]; rfl, hv⟩
  | readAndClear _ c hpc hk =>
      obtain ⟨hin, hv⟩ := h.of_locked hpc
      rw [hv.bytes, CommState.reading_some]
      exact h.of_callAt hin rfl ⟨by rw [hk]; rfl, hv⟩
  | write _ c new hpc hk =>
      obtain ⟨hin, hv⟩ := h.of_locked hpc
      exact h.of_callAt hin rfl ⟨by rw [hk]; rfl, hv⟩
  | cas _ c old new hpc hk =>
      obtain ⟨hin, hv⟩ := h.of_locked hpc
      rw [hv.matches, CommState.reading_some]
      by_cases heq : a.value c.w = old
      · rw [decide_eq_true heq, if_pos rfl]
        exact h.of_callAt hin rfl ⟨by rw [hk, Action.apply, if_pos heq], hv⟩
      · rw [decide_eq_false heq, if_neg Bool.false_ne_true]
        exact h.of_callAt hin rfl ⟨_, by rw [hk, Action.apply, if_neg heq], hv⟩
  | free _ c new r hpc =>
      have hin : (s.call t).inside = some c := by rw [hpc]; rfl
      obtain ⟨happly, hv⟩ : c.action.apply (a.value c.w) = (r, new) ∧
          (s.comm c.w).Holds s.heap (a.value c.w) :=
        h.shape_at hpc rfl
      have hdata := hv.2
      rw [Comm.Leads] at hdata
      cases hp : (s.comm c.w).data with
      | none =>
          refine h.of_callAt hin rfl ⟨happly, fun p hp' => ?_⟩
          cases hp.symm.trans hp'
      | some p =>
          rw [hp] at hdata
          have hlive : s.heap p = some (a.value c.w) := hdata
          simp only [hlive]
          refine h.of_frame (d := .duplicating c new r) hin rfl
            ⟨rfl, rfl, rfl, rfl, fun _ _ => rfl, fun w q hw hq => ?_⟩ ⟨happly, fun q hq => ?_⟩
            (fun w q hw hq hq' => ?_) fun q hq => ?_
          · refine Heap.free_of_ne ?_ s.heap
            rintro rfl
            exact hw (h.unshared w c.w q hq hp (by rw [hlive]; simp))
          · cases hp.symm.trans hq
            exact s.heap.free_self p
          · cases hp.symm.trans hq'
            exact s.heap.free_self p
          · have hne : q ≠ p := by
              rintro rfl
              exact hq (s.heap.free_self q)
            have hq' : s.heap q ≠ none := by
              rw [← Heap.free_of_ne hne s.heap]
              exact hq
            exact .inr ⟨fun he => hne (Option.some.inj (he.symm.trans hp)), hq'⟩
  | dup _ c new r p hpc hp =>
      have hin : (s.call t).inside = some c := by rw [hpc]; rfl
      obtain ⟨happly, hdead⟩ : c.action.apply (a.value c.w) = (r, new) ∧
          ∀ q, (s.comm c.w).data = some q → s.heap q = none :=
        h.shape_at hpc rfl
      have hother {w : Fin n} {q : A} (hw : w ≠ c.w) (hq : (s.comm w).data = some q) :
          q ≠ p := by
        rintro rfl
        have hdata := (h.holds_of_ne hin hw).2
        rw [Comm.Leads, hq] at hdata
        cases hp.symm.trans hdata
      refine h.of_frame (d := .measuring c new r) hin rfl
        ⟨rfl, rfl, rfl, rfl, fun w hw => Function.update_of_ne hw _ _, fun w q hw hq => ?_⟩
        ⟨happly, ?_⟩ (fun w q hw hq hq' => ?_) fun q hq => ?_
      · exact Heap.put_of_ne (hother hw hq) s.heap new
      · simp only [CommState.setComm, Function.update_self, Comm.Leads, Heap.put_self]
      · simp only [CommState.setComm, Function.update_self, Option.some.injEq] at hq'
        exact absurd hq'.symm (hother hw hq)
      · by_cases he : q = p
        · simp only [CommState.setComm, Function.update_self, he, true_or]
        · have hq' : s.heap q ≠ none := by
            rw [← Heap.put_of_ne he s.heap new]
            exact hq
          exact .inr ⟨fun hd => hq' (hdead q hd), hq'⟩
  | dupNull _ c r hpc =>
      have hin : (s.call t).inside = some c := by rw [hpc]; rfl
      obtain ⟨happly, hdead⟩ : c.action.apply (a.value c.w) = (r, []) ∧
          ∀ q, (s.comm c.w).data = some q → s.heap q = none :=
        h.shape_at hpc rfl
      refine h.of_frame (d := .measuring c [] r) hin rfl
        ⟨rfl, rfl, rfl, rfl, fun w hw => Function.update_of_ne hw _ _, fun _ _ _ _ => rfl⟩
        ⟨happly, ?_⟩ (fun w q hw hq hq' => ?_) fun q hq => ?_
      · simp only [CommState.setComm, Function.update_self, Comm.Leads]
      · simp only [CommState.setComm, Function.update_self, reduceCtorEq] at hq'
      · exact .inr ⟨fun hd => hq (hdead q hd), hq⟩
  | outOfMemory _ c new r hpc hne =>
      have hcore : Inv W s.core.exit :=
        ⟨h.core.noFailure, h.core.holder, h.core.free, h.core.pluginShape, h.core.ewShape,
          h.core.curW⟩
      exact { h with core := hcore }
  | measure _ c new r hpc =>
      have hin : (s.call t).inside = some c := by rw [hpc]; rfl
      obtain ⟨happly, hdata⟩ : c.action.apply (a.value c.w) = (r, new) ∧
          (s.comm c.w).Leads s.heap new :=
        h.shape_at hpc rfl
      refine h.of_frame (d := .unlocking c r) hin rfl
        ⟨rfl, rfl, rfl, rfl, fun w hw => Function.update_of_ne hw _ _, fun _ _ _ _ => rfl⟩
        ⟨new, happly, ?_⟩ (fun w q hw hq hq' => ?_) fun q hq => ?_
      · simp only [CommState.setComm, Function.update_self]
        exact ⟨rfl, hdata⟩
      · simp only [CommState.setComm, Function.update_self] at hq'
        by_contra hlive
        exact hw (h.unshared w c.w q hq hq' hlive)
      · simp only [CommState.setComm, Function.update_self]
        by_cases hd : (s.comm c.w).data = some q
        · exact .inl hd
        · exact .inr ⟨hd, hq⟩

theorem CommInv.step (h : CommInv W C K s a) (hst : CommStep W C s l s') :
    Simulated W C v K a l s' := by
  cases l with
  | inside t => exact .silent (h.step_inside hst) rfl
  | core t =>
      cases hst with
      | core _ core' hpc hmove =>
          refine .silent { h with core := h.core.of_move hmove, phase := fun u => ?_ } rfl
          have hph := h.phase u
          by_cases hu : u = t
          · subst hu
            rw [hpc] at hph ⊢
            exact hph
          · show (s.call u).Phase C (core'.luaOf W u) (a.phase u)
            rw [hmove.luaOf_eq hu]
            exact hph
  | invoke t w args =>
      cases hst with
      | invoke _ l f _ _ hpc hlua hf =>
          have hph := h.phase t
          rw [hpc] at hph
          refine ⟨_, .invoke t (w, args) hph, ?_⟩
          refine h.of_outside (t := t) (d := .entered l args) (by rw [hpc]; rfl) rfl rfl rfl rfl
            rfl rfl rfl rfl (fun u hu => Function.update_of_ne hu _ _) ⟨f, w, hlua, hf, ?_⟩
          exact Function.update_self t _ a.phase
  | commit t w args r =>
      cases hst with
      | reject _ l _ _ e hpc hw he =>
          have hph := h.phase t
          rw [hpc] at hph
          obtain ⟨f, w', hlua, hf, hph⟩ := hph
          cases hw.symm.trans (h.core.communicateWidget_eq hlua hf)
          have hcommit := Atomic.Step.commit (O := strings C v) t (w, args) hph
          rw [strings_apply_error he] at hcommit
          refine ⟨_, hcommit, ?_⟩
          refine h.of_outside (t := t) (d := .returning (.error e)) (by rw [hpc]; rfl) rfl rfl rfl
            rfl rfl rfl rfl rfl (fun u hu => Function.update_of_ne hu _ _) ?_
          exact Function.update_self t _ a.phase
      | unlock _ c r hpc =>
          have hin : (s.call t).inside = some c := by rw [hpc]; rfl
          obtain ⟨hph, hparse⟩ := (CallPc.phase_of_inside hin).mp (h.phase t)
          obtain ⟨v', happly, hinv⟩ := h.of_unlock hpc
          have hcommit := Atomic.Step.commit (O := strings C v) t (c.w, c.args) hph
          rw [strings_apply_ok hparse, happly] at hcommit
          exact ⟨_, hcommit, hinv⟩
  | thrown t w args e =>
      cases hst with
      | throw _ c _ hpc hpushes =>
          have hph := h.phase t
          rw [hpc] at hph
          obtain ⟨hph, hparse⟩ := hph
          have hfail := Atomic.Step.fail (O := strings C v) t (c.w, c.args) (.error e) hph
            ⟨_, e, hparse, hpushes, rfl⟩
          refine ⟨_, hfail, ?_⟩
          exact h.of_keeps (d := .returning (.error e)) hpc rfl rfl
            (fun u hu => Function.update_of_ne hu _ _) (Function.update_self t _ a.phase)
  | reentered t =>
      cases hst with
      | reenter _ c hpc hpushes =>
          have hph := h.phase t
          rw [hpc] at hph
          exact .silent (h.of_keeps (d := .relocking c) hpc rfl rfl (fun _ _ => rfl) hph) rfl
  | respond t r =>
      cases hst with
      | respond _ _ hpc =>
          have hph := h.phase t
          rw [hpc] at hph
          refine ⟨_, .respond t r hph, ?_⟩
          refine h.of_outside (t := t) (d := .out) (by rw [hpc]; rfl) rfl rfl rfl rfl rfl
            rfl rfl rfl (fun u hu => Function.update_of_ne hu _ _) ?_
          exact Function.update_self t _ a.phase

theorem CommInv.of_hist {h : List (CommLabel n F)} (hs : (commMachine A W C v).Hist h s) :
    ∃ a, (spec C v).Hist (h.filterMap CommLabel.observed) a ∧ CommInv W C (keptMutex h) s a :=
  hs.simulate (R := fun h s a => CommInv W C (keptMutex h) s a)
    (fun _ hs => ⟨_, rfl, .loaded C hs⟩) fun _ s l t _ hR hst =>
      hR.step (show s.core.Alive ∧ s.fault = false ∧ CommStep W C s l t from hst).2.2

/-! ## Every call is atomic -/

/-- Every history of the machine, under every interleaving of its threads, is one of the atomic
object: each call takes effect at one moment between its invocation and its response, on the string
of the widget whose function makes it, or has no effect if `lua_pushlstring` throws.  No access is
invalid, every string on the heap belongs to exactly one widget, and a string nobody is working on
is stored as the operations so far have left it. -/
theorem communicate_atomic {h : List (CommLabel n F)} (hs : (commMachine A W C v).Hist h s) :
    (∃ a, (spec C v).Hist (h.filterMap CommLabel.observed) a) ∧
    s.fault = false ∧
    (∀ p, s.heap p ≠ none → ∃! w, (s.comm w).data = some p) ∧
    ∀ w, (∀ t c, (s.call t).inside = some c → c.w ≠ w) →
      (s.comm w).Holds s.heap ((strings C v).after (h.filterMap CommLabel.observed) w) := by
  obtain ⟨a, ha, hinv⟩ := CommInv.of_hist hs
  refine ⟨⟨a, ha⟩, hinv.noFault, fun p hp => ?_, fun w hw => ?_⟩
  · obtain ⟨w, hw⟩ := hinv.noLeak p hp
    exact ⟨w, hw, fun w' hw' => hinv.unshared w' w p hw' hw hp⟩
  · rw [← Atomic.value_eq ha]
    exact hinv.holds w hw

/-- A write by an event function in the separate state. -/
theorem communicate_atomic_write :
    ∃ (C : Coercions Unit) (h : List (CommLabel 1 Unit)) (s : CommState 1 Unit Nat),
      (commMachine Nat (fun _ => widgetInitInspectEvent .string) C fun _ => []).Hist h s ∧
        (s.comm 0).Holds s.heap (lit "on") := by
  let C : Coercions Unit := { toString := fun _ => [48], ofString := fun _ => none }
  let W : Fin 1 → Widget := fun _ => widgetInitInspectEvent .string
  let args : List (CallArg Unit) := [.string (lit "write"), .string (lit "on")]
  have hargs : parseAction C args = .ok (.write (lit "on")) := rfl
  have h0 : (commMachine Nat W C fun _ => []).Hist [] (CommState.initial Unit Nat W) :=
    .init (CommState.loaded_initial Unit Nat W)
  have h1 := h0.step ⟨⟨rfl, rfl⟩, rfl, .core .ew _ rfl (.ewBegin 0 rfl rfl)⟩
  have h2 := h1.step ⟨⟨rfl, rfl⟩, rfl, .core .ew _ rfl (.ewBegun 0 rfl)⟩
  have h3 := h2.step ⟨⟨rfl, rfl⟩, rfl, .core .ew _ rfl (.ewPush 0 0 rfl)⟩
  have h4 := h3.step ⟨⟨rfl, rfl⟩, rfl,
    .core .ew _ rfl (.ewEnd 0 .value (.event 0) [.errorHandler] rfl (by decide) rfl)⟩
  have h5 := h4.step ⟨⟨rfl, rfl⟩, rfl, .invoke .ew .sep (.event 0) 0 args rfl rfl rfl⟩
  have h6 := h5.step ⟨⟨rfl, rfl⟩, rfl, .accept .ew .sep args 0 _ rfl rfl hargs⟩
  have h7 := h6.step ⟨⟨rfl, rfl⟩, rfl, .lock .ew _ rfl rfl⟩
  have h8 := h7.step ⟨⟨rfl, rfl⟩, rfl, .write .ew _ _ rfl rfl⟩
  have h9 := h8.step ⟨⟨rfl, rfl⟩, rfl, .free .ew _ _ _ rfl⟩
  have h10 := h9.step ⟨⟨rfl, rfl⟩, rfl, .dup .ew _ _ _ 7 rfl rfl⟩
  have h11 := h10.step ⟨⟨rfl, rfl⟩, rfl, .measure .ew _ _ _ rfl⟩
  have h12 := h11.step ⟨⟨rfl, rfl⟩, rfl, .unlock .ew _ _ rfl⟩
  obtain ⟨-, -, -, hholds⟩ := communicate_atomic h12
  refine ⟨C, _, _, h12, hholds 0 fun t c hin => ?_⟩
  cases t <;> cases hin

/-! ## The mutex -/

/-- At most one thread moves, and it gets into the lock of a finalizer only by keeping the mutex. -/
theorem CommStep.call_cases (hst : CommStep W C s l s') :
    s'.call = s.call ∨ ∃ d, s'.call = Function.update s.call l.thread d ∧
      ∀ c, d = .relocking c → l.keepsMutex l.thread = true := by
  cases hst with
  | core | noWidget | outOfMemory => exact .inl rfl
  | read u c hpc hk =>
      cases (s.comm c.w).bytes s.heap with
      | none => exact .inl rfl
      | some v => exact .inr ⟨_, rfl, fun _ h => by cases h⟩
  | readAndClear u c hpc hk =>
      cases (s.comm c.w).bytes s.heap with
      | none => exact .inl rfl
      | some v => exact .inr ⟨_, rfl, fun _ h => by cases h⟩
  | cas u c old new hpc hk =>
      cases (s.comm c.w).matches s.heap old with
      | none => exact .inl rfl
      | some ok => cases ok <;> exact .inr ⟨_, rfl, fun _ h => by cases h⟩
  | free u c new r hpc =>
      split
      · exact .inr ⟨_, rfl, fun _ h => by cases h⟩
      · split
        · exact .inl rfl
        · exact .inr ⟨_, rfl, fun _ h => by cases h⟩
  | reenter u c hpc hk => exact .inr ⟨_, rfl, fun _ _ => decide_eq_true rfl⟩
  | _ => exact .inr ⟨_, rfl, fun _ h => by cases h⟩

/-- A step of another thread. -/
theorem CommStep.call_eq (hst : CommStep W C s l s') (ht : t ≠ l.thread) :
    s'.call t = s.call t := by
  rcases hst.call_cases with hcall | ⟨d, hcall, -⟩
  · rw [hcall]
  · rw [hcall, Function.update_of_ne ht]

/-- A thread is in the lock of a finalizer only if it has kept the mutex. -/
theorem keptMutex_of_relocking {h : List (CommLabel n F)} (hs : (commMachine A W C v).Hist h s)
    (hpc : s.call t = .relocking c) : keptMutex h t = true := by
  refine hs.invariant (P := fun h s => ∀ t c, s.call t = .relocking c → keptMutex h t = true)
    (fun s hi t c hpc => ?_) (fun h s l s' _ ih hst t c hpc => ?_) t c hpc
  · have hout : s.call t = .out := CommState.Loaded.call hi t
    cases hout.symm.trans hpc
  · have hold (hpc : s.call t = .relocking c) : keptMutex (l :: h) t = true := by
      rw [keptMutex, List.any_cons, Bool.or_eq_true]
      exact .inr (ih t c hpc)
    rcases hst.2.2.call_cases with hcall | ⟨d, hcall, hd⟩
    · exact hold (hcall ▸ hpc)
    · rw [hcall] at hpc
      by_cases ht : t = l.thread
      · subst ht
        rw [Function.update_self] at hpc
        rw [keptMutex, List.any_cons, hd c hpc, Bool.true_or]
      · rw [Function.update_of_ne ht] at hpc
        exact hold hpc

/-- The thread can go on in its call, and the program does not end with that. -/
def GoesOn (W : Fin n → Widget) (C : Coercions F) (s : CommState n F A) (t : Thread n) : Prop :=
  ∃ l s', CommStep W C s l s' ∧ l.thread = t ∧ l.goesOn = true ∧ s'.core = s.core

/-- A thread in its critical section can go on, if there is memory for a string. -/
theorem CommInv.goesOn_of_inside (h : CommInv W C K s a) (hin : (s.call t).inside = some c)
    (hfree : ∃ p, s.heap p = none) : GoesOn W C s t := by
  cases hpc : s.call t with
  | locked k =>
      have hv : (s.comm k.w).Holds s.heap (a.value k.w) := (h.of_locked hpc).2
      cases hk : k.action with
      | read =>
          refine ⟨_, _, .read t k hpc hk, rfl, rfl, ?_⟩
          rw [hv.bytes, CommState.reading_some]
          rfl
      | readAndClear =>
          refine ⟨_, _, .readAndClear t k hpc hk, rfl, rfl, ?_⟩
          rw [hv.bytes, CommState.reading_some]
          rfl
      | write new => exact ⟨_, _, .write t k new hpc hk, rfl, rfl, rfl⟩
      | cas old new =>
          refine ⟨_, _, .cas t k old new hpc hk, rfl, rfl, ?_⟩
          rw [hv.matches, CommState.reading_some]
          split <;> rfl
  | freeing k new r =>
      refine ⟨_, _, .free t k new r hpc, rfl, rfl, ?_⟩
      split
      · rfl
      · split <;> rfl
  | duplicating k new r =>
      obtain ⟨p, hp⟩ := hfree
      exact ⟨_, _, .dup t k new r p hpc hp, rfl, rfl, rfl⟩
  | measuring k new r => exact ⟨_, _, .measure t k new r hpc, rfl, rfl, rfl⟩
  | unlocking k r => exact ⟨_, _, .unlock t k r hpc, rfl, rfl, rfl⟩
  | _ => cases hpc ▸ hin

/-- A thread in a call can go on, or it waits for the mutex and the thread that has it can go on. -/
theorem CommInv.goesOn (h : CommInv W C K s a) (ht : s.call t ≠ .out) (hK : ∀ u, K u = false)
    (hpc : ∀ c, s.call t ≠ .relocking c) (hfree : ∃ p, s.heap p = none) :
    GoesOn W C s t ∨ ∃ u c, s.call t = .locking c ∧ s.mtx = some u ∧ GoesOn W C s u := by
  have hph := h.phase t
  cases hpc' : s.call t with
  | out => exact absurd hpc' ht
  | entered l args =>
      rw [hpc'] at hph
      obtain ⟨f, w, hlua, hf, -⟩ := hph
      have hw := h.core.communicateWidget_eq hlua hf
      cases hparse : parseAction C args with
      | error e => exact .inl ⟨_, _, .reject t l args w e hpc' hw hparse, rfl, rfl, rfl⟩
      | ok k => exact .inl ⟨_, _, .accept t l args w k hpc' hw hparse, rfl, rfl, rfl⟩
  | locking c =>
      cases hm : s.mtx with
      | none => exact .inl ⟨_, _, .lock t c hpc' hm, rfl, rfl, rfl⟩
      | some u =>
          have hu := (h.excl u).mp hm
          simp only [hK, Bool.or_false, Option.isSome_iff_exists] at hu
          obtain ⟨c', hc'⟩ := hu
          exact .inr ⟨u, c, rfl, rfl, h.goesOn_of_inside hc' hfree⟩
  | relocking c => exact absurd hpc' (hpc c)
  | returning r => exact .inl ⟨_, _, .respond t r hpc', rfl, rfl, rfl⟩
  | _ => exact .inl (h.goesOn_of_inside (t := t) (by rw [hpc']; rfl) hfree)

/-- What the mutex guards stays as it is, and who waits for the mutex still does. -/
structure Stuck (s s' : CommState n F A) : Prop where
  mtx : s'.mtx = s.mtx
  comm : s'.comm = s.comm
  heap : s'.heap = s.heap
  locking : ∀ t c, s.call t = .locking c → s'.call t = .locking c
  relocking : ∀ t c, s.call t = .relocking c → s'.call t = .relocking c

theorem Stuck.of_step (hst : CommStep W C s l s') (hpc : s.call l.thread = d)
    (hd : ∀ c, d ≠ .locking c ∧ d ≠ .relocking c) (hmtx : s'.mtx = s.mtx)
    (hcomm : s'.comm = s.comm) (hheap : s'.heap = s.heap) : Stuck s s' where
  mtx := hmtx
  comm := hcomm
  heap := hheap
  locking t c ht := by
    refine (hst.call_eq ?_).trans ht
    rintro rfl
    exact (hd c).1 (hpc.symm.trans ht)
  relocking t c ht := by
    refine (hst.call_eq ?_).trans ht
    rintro rfl
    exact (hd c).2 (hpc.symm.trans ht)

theorem CommInv.stuck (h : CommInv W C K s a) (hu : K u = true) (hst : CommStep W C s l s') :
    Stuck s s' := by
  obtain ⟨hmtx, hnone⟩ := h.of_kept hu
  have hinside {t : Thread n} {d : CallPc n F} (hpc : s.call t = d) (hd : d.inside ≠ none) :
      Stuck s s' :=
    absurd (hnone t) (hpc ▸ hd)
  have hstep := hst
  cases hst with
  | core t core' hpc => exact .of_step hstep hpc (fun _ => ⟨nofun, nofun⟩) rfl rfl rfl
  | invoke t l f w args hpc => exact .of_step hstep hpc (fun _ => ⟨nofun, nofun⟩) rfl rfl rfl
  | noWidget t l args hpc => exact .of_step hstep hpc (fun _ => ⟨nofun, nofun⟩) rfl rfl rfl
  | reject t l args w e hpc => exact .of_step hstep hpc (fun _ => ⟨nofun, nofun⟩) rfl rfl rfl
  | accept t l args w k hpc => exact .of_step hstep hpc (fun _ => ⟨nofun, nofun⟩) rfl rfl rfl
  | respond t r hpc => exact .of_step hstep hpc (fun _ => ⟨nofun, nofun⟩) rfl rfl rfl
  | lock t c hpc hfree => cases hmtx.symm.trans hfree
  | read t c hpc => exact hinside hpc nofun
  | readAndClear t c hpc => exact hinside hpc nofun
  | throw t c e hpc => exact hinside hpc nofun
  | reenter t c hpc => exact hinside hpc nofun
  | write t c new hpc => exact hinside hpc nofun
  | cas t c old new hpc => exact hinside hpc nofun
  | free t c new r hpc => exact hinside hpc nofun
  | dup t c new r p hpc => exact hinside hpc nofun
  | dupNull t c r hpc => exact hinside hpc nofun
  | outOfMemory t c new r hpc => exact hinside hpc nofun
  | measure t c new r hpc => exact hinside hpc nofun
  | unlock t c r hpc => exact hinside hpc nofun

/-- As long as `lua_pushlstring` returns, nobody is stuck in a call: a thread that is in one can go
on, or it waits for the mutex and the thread that has it can go on; that is so if there is memory
for a string, and no such step ends the program.  But once an error was thrown past `comm_unlock`,
or a finalizer calls `luastatus.communicate`, the mutex stays locked: no string changes any more,
and whoever waits for the mutex does so for ever. -/
theorem communicate_progress {h : List (CommLabel n F)} (hs : (commMachine A W C v).Hist h s) :
    ((∀ u, keptMutex h u = false) → ∀ t, s.call t ≠ .out → (∃ p, s.heap p = none) →
      GoesOn W C s t ∨ ∃ u c, s.call t = .locking c ∧ s.mtx = some u ∧ GoesOn W C s u) ∧
    ∀ u, keptMutex h u = true →
      s.mtx = some u ∧ ∀ l s', (commMachine A W C v).step s l s' → Stuck s s' := by
  obtain ⟨a, -, ha⟩ := CommInv.of_hist hs
  refine ⟨fun hkept t ht hfree => ha.goesOn ht hkept (fun c hpc => ?_) hfree,
    fun u hu => ⟨(ha.of_kept hu).1, fun l s' hst => ha.stuck hu hst.2.2⟩⟩
  cases (hkept t).symm.trans (keptMutex_of_relocking hs hpc)

/-- A call by an event function in the separate state, and one whose string cannot be pushed. -/
theorem communicate_progress_read :
    ∃ (C : Coercions Unit) (W : Fin 1 → Widget) (h h' : List (CommLabel 1 Unit))
      (s s' : CommState 1 Unit Nat),
      (commMachine Nat W C fun _ => []).Hist h s ∧
        s.call .ew = .entered .sep [.string (lit "read")] ∧ GoesOn W C s .ew ∧
      (commMachine Nat W C fun _ => []).Hist h' s' ∧ s'.call .ew = .out ∧ s'.mtx = some .ew := by
  let C : Coercions Unit := { toString := fun _ => [48], ofString := fun _ => none }
  let W : Fin 1 → Widget := fun _ => widgetInitInspectEvent .string
  let args : List (CallArg Unit) := [.string (lit "read")]
  have hargs : parseAction C args = .ok .read := rfl
  have h0 : (commMachine Nat W C fun _ => []).Hist [] (CommState.initial Unit Nat W) :=
    .init (CommState.loaded_initial Unit Nat W)
  have h1 := h0.step ⟨⟨rfl, rfl⟩, rfl, .core .ew _ rfl (.ewBegin 0 rfl rfl)⟩
  have h2 := h1.step ⟨⟨rfl, rfl⟩, rfl, .core .ew _ rfl (.ewBegun 0 rfl)⟩
  have h3 := h2.step ⟨⟨rfl, rfl⟩, rfl, .core .ew _ rfl (.ewPush 0 0 rfl)⟩
  have h4 := h3.step ⟨⟨rfl, rfl⟩, rfl,
    .core .ew _ rfl (.ewEnd 0 .value (.event 0) [.errorHandler] rfl (by decide) rfl)⟩
  have h5 := h4.step ⟨⟨rfl, rfl⟩, rfl, .invoke .ew .sep (.event 0) 0 args rfl rfl rfl⟩
  have h6 := h5.step ⟨⟨rfl, rfl⟩, rfl, .accept .ew .sep args 0 _ rfl rfl hargs⟩
  have h7 := h6.step ⟨⟨rfl, rfl⟩, rfl, .lock .ew _ rfl rfl⟩
  have h8 := h7.step ⟨⟨rfl, rfl⟩, rfl, .throw .ew _ (.error (lit "not enough memory")) rfl rfl⟩
  have h9 := h8.step ⟨⟨rfl, rfl⟩, rfl, .respond .ew _ rfl⟩
  have hgoes := (communicate_progress h5).1 (fun _ => rfl) .ew nofun ⟨0, rfl⟩
  refine ⟨C, W, _, _, _, _, h5, rfl, hgoes.resolve_right ?_, h9, rfl,
    ((communicate_progress h9).2 .ew rfl).1⟩
  rintro ⟨u, c, hpc, -⟩
  cases hpc

end Steps

end Luastatus.Core

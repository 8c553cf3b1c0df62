import Luastatus.Core.Machine

/-!
# The callback protocol

Every Lua stack is governed by its mutex.  While the mutex is free, the stack holds the error
handler and nothing else.  While a thread holds it, the stack has the shape the thread's program
counter calls for (`PluginPc.Shape`, `EwPc.Shape`), since nobody else can touch it.  The thread
that holds a mutex is the one whose program counter is inside a cycle on it (`State.Holds`), which
is what makes the two kinds of shape exclusive: a widget's own state is entered both by its plugin
thread and by the event watcher.

`Inv` says this, and that `sepstate.cur_w` is the widget of the event watcher's cycle exactly from
`possibly_sepstate_call_begin` to `possibly_sepstate_call_end`.

A move changes the program counter of one thread.  It happens inside a cycle of the thread, or it
enters one, leaves one, or happens outside of any.  One lemma per kind says that `Inv` survives.
-/

namespace Luastatus.Core

variable {n : Nat} {W : Fin n → Widget} {s s' : State n}

/-! ## Stacks -/

@[simp] theorem setTop_one_append (st : LuaStack n) (x : Slot n) : setTop 1 (st ++ [x]) = [x] := by
  simp [setTop]

@[simp] theorem setTop_one_append_pair (st : LuaStack n) (x y : Slot n) :
    setTop 1 (st ++ [x, y]) = [y] := by
  have h := setTop_one_append (st ++ [x]) y
  rwa [List.append_assoc] at h

/-! ## Cycles -/

/-- The widget thread holds its Lua mutex. -/
def PluginPc.inCycle : PluginPc n → Bool
  | .idle | .finishing | .finishingError | .done => false
  | _ => true

/-- What the stack of a widget's own state looks like in a cycle of its thread. -/
def PluginPc.Shape (i : Fin n) : PluginPc n → LuaStack n → Prop
  | .opened k, st => st = List.replicate k .value ++ [.cb i, .errorHandler]
  | .running f, st => f = .cb i ∧ st = [.errorHandler]
  | .returned true, st => st = [.value, .errorHandler]
  | .setting true, st => st = [.value, .errorHandler]
  | .settingError true, st => ∃ st', st = st' ++ [.errorHandler]
  | .shown true, st => ∃ st', st = st' ++ [.errorHandler]
  | _, st => st = [.errorHandler]

/-- The widget whose event the event watcher handles. -/
def EwPc.widget : EwPc n → Option (Fin n)
  | .idle | .done => none
  | .begun i | .opened i _ | .running i _ | .failed i | .failedError i | .leaving i => some i

/-- What the stack looks like in a cycle of the event watcher. -/
def EwPc.Shape (W : Fin n → Widget) : EwPc n → LuaStack n → Prop
  | .opened i k, st => st = List.replicate k .value ++ [eventSlot W i, .errorHandler]
  | .running i f, st => f = .event i ∧ st = [.errorHandler]
  | _, st => st = [.errorHandler]

/-- What `sepstate.cur_w` is. -/
def EwPc.curW (W : Fin n → Widget) : EwPc n → Option (Fin n)
  | .idle | .done | .begun _ => none
  | .opened i _ | .running i _ | .failed i | .failedError i | .leaving i =>
      if (W i).sepstateEvent then some i else none

/-- The thread `t` is in a cycle on the Lua state `l`. -/
def State.Holds (W : Fin n → Widget) (s : State n) : Thread n → LuaId n → Prop
  | .plugin i, l => (s.plugin i).inCycle = true ∧ l = .own i
  | .ew, l => ∃ i, s.ew.widget = some i ∧ l = widgetEventLuaState W i

/-! ## The invariant -/

/-- The invariant of the callback machine. -/
structure Inv (W : Fin n → Widget) (s : State n) : Prop where
  noFailure : s.assertFailed = false
  holder : ∀ t l, s.mtx l = some t ↔ s.Holds W t l
  free : ∀ l, s.mtx l = none → s.stack l = [.errorHandler]
  pluginShape : ∀ i, (s.plugin i).inCycle = true → (s.plugin i).Shape i (s.stack (.own i))
  ewShape : ∀ i, s.ew.widget = some i → s.ew.Shape W (s.stack (widgetEventLuaState W i))
  curW : s.curW = s.ew.curW W

theorem Inv.initial : Inv W (State.initial W) := by
  have hout : ∀ i, ((State.initial W).plugin i).inCycle = false := by
    intro i
    simp only [State.initial]
    split <;> rfl
  refine ⟨rfl, fun t l => ?_, fun _ _ => rfl, fun i h => ?_, fun i h => ?_, rfl⟩
  · cases t with
    | plugin i =>
        simp only [State.Holds, hout]
        simp [State.initial]
    | ew => simp [State.Holds, State.initial, EwPc.widget]
  · rw [hout] at h
    cases h
  · cases h

/-- A thread in a cycle on a Lua state excludes every other thread from it. -/
theorem Inv.holder_unique (h : Inv W s) {t u : Thread n} {l : LuaId n}
    (ht : s.Holds W t l) (hu : s.Holds W u l) : t = u := by
  have h1 := (h.holder t l).mpr ht
  have h2 := (h.holder u l).mpr hu
  rw [h1] at h2
  exact Option.some.inj h2

/-- In a cycle of its own thread, a widget's state is not the one the event watcher is in. -/
theorem Inv.event_state_ne_own (h : Inv W s) {i j : Fin n} (hi : (s.plugin i).inCycle = true)
    (hj : s.ew.widget = some j) : widgetEventLuaState W j ≠ .own i := by
  intro he
  have := h.holder_unique (t := .plugin i) (u := .ew) ⟨hi, rfl⟩ ⟨j, hj, he.symm⟩
  cases this

/-! ## Moves of a widget thread -/

/-- What a move of the thread of the widget `i` leaves alone, with `p` and `r` the new program
counter and the new stack of the widget's own state. -/
structure PluginFrame (i : Fin n) (p : PluginPc n) (r : LuaStack n) (s s' : State n) :
    Prop where
  stack : s'.stack = Function.update s.stack (.own i) r
  plugin : s'.plugin = Function.update s.plugin i p
  ew : s'.ew = s.ew
  curW : s'.curW = s.curW
  assertFailed : s'.assertFailed = s.assertFailed

section Plugin

variable {i : Fin n} {p : PluginPc n} {r : LuaStack n}

/-- Holding depends on the program counters only. -/
theorem PluginFrame.holds_iff (f : PluginFrame i p r s s')
    (hpc : p.inCycle = (s.plugin i).inCycle) (t : Thread n) (l : LuaId n) :
    s'.Holds W t l ↔ s.Holds W t l := by
  cases t with
  | ew => simp only [State.Holds, f.ew]
  | plugin j =>
      by_cases hj : j = i
      · subst hj
        simp only [State.Holds, f.plugin, Function.update_self, hpc]
      · simp only [State.Holds, f.plugin, Function.update_of_ne hj]

/-- The frame of a move that does not touch the stack. -/
theorem PluginFrame.of_stack_eq (hs : s'.stack = s.stack)
    (hp : s'.plugin = Function.update s.plugin i p) (he : s'.ew = s.ew)
    (hc : s'.curW = s.curW) (ha : s'.assertFailed = s.assertFailed) :
    PluginFrame i p (s.stack (.own i)) s s' :=
  ⟨by rw [hs, Function.update_eq_self], hp, he, hc, ha⟩

/-- The part of the invariant that does not speak of who holds what. -/
theorem Inv.plugin_move (h : Inv W s) (f : PluginFrame i p r s s')
    (hholder : ∀ t l, s'.mtx l = some t ↔ s'.Holds W t l)
    (hmtx : ∀ l, l ≠ .own i → s'.mtx l = s.mtx l)
    (hfree : s'.mtx (.own i) = none → r = [.errorHandler])
    (hshape : p.inCycle = true → p.Shape i r)
    (hst : (s.plugin i).inCycle = true ∨ r = s.stack (.own i)) : Inv W s' where
  noFailure := by rw [f.assertFailed, h.noFailure]
  holder := hholder
  free l hl := by
    by_cases hli : l = .own i
    · subst hli
      rw [f.stack, Function.update_self, hfree hl]
    · rw [hmtx l hli] at hl
      rw [f.stack, Function.update_of_ne hli]
      exact h.free l hl
  pluginShape j hj := by
    by_cases hji : j = i
    · subst hji
      rw [f.plugin, Function.update_self] at hj ⊢
      rw [f.stack, Function.update_self]
      exact hshape hj
    · rw [f.plugin, Function.update_of_ne hji] at hj ⊢
      rw [f.stack, Function.update_of_ne (fun e => hji (LuaId.own.inj e))]
      exact h.pluginShape j hj
  ewShape j hj := by
    rw [f.ew] at hj ⊢
    rw [f.stack]
    cases hst with
    | inl hin =>
        rw [Function.update_of_ne (h.event_state_ne_own hin hj)]
        exact h.ewShape j hj
    | inr heq =>
        rw [heq, Function.update_eq_self]
        exact h.ewShape j hj
  curW := by rw [f.curW, f.ew, h.curW]

/-- A move of a widget thread inside a cycle. -/
theorem Inv.plugin_inside (h : Inv W s) (f : PluginFrame i p r s s')
    (hin : (s.plugin i).inCycle = true) (hin' : p.inCycle = true) (hst : p.Shape i r)
    (hmtx : s'.mtx = s.mtx) : Inv W s' := by
  refine h.plugin_move f (fun t l => ?_) (fun l _ => by rw [hmtx]) (fun hl => ?_) (fun _ => hst)
    (.inl hin)
  · rw [hmtx, h.holder t l, f.holds_iff (hin'.trans hin.symm)]
  · rw [hmtx, (h.holder (.plugin i) _).mpr ⟨hin, rfl⟩] at hl
    cases hl

/-- A move of a widget thread outside of any cycle. -/
theorem Inv.plugin_outside (h : Inv W s) (f : PluginFrame i p (s.stack (.own i)) s s')
    (hout : (s.plugin i).inCycle = false) (hout' : p.inCycle = false)
    (hmtx : s'.mtx = s.mtx) : Inv W s' := by
  refine h.plugin_move f (fun t l => ?_) (fun l _ => by rw [hmtx]) (fun hl => ?_) (fun hin => ?_)
    (.inr rfl)
  · rw [hmtx, h.holder t l, f.holds_iff (hout'.trans hout.symm)]
  · rw [hmtx] at hl
    exact h.free _ hl
  · rw [hout'] at hin
    cases hin

/-- A move of a widget thread that enters a cycle. -/
theorem Inv.plugin_enter (h : Inv W s) (f : PluginFrame i p (s.stack (.own i)) s s')
    (hfree : s.mtx (.own i) = none) (hin' : p.inCycle = true)
    (hst : p.Shape i [.errorHandler])
    (hmtx : s'.mtx = Function.update s.mtx (.own i) (some (.plugin i))) : Inv W s' := by
  refine h.plugin_move f (fun t l => ?_) (fun l hl => by rw [hmtx, Function.update_of_ne hl])
    (fun hl => ?_) (fun _ => ?_) (.inr rfl)
  · have hold := h.holder t l
    by_cases hl : l = .own i
    · subst hl
      rw [hmtx, Function.update_self]
      rw [hfree] at hold
      cases t with
      | ew =>
          simp only [State.Holds, f.ew] at hold ⊢
          rw [← hold]
          simp
      | plugin j =>
          by_cases hj : j = i
          · subst hj
            simp [State.Holds, f.plugin, hin']
          · simp [State.Holds, Ne.symm hj]
    · rw [hmtx, Function.update_of_ne hl, hold]
      cases t with
      | ew => simp only [State.Holds, f.ew]
      | plugin j =>
          by_cases hj : j = i
          · subst hj
            simp [State.Holds, hl]
          · simp only [State.Holds, f.plugin, Function.update_of_ne hj]
  · rw [hmtx, Function.update_self] at hl
    cases hl
  · rw [h.free _ hfree]
    exact hst

/-- A move of a widget thread that leaves a cycle. -/
theorem Inv.plugin_leave (h : Inv W s) (f : PluginFrame i p (s.stack (.own i)) s s')
    (hin : (s.plugin i).inCycle = true) (hout' : p.inCycle = false)
    (hst : s.stack (.own i) = [.errorHandler])
    (hmtx : s'.mtx = Function.update s.mtx (.own i) none) : Inv W s' := by
  refine h.plugin_move f (fun t l => ?_) (fun l hl => by rw [hmtx, Function.update_of_ne hl])
    (fun _ => hst) (fun hin' => ?_) (.inr rfl)
  · by_cases hl : l = .own i
    · subst hl
      rw [hmtx, Function.update_self]
      cases t with
      | ew =>
          simp only [State.Holds, f.ew, reduceCtorEq, false_iff]
          rintro ⟨j, hj, hjl⟩
          exact h.event_state_ne_own hin hj hjl.symm
      | plugin j =>
          simp only [State.Holds, f.plugin, reduceCtorEq, false_iff]
          rintro ⟨hj, hjl⟩
          obtain rfl := LuaId.own.inj hjl
          rw [Function.update_self, hout'] at hj
          cases hj
    · rw [hmtx, Function.update_of_ne hl, h.holder t l]
      cases t with
      | ew => simp only [State.Holds, f.ew]
      | plugin j =>
          by_cases hj : j = i
          · subst hj
            simp [State.Holds, hl]
          · simp only [State.Holds, f.plugin, Function.update_of_ne hj]
  · rw [hout'] at hin'
    cases hin'

end Plugin

/-! ## Moves of the event watcher -/

/-- What a move of the event watcher leaves alone, with `p` and `r` the new program counter and
the new stack of the Lua state that the events of the widget `i` go to. -/
structure EwFrame (W : Fin n → Widget) (i : Fin n) (p : EwPc n) (r : LuaStack n)
    (s s' : State n) : Prop where
  stack : s'.stack = Function.update s.stack (widgetEventLuaState W i) r
  ew : s'.ew = p
  plugin : s'.plugin = s.plugin
  curW : s'.curW = p.curW W
  assertFailed : s'.assertFailed = s.assertFailed

section Ew

variable {i : Fin n} {p : EwPc n} {r : LuaStack n}

/-- The frame of a move that does not touch the stack. -/
theorem EwFrame.of_stack_eq (hs : s'.stack = s.stack) (he : s'.ew = p)
    (hp : s'.plugin = s.plugin) (hc : s'.curW = p.curW W)
    (ha : s'.assertFailed = s.assertFailed) :
    EwFrame W i p (s.stack (widgetEventLuaState W i)) s s' :=
  ⟨by rw [hs, Function.update_eq_self], he, hp, hc, ha⟩

/-- The part of the invariant that does not speak of who holds what. -/
theorem Inv.ew_move (h : Inv W s) (f : EwFrame W i p r s s')
    (hholder : ∀ t l, s'.mtx l = some t ↔ s'.Holds W t l)
    (hmtx : ∀ l, l ≠ widgetEventLuaState W i → s'.mtx l = s.mtx l)
    (hfree : s'.mtx (widgetEventLuaState W i) = none → r = [.errorHandler])
    (hshape : ∀ j, p.widget = some j → j = i ∧ p.Shape W r)
    (hst : s.ew.widget = some i ∨ r = s.stack (widgetEventLuaState W i)) : Inv W s' where
  noFailure := by rw [f.assertFailed, h.noFailure]
  holder := hholder
  free l hl := by
    by_cases hli : l = widgetEventLuaState W i
    · subst hli
      rw [f.stack, Function.update_self, hfree hl]
    · rw [hmtx l hli] at hl
      rw [f.stack, Function.update_of_ne hli]
      exact h.free l hl
  pluginShape j hj := by
    rw [f.plugin] at hj ⊢
    rw [f.stack]
    cases hst with
    | inl hin =>
        rw [Function.update_of_ne (h.event_state_ne_own hj hin).symm]
        exact h.pluginShape j hj
    | inr heq =>
        rw [heq, Function.update_eq_self]
        exact h.pluginShape j hj
  ewShape j hj := by
    rw [f.ew] at hj ⊢
    obtain ⟨rfl, hs⟩ := hshape j hj
    rwa [f.stack, Function.update_self]
  curW := by rw [f.curW, f.ew]

/-- A move of the event watcher inside a cycle. -/
theorem Inv.ew_inside (h : Inv W s) (f : EwFrame W i p r s s')
    (hin : s.ew.widget = some i) (hin' : p.widget = some i) (hst : p.Shape W r)
    (hmtx : s'.mtx = s.mtx) : Inv W s' := by
  refine h.ew_move f (fun t l => ?_) (fun l _ => by rw [hmtx]) (fun hl => ?_) (fun j hj => ?_)
    (.inl hin)
  · rw [hmtx, h.holder t l]
    cases t with
    | ew => simp only [State.Holds, f.ew, hin, hin']
    | plugin j => simp only [State.Holds, f.plugin]
  · rw [hmtx, (h.holder .ew _).mpr ⟨i, hin, rfl⟩] at hl
    cases hl
  · rw [hin'] at hj
    exact ⟨(Option.some.inj hj).symm, hst⟩

/-- A move of the event watcher that enters a cycle. -/
theorem Inv.ew_enter (h : Inv W s)
    (f : EwFrame W i p (s.stack (widgetEventLuaState W i)) s s')
    (hout : s.ew.widget = none) (hin' : p.widget = some i)
    (hfree : s.mtx (widgetEventLuaState W i) = none) (hst : p.Shape W [.errorHandler])
    (hmtx : s'.mtx = Function.update s.mtx (widgetEventLuaState W i) (some .ew)) :
    Inv W s' := by
  refine h.ew_move f (fun t l => ?_) (fun l hl => by rw [hmtx, Function.update_of_ne hl])
    (fun hl => ?_) (fun j hj => ?_) (.inr rfl)
  · have hold := h.holder t l
    cases t with
    | ew =>
        simp only [State.Holds, hout, reduceCtorEq, false_and, exists_false, iff_false] at hold
        by_cases hl : l = widgetEventLuaState W i
        · simp [State.Holds, f.ew, hin', hmtx, hl]
        · simp [State.Holds, f.ew, hin', hmtx, hl, hold]
    | plugin j =>
        simp only [State.Holds, f.plugin] at hold ⊢
        rw [← hold]
        by_cases hl : l = widgetEventLuaState W i
        · simp [hmtx, hl, hfree]
        · rw [hmtx, Function.update_of_ne hl]
  · rw [hmtx, Function.update_self] at hl
    cases hl
  · rw [hin'] at hj
    rw [h.free _ hfree]
    exact ⟨(Option.some.inj hj).symm, hst⟩

/-- A move of the event watcher that leaves a cycle. -/
theorem Inv.ew_leave (h : Inv W s)
    (f : EwFrame W i p (s.stack (widgetEventLuaState W i)) s s')
    (hin : s.ew.widget = some i) (hout' : p.widget = none)
    (hst : s.stack (widgetEventLuaState W i) = [.errorHandler])
    (hmtx : s'.mtx = Function.update s.mtx (widgetEventLuaState W i) none) : Inv W s' := by
  refine h.ew_move f (fun t l => ?_) (fun l hl => by rw [hmtx, Function.update_of_ne hl])
    (fun _ => hst) (fun j hj => ?_) (.inr rfl)
  · have hold := h.holder t l
    cases t with
    | ew =>
        simp only [State.Holds, f.ew, hin, hout', reduceCtorEq, false_and, exists_false,
          iff_false, Option.some.injEq, exists_eq_left'] at hold ⊢
        by_cases hl : l = widgetEventLuaState W i
        · simp [hmtx, hl]
        · rw [hmtx, Function.update_of_ne hl, hold]
          exact hl
    | plugin j =>
        simp only [State.Holds, f.plugin] at hold ⊢
        rw [← hold]
        by_cases hl : l = widgetEventLuaState W i
        · rw [hmtx, hl, Function.update_self, (h.holder .ew _).mpr ⟨i, hin, rfl⟩]
          simp
        · rw [hmtx, Function.update_of_ne hl]
  · rw [hout'] at hj
    cases hj

/-- The event watcher returns between cycles. -/
theorem Inv.ew_returns (h : Inv W s) (hidle : s.ew = .idle) : Inv W (s.ewAt .done) where
  noFailure := h.noFailure
  holder t l := by
    have hold := h.holder t l
    cases t with
    | ew => simpa [State.Holds, hidle, EwPc.widget, State.ewAt] using hold
    | plugin j => exact hold
  free := h.free
  pluginShape := h.pluginShape
  ewShape j hj := by cases hj
  curW := by
    have := h.curW
    rwa [hidle] at this

end Ew

/-! ## Every move keeps the invariant -/

theorem Inv.plugin_shape_at (h : Inv W s) {i : Fin n} {pc : PluginPc n}
    (hpc : s.plugin i = pc) (hin : pc.inCycle = true) : pc.Shape i (s.stack (.own i)) := by
  have hs := h.pluginShape i (by rw [hpc, hin])
  rwa [hpc] at hs

theorem Inv.ew_shape_at (h : Inv W s) {i : Fin n} {pc : EwPc n} (hpc : s.ew = pc)
    (hin : pc.widget = some i) : pc.Shape W (s.stack (widgetEventLuaState W i)) := by
  have hs := h.ewShape i (by rw [hpc, hin])
  rwa [hpc] at hs

theorem Inv.curW_at (h : Inv W s) {pc : EwPc n} (hpc : s.ew = pc) : s.curW = pc.curW W := by
  rw [h.curW, hpc]

/-- A cycle of a widget thread that ends with exactly one value pushed finds three slots. -/
theorem PluginPc.Shape.opened_one {i : Fin n} {st : LuaStack n}
    (h : (PluginPc.opened 1).Shape i st) : st = [.value, .cb i, .errorHandler] := h

theorem EwPc.Shape.opened_one {i : Fin n} {st : LuaStack n}
    (h : (EwPc.opened i 1).Shape W st) : st = [.value, eventSlot W i, .errorHandler] := h

theorem State.check_of_length {l : LuaId n} {k : Nat} (hk : (s.stack l).length = k) :
    (s.check ((s.stack l).length == k)).assertFailed = s.assertFailed := by
  simp [State.check, hk]

theorem Inv.plugin_step (h : Inv W s) {i : Fin n} (hmove : Move W s (.plugin i) s') :
    Inv W s' := by
  cases hmove with
  | callBegin _ hpc hfree =>
      exact h.plugin_enter (p := .begun) (.of_stack_eq rfl rfl rfl rfl rfl) hfree rfl rfl rfl
  | callBegun _ hpc =>
      have hs : s.stack (.own i) = [.errorHandler] := h.plugin_shape_at hpc rfl
      refine h.plugin_inside (p := .opened 0) (r := .cb i :: s.stack (.own i))
        ⟨rfl, rfl, rfl, rfl, s.check_of_length ?_⟩ (by rw [hpc]; rfl) rfl ?_ rfl
      · rw [hs]; rfl
      · rw [hs]; rfl
  | callPush _ k hpc =>
      have hs := h.plugin_shape_at hpc rfl
      refine h.plugin_inside (p := .opened (k + 1)) (r := .value :: s.stack (.own i))
        ⟨rfl, rfl, rfl, rfl, rfl⟩ (by rw [hpc]; rfl) rfl ?_ rfl
      rw [hs]
      rfl
  | callPop _ k hpc =>
      have hs := h.plugin_shape_at hpc rfl
      refine h.plugin_inside (p := .opened k) (r := (s.stack (.own i)).drop 1)
        ⟨rfl, rfl, rfl, rfl, rfl⟩ (by rw [hpc]; rfl) rfl ?_ rfl
      rw [hs]
      rfl
  | callEnd _ arg f rest hpc hst =>
      have hs := (h.plugin_shape_at hpc rfl).opened_one
      rw [hst] at hs
      obtain ⟨-, hs⟩ := List.cons.inj hs
      obtain ⟨hf, hrest⟩ := List.cons.inj hs
      refine h.plugin_inside (p := .running f) (r := rest)
        ⟨rfl, rfl, rfl, rfl, s.check_of_length ?_⟩ (by rw [hpc]; rfl) rfl ⟨hf, hrest⟩ rfl
      rw [hst, hrest]
      rfl
  | callOk _ f hpc =>
      have hs := (h.plugin_shape_at hpc rfl).2
      refine h.plugin_inside (p := .returned true) (r := .value :: s.stack (.own i))
        ⟨rfl, rfl, rfl, rfl, rfl⟩ (by rw [hpc]; rfl) rfl ?_ rfl
      rw [hs]
      rfl
  | callFail _ f hpc =>
      have hs := (h.plugin_shape_at hpc rfl).2
      refine h.plugin_inside (p := .returned false) (r := s.stack (.own i))
        ⟨?_, rfl, rfl, rfl, rfl⟩ (by rw [hpc]; rfl) rfl hs rfl
      simp [State.pop, State.push, State.setStack, State.pluginAt]
  | callLockB _ ok hpc _ =>
      have hs := h.plugin_shape_at hpc rfl
      refine h.plugin_inside (p := .setting ok) (.of_stack_eq rfl rfl rfl rfl rfl)
        (by rw [hpc]; rfl) rfl ?_ rfl
      cases ok <;> exact hs
  | callSet _ extra r hpc =>
      have hs : s.stack (.own i) = [.value, .errorHandler] := h.plugin_shape_at hpc rfl
      have hshape : ∃ st', List.replicate extra .value ++ s.stack (.own i) =
          st' ++ [Slot.errorHandler] :=
        ⟨List.replicate extra .value ++ [.value], by rw [hs, List.append_assoc]; rfl⟩
      cases r with
      | ok =>
          exact h.plugin_inside (p := .shown true) ⟨rfl, rfl, rfl, rfl, rfl⟩
            (by rw [hpc]; rfl) rfl hshape rfl
      | nonfatalErr =>
          exact h.plugin_inside (p := .settingError true) ⟨rfl, rfl, rfl, rfl, rfl⟩
            (by rw [hpc]; rfl) rfl hshape rfl
      | err =>
          exact h.plugin_inside (p := .shown true) ⟨rfl, rfl, rfl, rfl, rfl⟩
            (by rw [hpc]; rfl) rfl hshape rfl
  | callNoSet _ hpc =>
      have hs := h.plugin_shape_at hpc rfl
      exact h.plugin_inside (p := .settingError false) (.of_stack_eq rfl rfl rfl rfl rfl)
        (by rw [hpc]; rfl) rfl hs rfl
  | callSetError _ ok fatal hpc =>
      have hs := h.plugin_shape_at hpc rfl
      cases fatal with
      | true => exact ⟨h.noFailure, h.holder, h.free, h.pluginShape, h.ewShape, h.curW⟩
      | false =>
          refine h.plugin_inside (p := .shown ok) (.of_stack_eq rfl rfl rfl rfl rfl)
            (by rw [hpc]; rfl) rfl ?_ rfl
          cases ok <;> exact hs
  | callUnlockB _ ok hpc =>
      have hs := h.plugin_shape_at hpc rfl
      cases ok with
      | true =>
          obtain ⟨st', hs⟩ := hs
          refine h.plugin_inside (p := .leaving) (r := setTop 1 (s.stack (.own i)))
            ⟨rfl, rfl, rfl, rfl, rfl⟩ (by rw [hpc]; rfl) rfl ?_ rfl
          rw [hs]
          exact setTop_one_append st' _
      | false =>
          exact h.plugin_inside (p := .leaving) (.of_stack_eq rfl rfl rfl rfl rfl)
            (by rw [hpc]; rfl) rfl hs rfl
  | callCancel _ k hpc =>
      have hs := h.plugin_shape_at hpc rfl
      refine h.plugin_inside (p := .leaving) (r := setTop 1 (s.stack (.own i)))
        ⟨rfl, rfl, rfl, rfl, rfl⟩ (by rw [hpc]; rfl) rfl ?_ rfl
      rw [hs]
      exact setTop_one_append_pair _ _ _
  | callUnlock _ hpc =>
      exact h.plugin_leave (p := .idle) (.of_stack_eq rfl rfl rfl rfl rfl)
        (by rw [hpc]; rfl) rfl (h.plugin_shape_at hpc rfl) rfl
  | runReturns _ hpc =>
      exact h.plugin_outside (p := .finishing) (.of_stack_eq rfl rfl rfl rfl rfl)
        (by rw [hpc]; rfl) rfl rfl
  | finishLockB _ hpc _ =>
      exact h.plugin_outside (p := .finishingError) (.of_stack_eq rfl rfl rfl rfl rfl)
        (by rw [hpc]; rfl) rfl rfl
  | finish _ fatal hpc =>
      cases fatal with
      | true => exact ⟨h.noFailure, h.holder, h.free, h.pluginShape, h.ewShape, h.curW⟩
      | false =>
          exact h.plugin_outside (p := .done) (.of_stack_eq rfl rfl rfl rfl rfl)
            (by rw [hpc]; rfl) rfl rfl

theorem Inv.ew_step (h : Inv W s) (hmove : Move W s .ew s') : Inv W s' := by
  cases hmove with
  | ewBegin i hpc hfree =>
      exact h.ew_enter (p := .begun i) (.of_stack_eq rfl rfl rfl ((h.curW_at hpc).trans rfl) rfl)
        (by rw [hpc]; rfl) rfl hfree rfl rfl
  | ewBegun i hpc =>
      have hs : s.stack (widgetEventLuaState W i) = [.errorHandler] := h.ew_shape_at hpc rfl
      have hcur : (s.possiblySepstateCallBegin W i).curW = (EwPc.opened i 0).curW W := by
        simp only [State.possiblySepstateCallBegin, EwPc.curW]
        split
        · rfl
        · exact h.curW_at hpc
      have hkeep : (s.possiblySepstateCallBegin W i).stack = s.stack ∧
          (s.possiblySepstateCallBegin W i).mtx = s.mtx ∧
          (s.possiblySepstateCallBegin W i).plugin = s.plugin ∧
          (s.possiblySepstateCallBegin W i).assertFailed = s.assertFailed := by
        simp only [State.possiblySepstateCallBegin]
        split <;> exact ⟨rfl, rfl, rfl, rfl⟩
      obtain ⟨hst, hmtx, hpl, ha⟩ := hkeep
      refine h.ew_inside (i := i) (p := .opened i 0)
        (r := eventSlot W i :: s.stack (widgetEventLuaState W i))
        ⟨?_, rfl, hpl, hcur, ?_⟩ (by rw [hpc]; rfl) rfl ?_ hmtx
      · simp only [State.ewAt, State.push, State.setStack, State.check, hst]
      · rw [← ha]
        exact State.check_of_length (by rw [hst, hs]; rfl)
      · rw [hs]
        rfl
  | ewPush i k hpc =>
      have hs := h.ew_shape_at hpc rfl
      refine h.ew_inside (p := .opened i (k + 1))
        (r := .value :: s.stack (widgetEventLuaState W i))
        ⟨rfl, rfl, rfl, (h.curW_at hpc).trans rfl, rfl⟩ (by rw [hpc]; rfl) rfl ?_ rfl
      rw [hs]
      rfl
  | ewPop i k hpc =>
      have hs := h.ew_shape_at hpc rfl
      refine h.ew_inside (p := .opened i k)
        (r := (s.stack (widgetEventLuaState W i)).drop 1)
        ⟨rfl, rfl, rfl, (h.curW_at hpc).trans rfl, rfl⟩ (by rw [hpc]; rfl) rfl ?_ rfl
      rw [hs]
      rfl
  | ewDiscard i hpc _ =>
      have hs := (h.ew_shape_at hpc rfl).opened_one
      refine h.ew_inside (p := .leaving i)
        (r := (s.stack (widgetEventLuaState W i)).drop 2)
        ⟨rfl, rfl, rfl, (h.curW_at hpc).trans rfl, s.check_of_length ?_⟩ (by rw [hpc]; rfl) rfl
        ?_ rfl
      · rw [hs]; rfl
      · rw [hs]; rfl
  | ewEnd i arg f rest hpc href hst =>
      have hs := (h.ew_shape_at hpc rfl).opened_one
      rw [hst] at hs
      obtain ⟨-, hs⟩ := List.cons.inj hs
      obtain ⟨hf, hrest⟩ := List.cons.inj hs
      have hslot : eventSlot W i = .event i := by
        cases hr : (W i).lrefEvent with
        | refnil => exact absurd hr href
        | func => simp [eventSlot, hr]
      refine h.ew_inside (p := .running i f) (r := rest)
        ⟨rfl, rfl, rfl, (h.curW_at hpc).trans rfl, s.check_of_length ?_⟩ (by rw [hpc]; rfl) rfl
        ⟨hf.trans hslot, hrest⟩ rfl
      rw [hst, hrest]
      rfl
  | ewOk i f hpc =>
      exact h.ew_inside (i := i) (p := .leaving i)
        (.of_stack_eq rfl rfl rfl ((h.curW_at hpc).trans rfl) rfl) (by rw [hpc]; rfl) rfl
        (h.ew_shape_at hpc rfl).2 rfl
  | ewFail i f hpc =>
      have hs := (h.ew_shape_at hpc rfl).2
      refine h.ew_inside (p := .failed i) (r := s.stack (widgetEventLuaState W i))
        ⟨?_, rfl, rfl, (h.curW_at hpc).trans rfl, rfl⟩ (by rw [hpc]; rfl) rfl hs rfl
      simp [State.pop, State.push, State.setStack, State.ewAt]
  | ewLockB i hpc _ =>
      have hs := h.ew_shape_at hpc rfl
      exact h.ew_inside (i := i) (p := .failedError i)
        (.of_stack_eq rfl rfl rfl ((h.curW_at hpc).trans rfl) rfl) (by rw [hpc]; rfl) rfl
        hs rfl
  | ewSetError i fatal hpc =>
      cases fatal with
      | true => exact ⟨h.noFailure, h.holder, h.free, h.pluginShape, h.ewShape, h.curW⟩
      | false =>
          have hs := h.ew_shape_at hpc rfl
          exact h.ew_inside (i := i) (p := .leaving i)
            (.of_stack_eq rfl rfl rfl ((h.curW_at hpc).trans rfl) rfl) (by rw [hpc]; rfl) rfl
            hs rfl
  | ewCancel i k hpc =>
      have hs := h.ew_shape_at hpc rfl
      refine h.ew_inside (p := .leaving i)
        (r := setTop 1 (s.stack (widgetEventLuaState W i)))
        ⟨rfl, rfl, rfl, (h.curW_at hpc).trans rfl, rfl⟩ (by rw [hpc]; rfl) rfl ?_ rfl
      rw [hs]
      exact setTop_one_append_pair _ _ _
  | ewUnlock i hpc =>
      have hcur := h.curW_at hpc
      have hkeep : (s.possiblySepstateCallEnd W i).stack = s.stack ∧
          (s.possiblySepstateCallEnd W i).mtx = s.mtx ∧
          (s.possiblySepstateCallEnd W i).plugin = s.plugin ∧
          (s.possiblySepstateCallEnd W i).assertFailed = s.assertFailed := by
        simp only [State.possiblySepstateCallEnd]
        split <;> exact ⟨rfl, rfl, rfl, rfl⟩
      have hclear : (s.possiblySepstateCallEnd W i).curW = none := by
        simp only [State.possiblySepstateCallEnd]
        split
        · rfl
        · rename_i hsep
          rw [hcur, EwPc.curW, if_neg hsep]
      obtain ⟨hst, hmtx, hpl, ha⟩ := hkeep
      refine h.ew_leave (i := i) (p := .idle) (.of_stack_eq hst rfl hpl hclear ha)
        (by rw [hpc]; rfl) rfl (h.ew_shape_at hpc rfl) ?_
      simp only [State.ewAt, State.unlock, hmtx]
  | ewReturns hpc => exact h.ew_returns hpc

/-- The invariant holds in every state of every run. -/
theorem Inv.of_reachable (h : (machine W).Reachable s) : Inv W s := by
  refine h.invariant (fun s hs => hs ▸ Inv.initial) (fun s t s' hi hstep => ?_)
  cases t with
  | plugin i => exact hi.plugin_step hstep.2
  | ew => exact hi.ew_step hstep.2

/-! ## The protocol -/

/-- In every state of every run, whatever the widgets are and however the threads interleave: no
stack assertion has failed, a Lua state nobody is in a cycle on has nothing but the error handler
on its stack, an event function that runs in the separate state is that of the recorded widget,
and no widget is recorded unless an event is being handled in the separate state. -/
theorem callback_protocol (h : (machine W).Reachable s) :
    s.assertFailed = false ∧
    (∀ l, (∀ t, ¬ s.Holds W t l) → s.stack l = [.errorHandler]) ∧
    (∀ i f, s.ew = .running i f → widgetEventLuaState W i = .sep →
      f = .event i ∧ s.curW = some i) ∧
    ((∀ i, s.ew.widget = some i → widgetEventLuaState W i ≠ .sep) → s.curW = none) := by
  have hinv := Inv.of_reachable h
  have hsep : ∀ i, widgetEventLuaState W i = .sep ↔ (W i).sepstateEvent = true := by
    intro i
    simp only [widgetEventLuaState]
    split <;> simp_all
  refine ⟨hinv.noFailure, fun l hl => ?_, fun i f hpc hs => ?_, fun hout => ?_⟩
  · refine hinv.free l ?_
    cases hm : s.mtx l with
    | none => rfl
    | some t => exact absurd ((hinv.holder t l).mp hm) (hl t)
  · obtain ⟨hf, -⟩ := hinv.ew_shape_at hpc rfl
    refine ⟨hf, ?_⟩
    rw [hinv.curW, hpc, EwPc.curW, if_pos ((hsep i).mp hs)]
  · rw [hinv.curW]
    cases hpc : s.ew with
    | idle => rfl
    | done => rfl
    | begun i => rfl
    | opened i k =>
        exact if_neg fun hs => hout i (by rw [hpc]; rfl) ((hsep i).mpr hs)
    | running i f =>
        exact if_neg fun hs => hout i (by rw [hpc]; rfl) ((hsep i).mpr hs)
    | failed i =>
        exact if_neg fun hs => hout i (by rw [hpc]; rfl) ((hsep i).mpr hs)
    | failedError i =>
        exact if_neg fun hs => hout i (by rw [hpc]; rfl) ((hsep i).mpr hs)
    | leaving i =>
        exact if_neg fun hs => hout i (by rw [hpc]; rfl) ((hsep i).mpr hs)

/-- One widget with a string event function, and its event function being run. -/
theorem callback_protocol_string_event :
    ∃ s : State 1, (machine fun _ => widgetInitInspectEvent .string).Reachable s ∧
      s.ew = .running 0 (.event 0) ∧ s.curW = some 0 ∧ s.stack (.own 0) = [.errorHandler] := by
  let W : Fin 1 → Widget := fun _ => widgetInitInspectEvent .string
  have h0 : (machine W).Reachable (State.initial W) := .init rfl
  have h1 := h0.step ⟨⟨rfl, rfl⟩, Move.ewBegin (W := W) 0 rfl rfl⟩
  have h2 := h1.step ⟨⟨rfl, rfl⟩, Move.ewBegun (W := W) 0 rfl⟩
  have h3 := h2.step ⟨⟨rfl, rfl⟩, Move.ewPush (W := W) 0 0 rfl⟩
  have h4 := h3.step ⟨⟨rfl, rfl⟩, Move.ewEnd (W := W) 0 .value (.event 0) [.errorHandler] rfl
    (by decide) rfl⟩
  obtain ⟨-, hfree, hrun, -⟩ := callback_protocol h4
  refine ⟨_, h4, rfl, (hrun 0 _ rfl rfl).2, hfree _ ?_⟩
  intro t ht
  cases t with
  | plugin i => exact absurd (show false = true from ht.1) Bool.false_ne_true
  | ew =>
      obtain ⟨i, -, hl⟩ := ht
      cases hl

end Luastatus.Core

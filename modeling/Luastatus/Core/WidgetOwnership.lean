import Luastatus.Core.Rules

/-!
# What the widgets hold

`widget_init` leaves a widget with all its parts or with none (`AfterInit`), and `widgets_init` a
list of widgets that says which is the case for each (`InitSoFar`).  A widget whose events go to the
separate state, so also a stillborn one, is there only with the separate state.

`stageParts` is what the widgets have in the middle of a loop that deals with one after the other.
-/

namespace Luastatus.Core.LifeCycle

open Text (Bytes CString)
open Calls Resources Contract

variable {G : Finset Global} {P : Nat → Finset Part} {A : Finset Part} {i n : Nat} {p : Part}
  {g : Global} {B : Build}

/-! ## Widgets -/

/-- The separate state, if it is initialized. -/
def sepGlobals (sep : Bool) : Finset Global := if sep then {.sepLua, .sepMtx} else ∅

/-- What there is once while the widgets are initialized; `args` is whether `barlib_args.data` is
set. -/
def initGlobals (args sep : Bool) : Finset Global :=
  {.commMtx, .widgets} ∪ (if args then {.barlibArgs} else ∅) ∪ sepGlobals sep

variable {args sep : Bool}

theorem widgets_mem_initGlobals : .widgets ∈ initGlobals args sep := by
  simp [initGlobals]

theorem wp_sepstateMaybeInit {Q : Bool → Set Resource → Prop}
    (hQ : Q true (ledger (initGlobals args true) P)) :
    (rules n).wp (sepstateMaybeInit sep) Q (ledger (initGlobals args sep) P) := by
  cases sep with
  | true => exact hQ
  | false =>
      have hboth : insert .sepMtx (insert .sepLua (initGlobals args false)) =
          initGlobals args true := by
        cases args <;> decide
      rw [sepstateMaybeInit, if_neg Bool.false_ne_true, wp_bind, wp_acquire_global]
      refine ⟨by cases args <;> decide, ?_⟩
      rw [wp_bind]
      refine wp_ask [LuaState.sep.lua] (fun _ => rfl) trivial ?_ fun _ => ?_
      · simp [LuaState.lua]
      · rw [wp_bind, wp_acquire_global, hboth]
        exact ⟨by cases args <;> decide, hQ⟩

theorem wp_widgetInitInspectEvent {Q : Option EventField × Bool → Set Resource → Prop}
    (hlua : .lua ∈ A)
    (hQ : ∀ e sep', (e = some .string → sep' = true) → (sep = true → sep' = true) →
      Q (e, sep') (ledger (initGlobals args sep') (withParts P i A))) :
    (rules n).wp (widgetInitInspectEvent i sep) Q
      (ledger (initGlobals args sep) (withParts P i A)) := by
  unfold widgetInitInspectEvent
  rw [wp_bind]
  refine wp_ask [.part i .lua] (fun _ => rfl) trivial (by simpa using hlua) fun event => ?_
  match event with
  | none | some .nil | some .function => exact hQ _ _ (fun h => by cases h) id
  | some .string =>
      rw [wp_bind]
      refine wp_sepstateMaybeInit ?_
      have hchunk : (insert .chunkname (initGlobals args true)).erase .chunkname =
          initGlobals args true := by
        cases args <;> decide
      rw [wp_bind, wp_acquire_global]
      refine ⟨by cases args <;> decide, ?_⟩
      rw [wp_bind]
      refine wp_ask [.part i .lua, .global .sepLua, .global .chunkname] (fun _ => rfl) trivial
        ?_ fun r => ?_
      · simpa [initGlobals, sepGlobals] using hlua
      · rw [wp_bind, wp_release_global, hchunk]
        refine ⟨⟨Finset.mem_insert_self .., by cases args <;> decide, fun j q _ => ?_⟩, ?_⟩
        · cases q <;> decide
        · exact hQ _ _ (fun _ => rfl) fun _ => rfl

theorem wp_widgetInitError {pluginLoaded : Bool}
    {Q : Option LoadedWidget × Bool → Set Resource → Prop}
    (hQ : Q (none, sep) (ledger G (withParts P i ∅))) :
    (rules n).wp (widgetInitError i pluginLoaded sep) Q
      (ledger G (withParts P i (if pluginLoaded then loadedParts else freshParts))) := by
  have hfresh : ((((if pluginLoaded then loadedParts else freshParts).erase .lua).erase
      .luaMtx).erase .filename) = if pluginLoaded then {.pluginHandle, .pluginName, .comm}
        else {.comm} := by
    cases pluginLoaded <;> decide
  simp only [widgetInitError, wp_bind, wp_release_part]
  refine ⟨by cases pluginLoaded <;> decide, by cases pluginLoaded <;> decide,
    by cases pluginLoaded <;> decide, ?_⟩
  rw [hfresh]
  cases pluginLoaded with
  | false =>
      simp only [wp_onlyIf, Bool.false_eq_true, if_false, wp_release_part, wp_pure]
      exact ⟨by decide, hQ⟩
  | true =>
      simp only [wp_onlyIf, if_true, pluginUnload, wp_bind, wp_release_part, wp_pure]
      refine ⟨by decide, by decide, by decide, ?_⟩
      have hnone : ((({.pluginHandle, .pluginName, .comm} : Finset Part).erase .pluginName).erase
          .pluginHandle).erase .comm = ∅ := by decide
      rw [hnone]
      exact hQ

/-- What a widget has after `widget_init`. -/
def Entry.parts : Entry → Finset Part
  | none => ∅
  | some _ => normalParts

/-- The separate state is initialized if the widget needs it. -/
def Entry.SepOk (w : Entry) (sep : Bool) : Prop := w.widget.sepstateEvent = true → sep = true

/-- What `widget_init` leaves. -/
def AfterInit (args : Bool) (P : Nat → Finset Part) (i : Nat) (sep : Bool)
    (r : Option LoadedWidget × Bool) (s : Set Resource) : Prop :=
  s = ledger (initGlobals args r.2) (withParts P i (Entry.parts r.1)) ∧
    (sep = true → r.2 = true) ∧ (r.1.isSome → Entry.SepOk r.1 r.2)

theorem AfterInit.of_error {sep' : Bool} (h : sep = true → sep' = true) :
    AfterInit args P i sep (none, sep') (ledger (initGlobals args sep') (withParts P i ∅)) :=
  ⟨rfl, h, fun hsome => by cases hsome⟩

theorem wp_widgetInitFields {iface : PluginIface} :
    (rules n).wp (widgetInitFields i iface sep) (AfterInit args P i sep)
      (ledger (initGlobals args sep) (withParts P i loadedParts)) := by
  have herror {sep' : Bool} (h : sep = true → sep' = true) :
      (rules n).wp (widgetInitError i true sep') (AfterInit args P i sep)
        (ledger (initGlobals args sep') (withParts P i loadedParts)) := by
    exact wp_widgetInitError (.of_error h)
  have hlua : .lua ∈ loadedParts := by decide
  unfold widgetInitFields widgetInitInspectCb widgetInitInspectPushOpts
  rw [wp_bind]
  refine wp_ask [.part i .lua] (fun _ => rfl) trivial (by simpa using hlua) fun cb => ?_
  cases cb with
  | false => exact herror id
  | true =>
      rw [if_pos rfl, wp_bind]
      refine wp_widgetInitInspectEvent hlua fun event sep' hstring hsep => ?_
      cases event with
      | none => exact herror hsep
      | some event =>
          simp only [wp_bind]
          refine wp_ask [.part i .lua] (fun _ => rfl) trivial (by simpa using hlua) fun opts => ?_
          rw [wp_pure, wp_ite]
          split
          · rw [wp_bind]
            refine wp_try [.part i .pluginHandle, .part i .lua] (.part i .pluginData) id
              (fun _ => rfl) trivial ?_ ?_ ?_ ?_
            · simp [loadedParts, freshParts]
            · exact legal_acquire_part.mpr ⟨by decide, by decide,
                needsGlobal_subset widgets_mem_initGlobals rfl⟩
            · intro ok htrue
              rw [show ok = true from htrue, if_pos rfl, insert_part]
              refine ⟨rfl, hsep, fun _ hsep' => hstring ?_⟩
              cases event <;> first | rfl | cases hsep'
            · intro ok hfalse
              rw [show ok = false from hfalse, if_neg Bool.false_ne_true]
              exact herror hsep
          · exact herror hsep

theorem wp_widgetInit {filename : CString} :
    (rules n).wp (widgetInit B i filename sep) (AfterInit args P i sep)
      (ledger (initGlobals args sep) (withParts P i ∅)) := by
  have hfield {p : Part} (hp : p.needsGlobal = [.widgets]) :
      ∀ g ∈ p.needsGlobal, g ∈ initGlobals args sep :=
    needsGlobal_subset widgets_mem_initGlobals hp
  have herror : (rules n).wp (widgetInitError i false sep) (AfterInit args P i sep)
      (ledger (initGlobals args sep) (withParts P i freshParts)) :=
    wp_widgetInitError (.of_error id)
  have hfresh : insert Part.comm (insert .filename (insert .luaMtx (insert .lua ∅))) =
      freshParts := by decide
  have hlua : .lua ∈ freshParts := by decide
  have hcomm : .comm ∈ freshParts := by decide
  simp only [widgetInit, wp_bind, wp_acquire_part, hfresh, wp_ite]
  refine ⟨⟨by decide, by decide, hfield rfl⟩, ⟨by decide, by decide, hfield rfl⟩,
    ⟨by decide, by decide, hfield rfl⟩, ⟨by decide, by decide, hfield rfl⟩, ?_⟩
  refine wp_ask [.part i .lua] (fun _ => rfl) trivial (by simpa using hlua) fun _ => ?_
  refine wp_ask [.part i .lua, .part i .comm] (fun _ => rfl) trivial ?_ fun loaded => ?_
  · simpa using ⟨hlua, hcomm⟩
  split
  · refine wp_ask [.part i .lua, .part i .comm] (fun _ => rfl) trivial ?_ fun ran => ?_
    · simpa using ⟨hlua, hcomm⟩
    split
    · refine wp_ask [.part i .lua] (fun _ => rfl) trivial (by simpa using hlua) fun isTable => ?_
      split
      · unfold widgetInitInspectPlugin
        rw [wp_bind]
        refine wp_ask [.part i .lua] (fun _ => rfl) trivial (by simpa using hlua) fun name => ?_
        cases name with
        | none => exact herror
        | some name =>
            refine wp_pluginLoadByName widgets_mem_initGlobals ?_ (fun iface => ?_) herror
            · cases args <;> cases sep <;> decide
            · exact wp_widgetInitFields
      · exact herror
    · exact herror
  · exact herror

/-! ## All widgets -/

/-- What the widgets have. -/
def partsOf (f : Entry → Finset Part) (ws : List Entry) (i : Nat) : Finset Part :=
  (ws[i]?).elim ∅ f

/-- What the widgets have when a loop has dealt with the first `k`: `f` for these, `f'` for the
rest. -/
def stageParts (f f' : Entry → Finset Part) (ws : List Entry) (k i : Nat) : Finset Part :=
  partsOf (if i < k then f else f') ws i

theorem partsOf_append {f : Entry → Finset Part} {ws : List Entry} {w : Entry} :
    partsOf f (ws ++ [w]) = withParts (partsOf f ws) ws.length (f w) := by
  funext i
  by_cases hi : i = ws.length
  · subst hi
    simp [partsOf]
  · rw [withParts_of_ne hi, partsOf, partsOf]
    congr 1
    rw [List.getElem?_append]
    split
    · rfl
    · rw [List.getElem?_eq_none (by simp; omega), List.getElem?_eq_none (by omega)]

theorem withParts_partsOf {f : Entry → Finset Part} {ws : List Entry} :
    withParts (partsOf f ws) ws.length ∅ = partsOf f ws := by
  have hnone : partsOf f ws ws.length = ∅ := by simp [partsOf]
  rw [← hnone, withParts_eq_self]

variable {f f' : Entry → Finset Part} {ws : List Entry} {k : Nat}

theorem stageParts_start : stageParts f f' ws 0 = partsOf f' ws := by
  funext i
  simp [stageParts]

theorem stageParts_end : stageParts f f' ws ws.length = partsOf f ws := by
  funext i
  unfold stageParts
  split
  · rfl
  · rw [partsOf, partsOf, List.getElem?_eq_none (by omega)]
    rfl

theorem stageParts_at (hk : k < ws.length) :
    stageParts f f' ws k = withParts (stageParts f f' ws k) k (f' ws[k]) := by
  have hat : stageParts f f' ws k k = f' ws[k] := by simp [stageParts, partsOf, hk]
  rw [← hat, withParts_eq_self]

theorem stageParts_succ (hk : k < ws.length) :
    stageParts f f' ws (k + 1) = withParts (stageParts f f' ws k) k (f ws[k]) := by
  funext i
  by_cases hi : i = k
  · subst hi
    simp [stageParts, partsOf, hk]
  · have hlt : i < k + 1 ↔ i < k := by omega
    rw [withParts_of_ne hi, stageParts, stageParts]
    simp only [hlt]

/-- The widgets that have been initialized so far. -/
def InitSoFar (args : Bool) (k : Nat) (r : List Entry × Bool) (s : Set Resource) : Prop :=
  r.1.length = k ∧ s = ledger (initGlobals args r.2) (partsOf Entry.parts r.1) ∧
    ∀ w ∈ r.1, Entry.SepOk w r.2

theorem wp_widgetsInitStep {f : CString × Nat} {r : List Entry × Bool} {s : Set Resource}
    (h : InitSoFar args f.2 r s) :
    (rules n).wp (widgetsInitStep B f r) (InitSoFar args (f.2 + 1)) s := by
  obtain ⟨hlen, rfl, hok⟩ := h
  obtain ⟨ws, sep⟩ := r
  obtain ⟨filename, k⟩ := f
  obtain rfl : ws.length = k := hlen
  have hmono {w : Entry} {sep' : Bool} (hw : w ∈ ws) (hsep : sep = true → sep' = true) :
      Entry.SepOk w sep' := fun h => hsep (hok w hw h)
  unfold widgetsInitStep
  rw [wp_bind, ← withParts_partsOf]
  refine wp_mono wp_widgetInit ?_
  rintro ⟨w, sep'⟩ _ ⟨rfl, hsep, hself⟩
  have hnext {w : Entry} {sep'' : Bool} (hself : Entry.SepOk w sep'')
      (hsep : sep = true → sep'' = true) :
      InitSoFar args (ws.length + 1) (ws ++ [w], sep'')
        (ledger (initGlobals args sep'')
          (withParts (partsOf Entry.parts ws) ws.length w.parts)) := by
    refine ⟨by simp, by rw [partsOf_append], fun w' hw' => ?_⟩
    rcases List.mem_append.mp hw' with hw' | hw'
    · exact hmono hw' hsep
    · obtain rfl := List.mem_singleton.mp hw'
      exact hself
  cases w with
  | some w => exact hnext (hself rfl) hsep
  | none =>
      show (rules n).wp (widgetInitStillborn sep' >>= _) _ _
      rw [wp_bind]
      exact wp_sepstateMaybeInit (hnext (fun _ => rfl) fun _ => rfl)

theorem wp_widgetsInit {filenames : List CString} :
    (rules n).wp (widgetsInit B filenames) (InitSoFar args filenames.length)
      (ledger ((initGlobals args false).erase .widgets) fun _ => ∅) := by
  have hinsert : insert .widgets ((initGlobals args false).erase .widgets) =
      initGlobals args false := Finset.insert_erase widgets_mem_initGlobals
  unfold widgetsInit
  rw [wp_bind, wp_acquire_global, hinsert]
  refine ⟨⟨Finset.notMem_erase _ _, List.forall_mem_nil _⟩, ?_⟩
  refine wp_forEach_zipIdx (InitSoFar args) (fun k hk r s h => wp_widgetsInitStep h) ?_
  exact ⟨rfl, rfl, fun w hw => by cases hw⟩

end Luastatus.Core.LifeCycle

import Luastatus.Core.WidgetOwnership

/-!
# Every resource of the core is released once

`main_keeps_iff`: whatever the C library, Lua, the plugins and the barlib answer, `main` uses and
releases only what it holds, takes nothing away that something else needs, and holds nothing when it
returns, if and only if its options are accepted.  (If they are not, it destroys the mutex of
`comm.c`, which it has not initialized.)

Each function has one lemma, and each loop an invariant.  `mainGlobals` is what there is once, by
the variables of `main` that the label `cleanup` looks at.
-/

namespace Luastatus.Core.LifeCycle

open Text (Bytes CString)
open Calls Resources Contract

variable {G : Finset Global} {P : Nat → Finset Part} {A : Finset Part} {i n k : Nat} {p : Part}
  {g : Global} {α : Type} {B : Build} {sep : Bool} {ws : List Entry} {f f' : Entry → Finset Part}

/-! ## The barlib -/

/-- What there is once after `barlib_init`. -/
def barlibGlobals (G : Finset Global) : Finset Global :=
  insert .barlibData (insert .barlibHandle (insert .setMtx G))

/-- The barlib can be initialized: nothing of it is there, and no thread. -/
structure BarlibReady (G : Finset Global) (P : Nat → Finset Part) : Prop where
  setMtx : .setMtx ∉ G
  handle : .barlibHandle ∉ G
  data : .barlibData ∉ G
  noThread : ∀ i, .thread ∉ P i

/-- Only a thread needs anything of the barlib. -/
theorem notMem_needsGlobal (hp : p ≠ .thread) (hg : g ≠ .widgets) : g ∉ p.needsGlobal := by
  cases p with
  | thread => exact absurd rfl hp
  | _ => simpa [Part.needsGlobal] using hg

theorem BarlibReady.notMem_needsGlobal (h : BarlibReady G P) (hg : g ≠ .widgets) :
    ∀ i, ∀ p ∈ P i, g ∉ p.needsGlobal := by
  intro i p hp
  refine LifeCycle.notMem_needsGlobal (fun he => ?_) hg
  subst he
  exact h.noThread i hp

/-- Only the data of the barlib needs something that there is once. -/
theorem notMem_needs (h : .barlibData ∉ G) : ∀ g' ∈ G, g ∉ g'.needs := by
  intro g' hg'
  cases g' with
  | barlibData => exact absurd hg' h
  | _ => exact List.not_mem_nil

theorem wp_barlibInit {filename : Bytes} {opts : List (Option CString)}
    {Q : Option BarlibIface → Set Resource → Prop} (hready : BarlibReady G P)
    (hargs : .barlibArgs ∈ G) (hsome : ∀ b, Q (some b) (ledger (barlibGlobals G) P))
    (hnone : Q none (ledger G P)) :
    (rules n).wp (barlibInit B filename opts n) Q (ledger G P) := by
  have hhandle : insert Library.barlib.handle (ledger (insert .setMtx G) P) =
      ledger (insert .barlibHandle (insert .setMtx G)) P := insert_global
  have hclosed : (rules n).wp (barlibInit.error false) Q (ledger (insert .setMtx G) P) := by
    simp only [barlibInit.error, wp_bind, wp_onlyIf, Bool.false_eq_true, if_false,
      wp_release_global, wp_pure, Finset.erase_insert hready.setMtx]
    refine ⟨⟨Finset.mem_insert_self .., notMem_needs ?_, hready.notMem_needsGlobal ?_⟩, hnone⟩
    · simpa using hready.data
    · decide
  have hopen : (rules n).wp (barlibInit.error true) Q
      (ledger (insert .barlibHandle (insert .setMtx G)) P) := by
    have hback : (insert Global.barlibHandle (insert .setMtx G)).erase .barlibHandle =
        insert .setMtx G := Finset.erase_insert (by simpa using hready.handle)
    simp only [barlibInit.error, wp_bind, wp_onlyIf, if_true, wp_release_global, wp_pure, hback,
      Finset.erase_insert hready.setMtx]
    refine ⟨⟨Finset.mem_insert_self .., notMem_needs ?_, hready.notMem_needsGlobal ?_⟩,
      ⟨Finset.mem_insert_self .., notMem_needs ?_, hready.notMem_needsGlobal ?_⟩, hnone⟩
    · simpa using hready.data
    · decide
    · simpa using hready.data
    · decide
  unfold barlibInit
  rw [wp_bind, wp_acquire_global]
  refine ⟨⟨hready.setMtx, List.forall_mem_nil _⟩, ?_⟩
  rw [wp_bind]
  refine wp_openLibrary ?_ (fun b => ?_) ?_ hclosed
  · exact legal_acquire_global.mpr ⟨by simpa using hready.handle, List.forall_mem_nil _⟩
  · rw [hhandle, wp_bind]
    refine wp_try [.global .barlibHandle, .global .barlibArgs] (.global .barlibData) id
      (fun _ => rfl) rfl ?_ ?_ ?_ ?_
    · simpa using hargs
    · exact legal_acquire_global.mpr ⟨by simpa using hready.data, by simp [Global.needs]⟩
    · intro ok htrue
      rw [show ok = true from htrue, if_pos rfl, insert_global]
      exact hsome b
    · intro ok hfalse
      rw [show ok = false from hfalse, if_neg Bool.false_ne_true]
      exact hopen
  · rw [hhandle]
    exact hopen

theorem wp_barlibInitByName {name : CString} {opts : List (Option CString)}
    {Q : Option BarlibIface → Set Resource → Prop} (hready : BarlibReady G P)
    (hargs : .barlibArgs ∈ G) (htmp : .tmpFilename ∉ G)
    (hsome : ∀ b, Q (some b) (ledger (barlibGlobals G) P)) (hnone : Q none (ledger G P)) :
    (rules n).wp (barlibInitByName B name opts n) Q (ledger G P) := by
  unfold barlibInitByName
  rw [wp_ite]
  split
  · exact wp_barlibInit hready hargs hsome hnone
  · have hready' : BarlibReady (insert .tmpFilename G) P :=
      { setMtx := by simpa using hready.setMtx
        handle := by simpa using hready.handle
        data := by simpa using hready.data
        noThread := hready.noThread }
    have hargs' := Finset.mem_insert_of_mem (b := .tmpFilename) hargs
    refine wp_tmpFilename htmp (wp_barlibInit hready' hargs' (fun b => ?_) ?_)
    · refine ⟨barlibGlobals G, P, ?_, by simpa [barlibGlobals] using htmp, hsome b⟩
      congr 1
      simp only [barlibGlobals, Finset.insert_comm Global.tmpFilename]
    · exact ⟨G, P, rfl, htmp, hnone⟩

theorem wp_barlibDestroy {Q : Unit → Set Resource → Prop} (hready : BarlibReady G P)
    (hQ : Q () (ledger G P)) :
    (rules n).wp barlibDestroy Q (ledger (barlibGlobals G) P) := by
  have hdata : (barlibGlobals G).erase .barlibData = insert .barlibHandle (insert .setMtx G) :=
    Finset.erase_insert (by simpa using hready.data)
  have hhandle : (insert Global.barlibHandle (insert .setMtx G)).erase .barlibHandle =
      insert .setMtx G := Finset.erase_insert (by simpa using hready.handle)
  simp only [barlibDestroy, wp_bind, wp_release_global, hdata, hhandle,
    Finset.erase_insert hready.setMtx]
  refine ⟨⟨Finset.mem_insert_self .., fun g' _ => ?_, hready.notMem_needsGlobal (by decide)⟩,
    ⟨Finset.mem_insert_self .., notMem_needs ?_, hready.notMem_needsGlobal (by decide)⟩,
    ⟨Finset.mem_insert_self .., notMem_needs ?_, hready.notMem_needsGlobal (by decide)⟩, hQ⟩
  · cases g' <;> decide
  · simpa using hready.data
  · simpa using hready.data

/-! ## Threads -/

/-- What there is once in `main` after the widgets are initialized, by the variables that
`cleanup` looks at. -/
def mainGlobals (threads inited sep : Bool) : Finset Global :=
  initGlobals true sep ∪ (if inited then {.setMtx, .barlibHandle, .barlibData} else ∅) ∪
    if threads then {.threads} else ∅

/-- What a widget has while the threads run. -/
def Entry.running : Entry → Finset Part
  | none => ∅
  | some _ => runningParts

@[simp] theorem Entry.parts_some (w : LoadedWidget) : Entry.parts (some w) = normalParts := rfl

@[simp] theorem Entry.running_some (w : LoadedWidget) : Entry.running (some w) = runningParts := rfl

/-- What leaves the process has no answer. -/
theorem wp_noAnswer {o : Op} {q : o.Answer → Prog α} {Q : α → Set Resource → Prop}
    {s : Set Resource} (hfits : o.Fits n) (ho : IsEmpty o.Answer) :
    (rules n).wp (call o >>= q) Q s := by
  rw [wp_bind]
  exact ⟨⟨hfits, fun x => ho.elim x⟩, fun x => ho.elim x⟩

theorem wp_use {r : Resource} {Q : Unit → Set Resource → Prop} {s : Set Resource} :
    (rules n).wp (use r) Q s ↔ r ∈ s ∧ Q () s := by
  constructor
  · intro h
    exact ⟨(h.1.2 ()).1, h.2 ()⟩
  · intro h
    exact ⟨⟨trivial, fun _ => ⟨h.1, trivial⟩⟩, fun _ => h.2⟩

theorem wp_setError {Q : Unit → Set Resource → Prop} {s : Set Resource}
    (hdata : .global .barlibData ∈ s) (hmtx : .global .setMtx ∈ s) (hQ : Q () s) :
    (rules n).wp (setError i) Q s := by
  unfold setError
  rw [wp_bind, wp_use]
  refine ⟨hmtx, ?_⟩
  rw [wp_bind]
  refine wp_ask [.global .barlibData, .global .setMtx] (fun _ => rfl) trivial ?_ fun fatal => ?_
  · simpa using ⟨hdata, hmtx⟩
  · rw [wp_bind, wp_onlyIf]
    split
    · exact wp_noAnswer trivial (inferInstanceAs (IsEmpty Empty))
    · exact wp_use.mpr ⟨hmtx, hQ⟩

theorem wp_registerFuncs {b : BarlibIface} {l : LuaState} {w : Option (Nat × PluginIface)}
    {Q : Unit → Set Resource → Prop} {s : Set Resource}
    (hdata : .global .barlibData ∈ s) (hlua : l.lua ∈ s)
    (hw : ∀ v ∈ w, l = .own v.1 ∧ .part v.1 .pluginData ∈ s) (hQ : Q () s) :
    (rules n).wp (registerFuncs b l w) Q s := by
  have hplugin : ∀ rest : Prog Unit, (w = none → rest = pure ()) →
      (∀ i iface, w = some (i, iface) →
        rest = onlyIf iface.registerFuncs (call (.pluginRegisterFuncs i))) →
      (rules n).wp rest Q s := by
    intro rest hnone hsome
    cases w with
    | none =>
        rw [hnone rfl]
        exact hQ
    | some v =>
        obtain ⟨i, iface⟩ := v
        obtain ⟨rfl, hpart⟩ := hw (i, iface) rfl
        rw [hsome i iface rfl, wp_onlyIf]
        split
        · refine wp_ask [.part i .pluginData, .part i .lua] (fun _ => rfl) trivial ?_ fun _ => hQ
          simpa using ⟨hpart, hlua⟩
        · exact hQ
  unfold registerFuncs
  rw [wp_bind]
  refine wp_ask [l.lua] (fun _ => rfl) trivial (by simpa using hlua) fun isTable => ?_
  rw [wp_onlyIf]
  split
  · rw [wp_bind, wp_onlyIf]
    split
    · refine wp_ask [.global .barlibData, l.lua] (fun _ => rfl) trivial ?_ fun _ => ?_
      · simpa using ⟨hdata, hlua⟩
      · exact hplugin _ (fun h => by rw [h]) fun i iface h => by rw [h]
    · exact hplugin _ (fun h => by rw [h]) fun i iface h => by rw [h]
  · exact hQ

theorem mem_mainGlobals (h : g = .barlibData ∨ g = .setMtx) : g ∈ mainGlobals true true sep := by
  rcases h with rfl | rfl <;> simp [mainGlobals]

theorem wp_spawn {b : BarlibIface} (hk : k < ws.length) :
    (rules n).wp (spawn b (ws[k], k) ())
      (fun _ s => s = ledger (mainGlobals true true sep)
        (stageParts Entry.running Entry.parts ws (k + 1)))
      (ledger (mainGlobals true true sep) (stageParts Entry.running Entry.parts ws k)) := by
  rw [stageParts_at hk, stageParts_succ hk]
  generalize stageParts Entry.running Entry.parts ws k = P
  generalize ws[k] = w
  cases w with
  | none =>
      refine wp_setError ?_ ?_ rfl
      · exact mem_mainGlobals (.inl rfl)
      · exact mem_mainGlobals (.inr rfl)
  | some w =>
      show (rules n).wp (registerFuncs b (.own k) (some (k, w.iface)) >>= _) _ _
      rw [wp_bind]
      refine wp_registerFuncs ?_ ?_ ?_ ?_
      · exact mem_mainGlobals (.inl rfl)
      · simp [LuaState.lua, Entry.parts, normalParts, loadedParts, freshParts]
      · rintro _ ⟨⟩
        simp [Entry.parts, normalParts]
      · rw [wp_acquire_part, Entry.parts_some]
        refine ⟨⟨by decide, by decide, fun g hg => ?_⟩, rfl⟩
        simp only [Part.needsGlobal, List.mem_cons, List.not_mem_nil, or_false] at hg
        rcases hg with rfl | rfl | rfl | rfl | rfl | rfl <;> simp [mainGlobals, initGlobals]

theorem wp_join (hk : k < ws.length) :
    (rules n).wp (join (ws[k], k) ())
      (fun _ s => s = ledger G (stageParts Entry.parts Entry.running ws (k + 1)))
      (ledger G (stageParts Entry.parts Entry.running ws k)) := by
  rw [stageParts_at hk, stageParts_succ hk]
  generalize stageParts Entry.parts Entry.running ws k = P
  generalize ws[k] = w
  cases w with
  | none => rfl
  | some w =>
      show (rules n).wp (onlyIf true _) _ _
      have hback : runningParts.erase .thread = normalParts := by decide
      rw [wp_onlyIf, if_pos rfl, wp_release_part, Entry.running_some, hback]
      exact ⟨by decide, rfl⟩

theorem wp_widgetDestroy (hk : k < ws.length) :
    (rules n).wp (widgetDestroy k ws[k])
      (fun _ s => s = ledger G (stageParts (fun _ => ∅) Entry.parts ws (k + 1)))
      (ledger G (stageParts (fun _ => ∅) Entry.parts ws k)) := by
  rw [stageParts_at hk, stageParts_succ hk]
  generalize stageParts (fun _ => ∅) Entry.parts ws k = P
  generalize ws[k] = w
  cases w with
  | none => rfl
  | some w =>
      have hnone : ((((((normalParts.erase .pluginData).erase .pluginName).erase
          .pluginHandle).erase .lua).erase .luaMtx).erase .filename).erase .comm = ∅ := by decide
      simp only [widgetDestroy, Option.isSome_some, wp_onlyIf, if_true, pluginUnload, wp_bind,
        wp_release_part, Entry.parts_some, hnone, and_true]
      exact ⟨by decide, by decide, by decide, by decide, by decide, by decide, by decide⟩

/-! ## The end -/

theorem wp_widgetsDestroy (hws : .widgets ∈ G) {Q : Unit → Set Resource → Prop}
    (hQ : Q () (ledger (G.erase .widgets) fun _ => ∅)) :
    (rules n).wp (widgetsDestroy (some ws)) Q (ledger G (partsOf Entry.parts ws)) := by
  show (rules n).wp (Calls.Prog.forEach _ _ _ >>= _) _ _
  rw [wp_bind, ← stageParts_start (f := fun _ => ∅)]
  refine wp_mono (wp_forEach_zipIdx (fun k _ s => s = ledger G (stageParts (fun _ => ∅)
    Entry.parts ws k)) (fun k hk _ s hs => ?_) rfl) fun _ s hs => ?_
  · rw [hs]
    exact wp_widgetDestroy hk
  · have hnone : partsOf (fun _ => ∅) ws = fun _ => ∅ := by
      funext i
      unfold partsOf
      cases ws[i]? <;> rfl
    rw [hs, stageParts_end, hnone, wp_release_global]
    refine ⟨⟨hws, fun g' _ => ?_, fun _ _ hp => by cases hp⟩, hQ⟩
    cases g' <;> decide

theorem thread_notMem_partsOf : .thread ∉ partsOf Entry.parts ws i := by
  unfold partsOf
  cases ws[i]? with
  | none => exact Finset.notMem_empty _
  | some w =>
      cases w with
      | none => exact Finset.notMem_empty _
      | some w => exact (by decide : Part.thread ∉ normalParts)

theorem barlibReady : BarlibReady (initGlobals true sep) (partsOf Entry.parts ws) where
  setMtx := by cases sep <;> decide
  handle := by cases sep <;> decide
  data := by cases sep <;> decide
  noThread _ := thread_notMem_partsOf

theorem wp_sepstateMaybeDestroy {Q : Unit → Set Resource → Prop} (hlua : .sepLua ∉ G)
    (hmtx : .sepMtx ∉ G) (hdata : .barlibData ∉ G) (hP : ∀ i, P i = ∅) (hQ : Q () (ledger G P)) :
    (rules n).wp (sepstateMaybeDestroy sep) Q (ledger (G ∪ sepGlobals sep) P) := by
  cases sep with
  | false => simpa [sepstateMaybeDestroy, wp_onlyIf, sepGlobals] using hQ
  | true =>
      have hboth : ((G ∪ sepGlobals true).erase .sepLua).erase .sepMtx = G := by
        ext g
        simp only [sepGlobals, if_true, Finset.mem_erase, Finset.mem_union, Finset.mem_insert,
          Finset.mem_singleton]
        constructor
        · rintro ⟨hmtx', hlua', hg⟩
          exact hg.resolve_right fun hsep => hsep.elim hlua' hmtx'
        · intro hg
          exact ⟨fun h => hmtx (h ▸ hg), fun h => hlua (h ▸ hg), .inl hg⟩
      have hdata' : Global.barlibData ∉ G ∪ sepGlobals true := by
        simpa [sepGlobals] using hdata
      simp only [sepstateMaybeDestroy, wp_onlyIf, if_true, wp_bind, wp_release_global, hboth]
      refine ⟨⟨by simp [sepGlobals], notMem_needs hdata', fun i q hq => ?_⟩,
        ⟨by simp [sepGlobals], notMem_needs ?_, fun i q hq => ?_⟩, hQ⟩
      · rw [hP i] at hq
        cases hq
      · simpa using hdata'
      · rw [hP i] at hq
        cases hq

/-- Nothing is held. -/
theorem ledger_empty : ledger ∅ (fun _ => ∅) = ∅ := by
  ext r
  cases r <;> simp

/-- `barlib_args.data` is `NULL` only as long as nothing has been pushed. -/
def BarlibArgs.Ok (a : BarlibArgs) : Prop := a.data.length ≤ a.capacity

/-- What is held for `barlib_args`. -/
def BarlibArgs.globals (a : BarlibArgs) : Finset Global :=
  if a.capacity ≠ 0 then {.barlibArgs} else ∅

theorem wp_barlibArgsFree {a : BarlibArgs} {Q : Unit → Set Resource → Prop} :
    (rules n).wp (barlibArgsFree a) Q (ledger a.globals fun _ => ∅) ↔
      Q () (ledger ∅ fun _ => ∅) := by
  rw [barlibArgsFree, wp_onlyIf, BarlibArgs.globals]
  by_cases h : a.capacity = 0
  · simp [h]
  · simp only [ne_eq, h, not_false_eq_true, decide_true, if_true, wp_release_global]
    rw [show ({.barlibArgs} : Finset Global).erase .barlibArgs = ∅ by decide]
    refine and_iff_right ⟨by decide, notMem_needs (by decide), fun _ _ hp => by cases hp⟩

/-- A run that does not accept its options destroys what it has not initialized. -/
theorem not_wp_cleanup {a : BarlibArgs} {ret : Nat} {Q : Nat → Set Resource → Prop} :
    ¬(rules n).wp (cleanup ⟨a, false, none, false, false⟩ ret) Q (ledger a.globals fun _ => ∅) := by
  intro h
  rw [cleanup, wp_bind, wp_barlibArgsFree] at h
  simp only [wp_bind, wp_onlyIf, Bool.false_eq_true, if_false, widgetsDestroy, wp_pure,
    sepstateMaybeDestroy, wp_release_global] at h
  exact absurd h.1.1 (Finset.notMem_empty _)

theorem mainGlobals_free {inited : Bool} :
    ((mainGlobals true inited sep).erase .barlibArgs).erase .threads =
      (mainGlobals false inited sep).erase .barlibArgs := by
  cases inited <;> cases sep <;> decide

theorem mainGlobals_destroy {inited : Bool} :
    ((mainGlobals false inited sep).erase .barlibArgs).erase .widgets =
      if inited then barlibGlobals ({.commMtx} ∪ sepGlobals sep)
      else {.commMtx} ∪ sepGlobals sep := by
  cases inited <;> cases sep <;> decide

/-- `cleanup` gives everything back. -/
theorem wp_cleanup {a : BarlibArgs} (ha : a.capacity ≠ 0) {threads inited : Bool} {ret : Nat} :
    (rules n).wp (cleanup ⟨a, threads, some ws, inited, sep⟩ ret) (fun _ s => s = ∅)
      (ledger (mainGlobals threads inited sep) (partsOf Entry.parts ws)) := by
  have hparts {g : Global} (hg : g ≠ .widgets) :
      ∀ i, ∀ q ∈ partsOf Entry.parts ws i, g ∉ q.needsGlobal := by
    intro i q hq
    refine notMem_needsGlobal (fun he => ?_) hg
    subst he
    exact thread_notMem_partsOf hq
  have hready : BarlibReady ({.commMtx} ∪ sepGlobals sep) fun _ => ∅ :=
    { setMtx := by cases sep <;> decide
      handle := by cases sep <;> decide
      data := by cases sep <;> decide
      noThread := fun _ => Finset.notMem_empty _ }
  have htail : (rules n).wp (sepstateMaybeDestroy sep >>= fun _ =>
      release (.global .commMtx) >>= fun _ => (pure ret : Prog Nat)) (fun _ s => s = ∅)
        (ledger ({.commMtx} ∪ sepGlobals sep) fun _ => ∅) := by
    rw [wp_bind]
    refine wp_sepstateMaybeDestroy (by decide) (by decide) (by decide) (fun _ => rfl) ?_
    rw [wp_bind, wp_release_global]
    exact ⟨⟨by decide, notMem_needs (by decide), fun _ _ hq => by cases hq⟩, ledger_empty⟩
  have hdestroy : (rules n).wp (widgetsDestroy (some ws) >>= fun _ =>
      onlyIf inited barlibDestroy >>= fun _ => sepstateMaybeDestroy sep >>= fun _ =>
        release (.global .commMtx) >>= fun _ => (pure ret : Prog Nat)) (fun _ s => s = ∅)
      (ledger ((mainGlobals false inited sep).erase .barlibArgs) (partsOf Entry.parts ws)) := by
    rw [wp_bind]
    refine wp_widgetsDestroy (by cases inited <;> cases sep <;> decide) ?_
    rw [mainGlobals_destroy, wp_bind, wp_onlyIf]
    cases inited with
    | false => exact htail
    | true => exact wp_barlibDestroy hready htail
  unfold cleanup
  rw [wp_bind, barlibArgsFree, wp_onlyIf, if_pos (by simpa using ha), wp_release_global]
  refine ⟨⟨?_, ?_, hparts (by decide)⟩, ?_⟩
  · simp [mainGlobals, initGlobals]
  · cases threads <;> cases inited <;> cases sep <;> decide
  · rw [wp_bind, wp_onlyIf]
    cases threads with
    | false => exact hdestroy
    | true =>
        rw [if_pos rfl, wp_release_global, mainGlobals_free]
        refine ⟨⟨by simp [mainGlobals], ?_, hparts (by decide)⟩, hdestroy⟩
        cases inited <;> cases sep <;> decide

/-- What a widget's events and its thread use is there. -/
theorem widgetUses_subset {w : Entry} (hw : ws[i]? = some w) (hsep : Entry.SepOk w sep)
    {r : Resource} (hr : r ∈ widgetUses w.widget i) :
    r ∈ ledger (mainGlobals true true sep) (partsOf Entry.running ws) := by
  have hparts {p : Part} : p ∈ partsOf Entry.running ws i ↔ p ∈ w.running := by
    simp [partsOf, hw]
  have hsepState (h : sep = true) : .global .sepLua ∈ ledger (mainGlobals true true sep)
        (partsOf Entry.running ws) ∧
      .global .sepMtx ∈ ledger (mainGlobals true true sep) (partsOf Entry.running ws) := by
    subst h
    simp [mainGlobals, initGlobals, sepGlobals]
  cases w with
  | none =>
      obtain ⟨hlua, hmtx⟩ := hsepState (hsep rfl)
      have hr' : r ∈ [LuaState.sep.lua, LuaState.sep.mtx] := hr
      simp only [List.mem_cons, List.not_mem_nil, or_false] at hr'
      rcases hr' with rfl | rfl
      · exact hlua
      · exact hmtx
  | some w =>
      have hthread : .part i .thread ∈ ledger (mainGlobals true true sep)
          (partsOf Entry.running ws) := by
        rw [mem_ledger_part, hparts]
        exact (by decide : Part.thread ∈ runningParts)
      have hown : .part i .lua ∈ ledger (mainGlobals true true sep) (partsOf Entry.running ws) ∧
          .part i .luaMtx ∈ ledger (mainGlobals true true sep) (partsOf Entry.running ws) := by
        simp only [mem_ledger_part, hparts]
        exact (by decide : Part.lua ∈ runningParts ∧ Part.luaMtx ∈ runningParts)
      obtain ⟨iface, event⟩ := w
      cases event with
      | nil | function =>
          have hr' : r ∈ [(LuaState.own i).lua, (LuaState.own i).mtx, .part i .thread] := hr
          simp only [List.mem_cons, List.not_mem_nil, or_false] at hr'
          rcases hr' with rfl | rfl | rfl
          · exact hown.1
          · exact hown.2
          · exact hthread
      | string =>
          obtain ⟨hlua, hmtx⟩ := hsepState (hsep rfl)
          have hr' : r ∈ [LuaState.sep.lua, LuaState.sep.mtx, .part i .thread] := hr
          simp only [List.mem_cons, List.not_mem_nil, or_false] at hr'
          rcases hr' with rfl | rfl | rfl
          · exact hlua
          · exact hmtx
          · exact hthread

theorem wp_runEventWatcher {b : BarlibIface} {Q : Unit → Set Resource → Prop}
    (hlen : ws.length = n) (hsep : ∀ w ∈ ws, Entry.SepOk w sep)
    (hQ : Q () (ledger (mainGlobals true true sep) (partsOf Entry.running ws))) :
    (rules n).wp (runEventWatcher b ws) Q
      (ledger (mainGlobals true true sep) (partsOf Entry.running ws)) := by
  have huses : ∀ r ∈ eventWatcherUses (ws.map Entry.widget),
      r ∈ ledger (mainGlobals true true sep) (partsOf Entry.running ws) := by
    intro r hr
    rcases List.mem_append.mp hr with hr | hr
    · simp only [List.mem_cons, List.not_mem_nil, or_false] at hr
      rcases hr with rfl | rfl
      · exact mem_mainGlobals (.inl rfl)
      · exact mem_mainGlobals (.inr rfl)
    · obtain ⟨⟨w, i⟩, hmem, hr⟩ := List.mem_flatMap.mp hr
      have hget := List.mem_zipIdx_iff_getElem?.mp hmem
      rw [List.getElem?_map, Option.map_eq_some_iff] at hget
      obtain ⟨e, he, rfl⟩ := hget
      exact widgetUses_subset he (hsep e (List.mem_of_getElem? he)) hr
  unfold runEventWatcher
  rw [wp_onlyIf]
  split
  · rw [wp_bind]
    refine wp_ask _ (fun _ => rfl) (by simpa [Op.Fits] using hlen) huses fun fatal => ?_
    rw [wp_onlyIf]
    split
    · exact wp_noAnswer trivial (inferInstanceAs (IsEmpty Empty))
    · exact hQ
  · exact hQ

/-- From the creation of `threads` on, for widgets that are initialized. -/
theorem wp_runAll {b : BarlibIface} {a : BarlibArgs} {eflag : Bool} (ha : a.capacity ≠ 0)
    (hlen : ws.length = n) (hsep : ∀ w ∈ ws, Entry.SepOk w sep) :
    (rules n).wp (runAll b a eflag ws sep) (fun _ s => s = ∅)
      (ledger (mainGlobals false true sep) (partsOf Entry.parts ws)) := by
  have hstart : insert .threads (mainGlobals false true sep) = mainGlobals true true sep := by
    cases sep <;> decide
  unfold runAll
  rw [wp_bind]
  have hregister : (rules n).wp (onlyIf sep (registerFuncs b .sep none))
      (fun _ s => s = ledger (mainGlobals false true sep) (partsOf Entry.parts ws))
      (ledger (mainGlobals false true sep) (partsOf Entry.parts ws)) := by
    rw [wp_onlyIf]
    split
    · rename_i h
      subst h
      refine wp_registerFuncs ?_ ?_ (fun v hv => by cases hv) rfl
      · simp [mainGlobals]
      · simp [LuaState.lua, mainGlobals, initGlobals, sepGlobals]
    · rfl
  refine wp_mono hregister fun _ s hs => ?_
  rw [hs, wp_bind, wp_acquire_global, hstart]
  refine ⟨⟨by cases sep <;> decide, List.forall_mem_nil _⟩, ?_⟩
  rw [wp_bind, ← stageParts_start (f := Entry.running)]
  refine wp_mono (wp_forEach_zipIdx (fun k _ s => s = ledger (mainGlobals true true sep)
    (stageParts Entry.running Entry.parts ws k)) (fun k hk _ s hs => ?_) rfl) fun _ s hs => ?_
  · rw [hs]
    exact wp_spawn hk
  rw [hs, stageParts_end, wp_bind]
  refine wp_runEventWatcher hlen hsep ?_
  rw [wp_bind, ← stageParts_start (f := Entry.parts)]
  refine wp_mono (wp_forEach_zipIdx (fun k _ s => s = ledger (mainGlobals true true sep)
    (stageParts Entry.parts Entry.running ws k)) (fun k hk _ s hs => ?_) rfl) fun _ s hs => ?_
  · rw [hs]
    exact wp_join hk
  rw [hs, stageParts_end, wp_bind, wp_onlyIf]
  split
  · exact wp_noAnswer trivial (inferInstanceAs (IsEmpty Empty))
  · exact wp_cleanup ha

/-! ## The options -/

/-- `barlib_args` after `barlib_args_push`. -/
def BarlibArgs.pushed (a : BarlibArgs) (s : Option CString) : BarlibArgs :=
  if a.data.length = a.capacity then ⟨a.data ++ [s], max 1 (2 * a.capacity)⟩
  else ⟨a.data ++ [s], a.capacity⟩

theorem BarlibArgs.Ok.pushed {a : BarlibArgs} (h : a.Ok) (s : Option CString) :
    (a.pushed s).Ok ∧ (a.pushed s).capacity ≠ 0 := by
  have hle : a.data.length ≤ a.capacity := h
  unfold BarlibArgs.Ok BarlibArgs.pushed
  split
  · simp only [List.length_append, List.length_singleton]
    omega
  · simp only [List.length_append, List.length_singleton]
    omega

theorem wp_barlibArgsPush {a : BarlibArgs} (ha : a.Ok) {s : Option CString}
    {Q : BarlibArgs → Set Resource → Prop}
    (hG : .barlibArgs ∈ G ↔ a.capacity ≠ 0) :
    (rules n).wp (barlibArgsPush a s) Q (ledger G P) ↔
      Q (a.pushed s) (ledger (insert .barlibArgs G) P) := by
  have hle : a.data.length ≤ a.capacity := ha
  have hheld (hc : a.capacity ≠ 0) : insert .barlibArgs G = G := Finset.insert_eq_of_mem (hG.mpr hc)
  unfold barlibArgsPush barlibArgsGrow BarlibArgs.pushed
  by_cases hfull : a.data.length = a.capacity
  · rw [if_pos hfull, if_pos hfull, wp_bind]
    by_cases hc : a.capacity = 0
    · rw [if_pos hc, wp_acquire_global]
      refine and_iff_right ⟨fun hmem => hG.mp hmem hc, List.forall_mem_nil _⟩
    · rw [if_neg hc, hheld hc, wp_use]
      exact and_iff_right (hG.mpr hc)
  · rw [if_neg hfull, if_neg hfull, hheld (by omega)]
    rfl

theorem makes_barlibArgsPush {P' : Op → Prop} (hacquire : P' (.acquire (.global .barlibArgs)))
    (huse : P' (.use (.global .barlibArgs))) {a : BarlibArgs} {s : Option CString} :
    Makes (I := interface) P' (barlibArgsPush a s) :=
  .ite (.bind (.ite (makes_call hacquire) (makes_call huse)) fun _ => .pure _) (.pure _)

theorem makes_parseOpts {P' : Op → Prop} (hacquire : P' (.acquire (.global .barlibArgs)))
    (huse : P' (.use (.global .barlibArgs))) {opts : List Opt} {a : Args} :
    Makes (I := interface) P' (parseOpts opts a) := by
  induction opts generalizing a with
  | nil => exact .pure _
  | cons o os ih =>
      cases o with
      | b s => exact ih
      | e => exact ih
      | v | bad => exact .pure _
      | l s => exact .ite (.pure _) ih
      | B s => exact .bind (makes_barlibArgsPush hacquire huse) fun _ => ih

/-- `cleanup`, after options that are not accepted. -/
theorem makes_cleanup {P' : Op → Prop} (hargs : P' (.release (.global .barlibArgs)))
    (hcomm : P' (.release (.global .commMtx))) {a : BarlibArgs} {ret : Nat} :
    Makes (I := interface) P' (cleanup ⟨a, false, none, false, false⟩ ret) := by
  refine .bind (makes_onlyIf (makes_call hargs)) fun _ => .bind (.pure ()) fun _ => ?_
  refine .bind (.pure ()) fun _ => .bind (.pure ()) fun _ => .bind (.pure ()) fun _ => ?_
  exact .bind (makes_call hcomm) fun _ => .pure _

/-- What the options say: whether they are accepted, and the arguments. -/
def parsed : List Opt → Args → Bool × Args
  | [], a => (true, a)
  | .b s :: os, a => parsed os { a with barlibName := some s }
  | .B s :: os, a => parsed os { a with barlibArgs := a.barlibArgs.pushed (some s) }
  | .l s :: os, a => if loglevelFromstr s = loglevelNames.length then (false, a) else parsed os a
  | .e :: os, a => parsed os { a with eflag := true }
  | .v :: _, a => (false, a)
  | .bad :: _, a => (false, a)

theorem barlibArgs_mem_globals {a : BarlibArgs} : .barlibArgs ∈ a.globals ↔ a.capacity ≠ 0 := by
  unfold BarlibArgs.globals
  split <;> simp_all

theorem insert_barlibArgs {a : BarlibArgs} {s : Option CString} (ha : a.Ok) :
    insert .barlibArgs a.globals = (a.pushed s).globals := by
  rw [BarlibArgs.globals, BarlibArgs.globals, if_pos (ha.pushed s).2]
  split <;> decide

theorem wp_parseOpts {opts : List Opt} {a : Args} (ha : a.barlibArgs.Ok)
    {Q : Bool × Args → Set Resource → Prop} :
    (rules n).wp (parseOpts opts a) Q (ledger a.barlibArgs.globals P) ↔
      Q (parsed opts a) (ledger (parsed opts a).2.barlibArgs.globals P) := by
  induction opts generalizing a with
  | nil => rfl
  | cons o os ih =>
      cases o with
      | b s => exact ih ha
      | e => exact ih ha
      | v | bad => rfl
      | l s =>
          rw [parseOpts, parsed]
          split
          · rfl
          · exact ih ha
      | B s =>
          rw [parseOpts, parsed, wp_bind, wp_barlibArgsPush ha barlibArgs_mem_globals,
            insert_barlibArgs ha]
          exact ih (ha.pushed (some s)).1

theorem eq_parsed {opts : List Opt} {a : Args} (ha : a.barlibArgs.Ok) {h : List (Event interface)}
    {r : Bool × Args} (hexec : Executes (parseOpts opts a) h (.returned r)) : r = parsed opts a :=
  (wp_iff (C := rules 0) (parseOpts opts a) (fun r _ => r = parsed opts a) _).mp
    ((wp_parseOpts (P := fun _ => ∅) ha).mpr rfl) h _ hexec

theorem parsed_ok {opts : List Opt} {a : Args} (ha : a.barlibArgs.Ok) :
    (parsed opts a).2.barlibArgs.Ok := by
  induction opts generalizing a with
  | nil => exact ha
  | cons o os ih =>
      cases o with
      | b s => exact ih ha
      | e => exact ih ha
      | v | bad => exact ha
      | l s =>
          rw [parsed]
          split
          · exact ha
          · exact ih ha
      | B s => exact ih (ha.pushed (some s)).1

/-- An option that `main` goes on after. -/
def Opt.Fine : Opt → Prop
  | .l s => s.bytes ∈ loglevelNames
  | .v | .bad => False
  | _ => True

/-- `main` accepts the options: none of them ends it, and the barlib is named. -/
def Accepted (opts : List Opt) : Prop := (∀ o ∈ opts, o.Fine) ∧ ∃ name, .b name ∈ opts

theorem loglevelFromstr_eq_length {s : CString} :
    loglevelFromstr s = loglevelNames.length ↔ s.bytes ∉ loglevelNames := by
  have hnul : ∀ name ∈ loglevelNames, (0 : Text.Byte) ∉ name := by decide
  rw [loglevelFromstr, List.findIdx_eq_length]
  constructor
  · intro h hmem
    have := h _ hmem
    rw [decide_eq_false_iff_not, Text.strcmpBytes_eq_zero s.noNul s.noNul] at this
    exact this rfl
  · intro h name hname
    rw [decide_eq_false_iff_not, Text.strcmpBytes_eq_zero s.noNul (hnul name hname)]
    intro he
    exact h (he ▸ hname)

theorem parsed_accepts {opts : List Opt} {a : Args} :
    ((parsed opts a).1 = true ∧ (parsed opts a).2.barlibName.isSome) ↔
      (∀ o ∈ opts, o.Fine) ∧ (a.barlibName.isSome ∨ ∃ name, .b name ∈ opts) := by
  induction opts generalizing a with
  | nil => simp [parsed]
  | cons o os ih =>
      cases o with
      | b s =>
          rw [parsed, ih]
          simp [Opt.Fine]
      | B s =>
          rw [parsed, ih]
          simp [Opt.Fine]
      | e =>
          rw [parsed, ih]
          simp [Opt.Fine]
      | v | bad => simp [parsed, Opt.Fine]
      | l s =>
          rw [parsed]
          split
          · rename_i h
            have hnot : ¬(Opt.l s).Fine := loglevelFromstr_eq_length.mp h
            simp [hnot]
          · rename_i h
            have hfine : (Opt.l s).Fine := by
              by_contra hnot
              exact h (loglevelFromstr_eq_length.mpr hnot)
            rw [ih]
            simp [hfine]

/-! ## main -/

/-- The arguments before the options are parsed. -/
def noArgs : Args := ⟨none, barlibArgsNew, false⟩

theorem noArgs_ok : noArgs.barlibArgs.Ok := Nat.zero_le _

theorem accepted_iff {opts : List Opt} :
    Accepted opts ↔ ∃ name, (if (parsed opts noArgs).1 then (parsed opts noArgs).2.barlibName
      else none) = some name := by
  have hspec : _ ↔ (∀ o ∈ opts, o.Fine) ∧ (noArgs.barlibName.isSome ∨ ∃ name, .b name ∈ opts) :=
    parsed_accepts
  rw [Accepted, ← Option.isSome_iff_exists]
  refine Iff.trans ?_ (hspec.symm.trans ?_)
  · simp [noArgs]
  · cases (parsed opts noArgs).1 <;> simp

/-- `main`, from `comm_global_init` on. -/
theorem wp_accepted {a : Args} {name : CString} (ha : a.barlibArgs.Ok)
    {filenames : List CString} :
    (rules filenames.length).wp (do
      acquire (.global .commMtx)
      let (ws, sep) ← widgetsInit B filenames
      let args ← barlibArgsPush a.barlibArgs none
      let barlib ← barlibInitByName B name args.data filenames.length
      match barlib with
      | none => cleanup ⟨args, false, some ws, false, sep⟩ 1
      | some b => runAll b args a.eflag ws sep) (fun _ s => s = ∅)
      (ledger a.barlibArgs.globals fun _ => ∅) := by
  let full : Bool := a.barlibArgs.capacity ≠ 0
  have hglobals : insert .commMtx a.barlibArgs.globals =
      (initGlobals full false).erase .widgets := by
    unfold BarlibArgs.globals
    by_cases h : a.barlibArgs.capacity = 0
    · simp only [full, h, ne_eq, not_true_eq_false, if_false, decide_false]
      decide
    · simp only [full, h, ne_eq, not_false_eq_true, if_true, decide_true]
      decide
  have hcomm : .commMtx ∉ a.barlibArgs.globals := by
    unfold BarlibArgs.globals
    split <;> decide
  rw [wp_bind, wp_acquire_global, hglobals]
  refine ⟨⟨hcomm, List.forall_mem_nil _⟩, ?_⟩
  rw [wp_bind]
  refine wp_mono wp_widgetsInit ?_
  rintro ⟨ws, sep⟩ s ⟨hlen, rfl, hsep⟩
  have hfull : .barlibArgs ∈ initGlobals full sep ↔ a.barlibArgs.capacity ≠ 0 := by
    by_cases h : a.barlibArgs.capacity = 0
    · simp only [full, h, ne_eq, not_true_eq_false, decide_false, iff_false]
      cases sep <;> decide
    · simp [full, h, initGlobals]
  have hinsert : insert .barlibArgs (initGlobals full sep) = initGlobals true sep := by
    cases full <;> cases sep <;> decide
  have hnone : mainGlobals false false sep = initGlobals true sep := by
    cases sep <;> decide
  have hsome : mainGlobals false true sep = barlibGlobals (initGlobals true sep) := by
    cases sep <;> decide
  have hcapacity := (ha.pushed none).2
  rw [wp_bind, wp_barlibArgsPush ha hfull, hinsert, wp_bind]
  refine wp_barlibInitByName barlibReady ?_ ?_ (fun b => ?_) ?_
  · simp [initGlobals]
  · cases sep <;> decide
  · rw [← hsome]
    exact wp_runAll hcapacity hlen hsep
  · rw [← hnone]
    exact wp_cleanup hcapacity

/-- Whatever the environment answers, `main` uses and releases only what it holds, takes nothing
away that is needed, runs the event watcher only with all Lua states and threads in place, and holds
nothing when it returns, if and only if its options are accepted. -/
theorem main_keeps_iff (B : Build) (opts : List Opt) (filenames : List CString) :
    (∀ h r, Executes (main B opts filenames) h r →
      (rules filenames.length).Keeps (fun _ s => s = ∅) ((rules filenames.length).after ∅ h) r) ↔
      Accepted opts := by
  have hparse (Q : Bool × Args → Set Resource → Prop) :
      (rules filenames.length).wp (parseOpts opts noArgs) Q ∅ ↔
        Q (parsed opts noArgs) (ledger (parsed opts noArgs).2.barlibArgs.globals fun _ => ∅) := by
    rw [← ledger_empty]
    exact wp_parseOpts noArgs_ok
  have hargs : (parsed opts noArgs).2.barlibArgs.Ok := parsed_ok noArgs_ok
  rw [← wp_iff, main, wp_bind, accepted_iff]
  refine (hparse _).trans ?_
  generalize parsed opts noArgs = r at *
  obtain ⟨ok, a⟩ := r
  cases hname : if ok then a.barlibName else none with
  | none =>
      refine iff_of_false (fun h => ?_) fun h => by cases h.choose_spec
      simp only [hname] at h
      exact not_wp_cleanup h
  | some name =>
      refine iff_of_true ?_ ⟨name, rfl⟩
      simp only [hname]
      exact wp_accepted hargs

variable {opts : List Opt} {filenames : List CString}

theorem rules_after {s : Set Resource} {h : List (Event interface)} :
    (rules n).after s h = applyAll s (Resources.accesses accesses h) := after_eq needs h

theorem legalAll_of_accepted (haccepted : Accepted opts) {h : List (Event interface)}
    {r : Place interface Nat} (hexec : Executes (main B opts filenames) h r) :
    LegalAll needs ∅ (Resources.accesses accesses h) := by
  have hwp := (wp_iff (C := rules filenames.length) (main B opts filenames) _ ∅).mpr
    ((main_keeps_iff B opts filenames).mpr haccepted)
  exact legalAll_of_wp (wp_of_restrict hwp) hexec

/-- When `main` returns, it has given back everything as often as it has acquired it: so a plugin's
`destroy()` has been called exactly if its `init()` had succeeded, each mutex that was initialized
is destroyed, and so on. -/
theorem main_balanced (haccepted : Accepted opts) {h : List (Event interface)} {ret : Nat}
    (hexec : Executes (main B opts filenames) h (.returned ret)) (r : Resource) :
    (Resources.accesses accesses h).count (.acquire r) =
      (Resources.accesses accesses h).count (.release r) := by
  have hbalance := count_acquires (legalAll_of_accepted haccepted hexec) r
  have hend : (rules filenames.length).after ∅ h = ∅ :=
    (main_keeps_iff B opts filenames).mpr haccepted h _ hexec
  rw [← rules_after, hend] at hbalance
  exact Nat.add_right_cancel hbalance

/-- A barlib is named, and `-e` is given. -/
def someOpts : List Opt := [.b ⟨[98], by decide⟩, .e]

/-- A file name. -/
def someFile : CString := ⟨[119], by decide⟩

def someBuild : Build := ⟨503, [], []⟩

theorem someOpts_accepted : Accepted someOpts := by
  refine ⟨fun o ho => ?_, _, List.mem_cons_self⟩
  simp only [someOpts, List.mem_cons, List.not_mem_nil, or_false] at ho
  rcases ho with rfl | rfl <;> trivial

open Executes in
/-- One widget, whose file cannot be loaded. -/
theorem main_balanced_stillborn :
    ∃ h, Executes (main someBuild someOpts [someFile]) h (.returned 0) ∧
      ∀ r, (Resources.accesses accesses h).count (.acquire r) =
        (Resources.accesses accesses h).count (.release r) := by
  have hexec : ∃ h, Executes (main someBuild someOpts [someFile]) h (.returned 0) := by
    -- The widget, up to its file, and its end.
    refine next () (next () (next () (next () (next () (next () (next () (next false ?_)))))))
    refine next () (next () (next () (next () (next () (next () (next () ?_))))))
    -- The barlib.
    refine next () (next () (next () (next true (next (some 503) (next (some ⟨true, true⟩)
      (next true (next () ?_)))))))
    -- The separate state, the stillborn widget and the event watcher.
    refine next ⟨true, fun _ => rfl⟩ (next () (next () (next () (next false (next ()
      (next false ?_))))))
    -- The cleanup.
    refine next () (next () (next () (next () (next () (next () (next () (next () (next ()
      ?_))))))))
    exact ⟨_, .ret⟩
  obtain ⟨h, hexec⟩ := hexec
  exact ⟨h, hexec, main_balanced someOpts_accepted hexec⟩

/-- The event watcher is called only after `main` has accepted its options. -/
theorem accepted_of_eventWatcher {h : List (Event interface)} {ws : List Widget}
    (hexec : Executes (main B opts filenames) h (.inCall (.barlibEventWatcher ws))) :
    Accepted opts := by
  rw [accepted_iff]
  let NoWatcher (o : Op) : Prop := ∀ ws, o ≠ .barlibEventWatcher ws
  have hnone {a : BarlibArgs} : Makes (I := interface) NoWatcher
      (cleanup ⟨a, false, none, false, false⟩ 1) :=
    makes_cleanup (fun _ h => by cases h) fun _ h => by cases h
  rcases hexec.of_bind with ⟨o, ho, hparse⟩ | ⟨r, _, h₂, hparse, hrest⟩
  · cases ho
    have hno : NoWatcher (.barlibEventWatcher ws) :=
      (makes_parseOpts (fun _ h => by cases h) fun _ h => by cases h).inCall hparse
    exact absurd rfl (hno ws)
  · obtain rfl := eq_parsed noArgs_ok hparse
    generalize parsed opts noArgs = r at *
    obtain ⟨ok, a⟩ := r
    cases hname : if ok then a.barlibName else none with
    | none =>
        simp only [hname] at hrest
        exact absurd rfl (hnone.inCall hrest ws)
    | some name => exact ⟨name, rfl⟩

/-- When the event watcher is called, the Lua state that the events of a widget go to is there with
its mutex, and each widget that is not stillborn has its thread, with everything that a thread
needs, the library of its plugin and that of the barlib among it. -/
theorem eventWatcher_ready {h : List (Event interface)} {ws : List Widget}
    (hexec : Executes (main B opts filenames) h (.inCall (.barlibEventWatcher ws))) :
    ws.length = filenames.length ∧ ∀ i w, ws[i]? = some w →
      (widgetEventLuaState w i).lua ∈ (rules filenames.length).after ∅ h ∧
      (widgetEventLuaState w i).mtx ∈ (rules filenames.length).after ∅ h ∧
      (w.isStillborn = false → .part i .thread ∈ (rules filenames.length).after ∅ h ∧
        ∀ r, needs (.part i .thread) r → r ∈ (rules filenames.length).after ∅ h) := by
  have haccepted := accepted_of_eventWatcher hexec
  have hkeeps : (rules filenames.length).pre (.barlibEventWatcher ws)
      ((rules filenames.length).after ∅ h) :=
    (main_keeps_iff B opts filenames).mpr haccepted h _ hexec
  have huses := legalAll_uses.mp (hkeeps.2 true)
  have hclosed : Closed needs ((rules filenames.length).after ∅ h) := by
    have hempty : Closed needs ∅ := fun _ ha => ha.elim
    rw [rules_after]
    exact hempty.applyAll (legalAll_of_accepted haccepted hexec)
  refine ⟨hkeeps.1, fun i w hw => ?_⟩
  have hwidget {r : Resource} (hr : r ∈ widgetUses w i) :
      r ∈ (rules filenames.length).after ∅ h := by
    refine huses r (List.mem_append_right _ (List.mem_flatMap.mpr ⟨(w, i), ?_, hr⟩))
    exact List.mem_zipIdx_iff_getElem?.mpr hw
  refine ⟨hwidget (by simp [widgetUses]), hwidget (by simp [widgetUses]), fun hborn => ?_⟩
  have hthread := hwidget (r := .part i .thread) (by simp [widgetUses, hborn])
  exact ⟨hthread, fun r hr => hclosed _ hthread r hr⟩

open Executes in
/-- One widget with an event function of its own. -/
theorem eventWatcher_ready_function :
    ∃ h, Executes (main someBuild someOpts [someFile]) h
        (.inCall (.barlibEventWatcher [Core.widgetInitInspectEvent .function])) ∧
      .part 0 .lua ∈ (rules 1).after ∅ h := by
  have hexec : ∃ h, Executes (main someBuild someOpts [someFile]) h
      (.inCall (.barlibEventWatcher [Core.widgetInitInspectEvent .function])) := by
    -- The widget, up to its plugin.
    refine next () (next () (next () (next () (next () (next () (next () ?_))))))
    refine next true (next true (next true (next (some someFile) ?_)))
    -- The plugin and the fields.
    refine next () (next () (next true (next (some 503) (next (some ⟨true⟩) (next () ?_)))))
    refine next true (next (some .function) (next OptsField.table (next true ?_)))
    -- The barlib.
    refine next () (next () (next () (next true (next (some 503) (next (some ⟨true, true⟩)
      (next true (next () ?_)))))))
    -- The thread.
    refine next () (next ⟨true, fun _ => rfl⟩ (next () (next () (next () ?_))))
    exact ⟨_, .asked⟩
  obtain ⟨h, hexec⟩ := hexec
  exact ⟨h, hexec, ((eventWatcher_ready hexec).2 0 _ rfl).1⟩

end Luastatus.Core.LifeCycle

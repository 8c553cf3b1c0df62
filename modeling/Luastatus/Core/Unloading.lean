import Luastatus.Core.Ownership

/-!
# Libraries that Lua states still use

A plugin or the barlib that is called with a Lua state may leave functions and userdata of its
library in it.  `lua_close` calls the finalizers of the userdata; so the library must not be closed
while the state is open.  `linking` follows which libraries are linked with which Lua states in this
way, and which of these links become dangling.

`widget_init` heeds this: after a failure, it closes the Lua state before the plugin.
`widget_destroy` does not, and `main` closes the separate state after the barlib.  So the links that
dangle when `main` returns are those of the plugins whose widgets were initialized, and that of the
barlib with the separate state (`Settled`); a widget's Lua state is closed before the barlib.
-/

namespace Luastatus.Core.LifeCycle

open Text (Bytes CString)
open Calls Contract

/-- A library and a Lua state. -/
abbrev Link := Library × LuaState

/-- The Lua states that an operation calls a library with.  A thread runs the plugin's `run()`, and
calls the barlib's `set()` with the Lua state of the widget. -/
def Op.gives : Op → List Link
  | pluginInit i | pluginRegisterFuncs i => [(.plugin i, .own i)]
  | barlibRegisterFuncs l => [(.barlib, l)]
  | acquire (.part i .thread) => [(.plugin i, .own i), (.barlib, .own i)]
  | barlibEventWatcher ws => ws.zipIdx.map fun w => (.barlib, widgetEventLuaState w.1 w.2)
  | _ => []

/-- How the libraries are linked with the Lua states. -/
structure Links where
  /-- The widgets for which the plugin's `init()` has succeeded. -/
  inited : Set Nat
  /-- The library has been called with the Lua state. -/
  given : Set Link
  /-- It has, and the Lua state is open. -/
  live : Set Link
  /-- The library has been closed while the link was live. -/
  dangling : Set Link

namespace Links

def none : Links := ⟨∅, ∅, ∅, ∅⟩

def give (s : Links) (ps : List Link) : Links :=
  { s with given := { p | p ∈ ps } ∪ s.given, live := { p | p ∈ ps } ∪ s.live }

def init (s : Links) (i : Nat) : Links := { s with inited := insert i s.inited }

def release (s : Links) (r : Resource) : Links :=
  { s with
    live := { p ∈ s.live | p.2.lua ≠ r }
    dangling := { p ∈ s.live | p.1.handle = r } ∪ s.dangling }

/-- The links of the widget `i` that is initialized. -/
def Inited (s : Links) (p : Link) : Prop := ∃ i ∈ s.inited, p = (.plugin i, .own i)

/-- The links that dangle in the end. -/
def Settled (s : Links) : Prop :=
  ∀ p, p ∈ s.dangling ↔ s.Inited p ∨ p = (.barlib, .sep) ∧ p ∈ s.given

end Links

/-- What the calls do to the links. -/
def linking : Contract interface Links where
  pre _ _ := True
  next
    | ⟨.release r, _⟩, s => s.release r
    | ⟨.pluginInit i, ok⟩, s =>
        let s := s.give (Op.pluginInit i).gives
        if ok then s.init i else s
    | ⟨o, _⟩, s => s.give o.gives

variable {s t : Links} {o : Op} {i k : Nat} {l : Library} {α : Type} {B : Build} {ws : List Entry}
  {p : Link} {m : LuaState}

/-! ## Calls that leave the links alone -/

/-- The operation calls no library with a Lua state, and releases nothing. -/
def Op.Plain : Op → Prop
  | release _ | pluginInit _ | pluginRegisterFuncs _ | barlibRegisterFuncs _ => False
  | acquire (.part _ .thread) | barlibEventWatcher _ => False
  | _ => True

/-- The operation calls no library with a Lua state, and closes no library and no Lua state but
those of the widget `i`. -/
def Op.Within (i : Nat) (o : Op) : Prop :=
  o.gives = [] ∧ (∀ l : Library, o = .release l.handle → l = .plugin i) ∧
    ∀ m : LuaState, o = .release m.lua → m = .own i

/-- The operation calls no library with a Lua state, and closes nothing that is linked. -/
def Links.Unused (s : Links) (o : Op) : Prop :=
  o.gives = [] ∧ ∀ p ∈ s.live, o ≠ .release p.1.handle ∧ o ≠ .release p.2.lua

theorem Op.Plain.gives (h : o.Plain) : o.gives = [] := by
  unfold Op.gives
  split <;> first | rfl | cases h

theorem Op.Plain.ne_release (h : o.Plain) (r : Resource) : o ≠ .release r := by
  rintro rfl
  exact h

theorem Op.Plain.within (h : o.Plain) : o.Within i :=
  ⟨h.gives, fun _ hl => absurd hl (h.ne_release _), fun _ hl => absurd hl (h.ne_release _)⟩

theorem Op.Plain.unused (h : o.Plain) : s.Unused o :=
  ⟨h.gives, fun _ _ => ⟨h.ne_release _, h.ne_release _⟩⟩

@[simp] theorem handle_eq_part {q : Part} :
    l.handle = .part i q ↔ l = .plugin i ∧ q = .pluginHandle := by
  cases l <;> simp [Library.handle, eq_comm]

@[simp] theorem handle_eq_global {g : Global} :
    l.handle = .global g ↔ l = .barlib ∧ g = .barlibHandle := by
  cases l <;> simp [Library.handle, eq_comm]

@[simp] theorem lua_eq_part {q : Part} : m.lua = .part i q ↔ m = .own i ∧ q = .lua := by
  cases m <;> simp [LuaState.lua, eq_comm]

@[simp] theorem lua_eq_global {g : Global} : m.lua = .global g ↔ m = .sep ∧ g = .sepLua := by
  cases m <;> simp [LuaState.lua, eq_comm]

theorem within_release_part {q : Part} : (Op.release (.part i q)).Within i := by
  refine ⟨rfl, fun l hl => ?_, fun m hm => ?_⟩
  · exact (handle_eq_part.mp (Op.release.inj hl).symm).1
  · exact (lua_eq_part.mp (Op.release.inj hm).symm).1

/-- It is neither a library nor a Lua state. -/
def Global.Other (g : Global) : Prop := g ≠ .barlibHandle ∧ g ≠ .sepLua

theorem unused_release_global {g : Global} (h : g.Other) : s.Unused (.release (.global g)) := by
  refine ⟨rfl, fun p _ => ⟨fun he => ?_, fun he => ?_⟩⟩
  · exact h.1 (handle_eq_global.mp (Op.release.inj he).symm).2
  · exact h.2 (lua_eq_global.mp (Op.release.inj he).symm).2

theorem within_release_global {g : Global} (h : g.Other) : (Op.release (.global g)).Within i := by
  refine ⟨rfl, fun l hl => ?_, fun m hm => ?_⟩
  · exact absurd (handle_eq_global.mp (Op.release.inj hl).symm).2 h.1
  · exact absurd (lua_eq_global.mp (Op.release.inj hm).symm).2 h.2

/-- There are no links of the widget `i`. -/
def Links.Fresh (s : Links) (i : Nat) : Prop := ∀ p ∈ s.live, p.1 ≠ .plugin i ∧ p.2 ≠ .own i

theorem Op.Within.unused (h : o.Within i) (hs : s.Fresh i) : s.Unused o :=
  ⟨h.1, fun p hp => ⟨fun he => (hs p hp).1 (h.2.1 _ he), fun he => (hs p hp).2 (h.2.2 _ he)⟩⟩

@[simp] theorem Links.give_nil : s.give [] = s := by simp [Links.give]

theorem Links.release_eq (h : ∀ p ∈ s.live, p.1.handle ≠ r ∧ p.2.lua ≠ r) : s.release r = s := by
  have hlive : { p ∈ s.live | p.2.lua ≠ r } = s.live :=
    Set.sep_eq_self_iff_mem_true.mpr fun p hp => (h p hp).2
  have hnone : { p ∈ s.live | p.1.handle = r } = ∅ :=
    Set.sep_eq_empty_iff_mem_false.mpr fun p hp => (h p hp).1
  rw [Links.release, hlive, hnone, Set.empty_union]

theorem linking_next_unused (h : s.Unused o) (x : o.Answer) : linking.next ⟨o, x⟩ s = s := by
  obtain ⟨hgives, hlive⟩ := h
  cases o with
  | release r =>
      exact Links.release_eq fun p hp =>
        ⟨fun he => (hlive p hp).1 (he ▸ rfl), fun he => (hlive p hp).2 (he ▸ rfl)⟩
  | pluginInit i => cases hgives
  | _ => exact (congrArg s.give hgives).trans Links.give_nil

/-- The rule of a program that leaves the links alone. -/
theorem wp_unused {p : Prog α} {Q : α → Links → Prop} (hp : Makes s.Unused p) (hQ : ∀ a, Q a s) :
    linking.wp p Q s := by
  refine wp_mono (wp_of_makes hp fun o ho => ⟨trivial, linking_next_unused ho⟩) fun a t ht => ?_
  rw [ht]
  exact hQ a

/-! ## Before the plugin's `init()` -/

theorem makes_openLibrary {filename : Bytes} :
    Makes (I := interface) Op.Plain (openLibrary B l filename) := by
  unfold openLibrary
  refine .bind (makes_call trivial) fun ok => .ite ?_ (.pure _)
  refine .bind (makes_call trivial) fun version => ?_
  cases version with
  | none => exact .pure _
  | some v =>
      refine .ite (.bind (makes_call trivial) fun iface => ?_) (.pure _)
      cases iface <;> exact .pure _

theorem makes_pluginUnload : Makes (I := interface) (Op.Within i) (pluginUnload i) :=
  .bind (makes_call within_release_part) fun _ => makes_call within_release_part

theorem makes_pluginLoad {filename : Bytes} :
    Makes (I := interface) (Op.Within i) (pluginLoad B i filename) := by
  unfold pluginLoad
  refine .bind (makes_call (Op.Plain.within trivial)) fun _ => ?_
  refine .bind (makes_openLibrary.mono fun _ => Op.Plain.within) fun r => ?_
  cases r with
  | ok iface => exact .pure _
  | error dlhandle =>
      refine .bind (makes_onlyIf (makes_call within_release_part)) fun _ => ?_
      exact .bind (makes_call within_release_part) fun _ => .pure _

theorem tmpFilename_other : Global.tmpFilename.Other := ⟨by decide, by decide⟩

theorem makes_pluginLoadByName {name : CString} :
    Makes (I := interface) (Op.Within i) (pluginLoadByName B i name) := by
  refine .ite makes_pluginLoad ?_
  refine .bind (makes_call (Op.Plain.within trivial)) fun _ => .bind makes_pluginLoad fun r => ?_
  exact .bind (makes_call (within_release_global tmpFilename_other)) fun _ => .pure r

theorem makes_widgetInitInspectPlugin :
    Makes (I := interface) (Op.Within i) (widgetInitInspectPlugin B i) := by
  refine .bind (makes_call (Op.Plain.within trivial)) fun plugin => ?_
  cases plugin with
  | none => exact .pure _
  | some name => exact makes_pluginLoadByName

theorem makes_sepstateMaybeInit {sep : Bool} :
    Makes (I := interface) Op.Plain (sepstateMaybeInit sep) := by
  refine .ite (.pure _) (.bind (makes_call trivial) fun _ => ?_)
  exact .bind (makes_call trivial) fun _ => .bind (makes_call trivial) fun _ => .pure _

theorem makes_widgetInitInspectEvent {sep : Bool} :
    Makes (I := interface) (Op.Within i) (widgetInitInspectEvent i sep) := by
  refine .bind (makes_call (Op.Plain.within trivial)) fun event => ?_
  match event with
  | none | some .nil | some .function => exact .pure _
  | some .string =>
      refine .bind (makes_sepstateMaybeInit.mono fun _ => Op.Plain.within) fun _ => ?_
      refine .bind (makes_call (Op.Plain.within trivial)) fun _ => ?_
      refine .bind (makes_call (Op.Plain.within trivial)) fun _ => ?_
      refine .bind (makes_call (within_release_global ⟨by decide, by decide⟩)) fun _ => .pure _

/-! ## Widgets -/

theorem wp_link {Q : o.Answer → Links → Prop} :
    linking.wp (call o) Q s ↔ ∀ x, Q x (linking.next ⟨o, x⟩ s) := by
  refine (wp_perform ..).trans (and_iff_right trivial)

theorem wp_linkRelease {r : Resource} {Q : Unit → Links → Prop} :
    linking.wp (release r) Q s ↔ Q () (s.release r) :=
  wp_link.trans ⟨fun h => h (), fun h _ => h⟩

/-- The widget `i` is initialized. -/
def Initialized (ws : List Entry) (i : Nat) : Prop := ∃ w, ws[i]? = some (some w)

/-- The library is called with the Lua state, if it is: a plugin with that of its widget, the barlib
with the separate state and those of the widgets. -/
def Linkable (ws : List Entry) : Link → Prop
  | (.plugin i, m) => Initialized ws i ∧ m = .own i
  | (.barlib, m) => ∀ i, m = .own i → Initialized ws i

/-- The links while nothing has been destroyed: `ws` are the widgets. -/
structure Linked (ws : List Entry) (s : Links) : Prop where
  inited : ∀ i, i ∈ s.inited ↔ Initialized ws i
  plugin : ∀ i, Initialized ws i → (.plugin i, .own i) ∈ s.live
  live : ∀ p ∈ s.live, Linkable ws p
  given : ∀ m, (.barlib, m) ∈ s.given ↔ (.barlib, m) ∈ s.live
  dangling : s.dangling = ∅

/-- The barlib has no links yet. -/
def Links.NoBarlib (s : Links) : Prop := ∀ m, (.barlib, m) ∉ s.live

theorem initialized_append_none : Initialized (ws ++ [none]) i ↔ Initialized ws i := by
  unfold Initialized
  rw [List.getElem?_append]
  split
  · rfl
  · have hnone : ws[i]? = none := List.getElem?_eq_none (by omega)
    rw [List.getElem?_singleton, hnone]
    split <;> simp

theorem initialized_append_some {w : LoadedWidget} :
    Initialized (ws ++ [some w]) i ↔ i = ws.length ∨ Initialized ws i := by
  unfold Initialized
  rw [List.getElem?_append]
  split
  · have hne : i ≠ ws.length := by omega
    simp [hne]
  · have hnone : ws[i]? = none := List.getElem?_eq_none (by omega)
    rw [List.getElem?_singleton, hnone]
    by_cases hi : i = ws.length
    · simp [hi]
    · simp [hi, show i - ws.length ≠ 0 by omega]

theorem Initialized.lt_length (h : Initialized ws i) : i < ws.length := by
  obtain ⟨w, hw⟩ := h
  exact (List.getElem?_eq_some_iff.mp hw).1

theorem Linkable.mono {ws' : List Entry} (h : ∀ i, Initialized ws i → Initialized ws' i)
    (hp : Linkable ws p) : Linkable ws' p := by
  obtain ⟨l, m⟩ := p
  cases l with
  | plugin i => exact ⟨h i hp.1, hp.2⟩
  | barlib => exact fun i hi => h i (hp i hi)

/-- Whose Lua state is linked, is initialized. -/
theorem Linkable.initialized (h : Linkable ws p) (hp : p.2 = .own i) : Initialized ws i := by
  obtain ⟨l, m⟩ := p
  cases l with
  | plugin j =>
      obtain rfl : i = j := by
        have he := h.2.symm.trans hp
        cases he
        rfl
      exact h.1
  | barlib => exact h i hp

namespace Linked

theorem start : Linked [] Links.none where
  inited _ := by simp [Links.none, Initialized]
  plugin _ h := absurd h.lt_length (Nat.not_lt_zero _)
  live _ h := h.elim
  given _ := Iff.rfl
  dangling := rfl

theorem fresh (h : Linked ws s) : s.Fresh ws.length := by
  intro p hp
  have hself : ¬Initialized ws ws.length := fun hi => Nat.lt_irrefl _ hi.lt_length
  have hlink := h.live p hp
  refine ⟨fun he => hself ?_, fun he => hself (hlink.initialized he)⟩
  obtain ⟨l, m⟩ := p
  obtain rfl : l = .plugin ws.length := he
  exact hlink.1

/-- A stillborn widget. -/
theorem stillborn (h : Linked ws s) : Linked (ws ++ [none]) s where
  inited i := (h.inited i).trans initialized_append_none.symm
  plugin i hi := h.plugin i (initialized_append_none.mp hi)
  live p hp := (h.live p hp).mono fun _ => initialized_append_none.mpr
  given := h.given
  dangling := h.dangling

/-- The plugin's `init()` has succeeded. -/
theorem init (h : Linked ws s) {w : LoadedWidget} :
    Linked (ws ++ [some w]) ((s.give (Op.pluginInit ws.length).gives).init ws.length) where
  inited i := by
    rw [initialized_append_some, ← h.inited i]
    rfl
  plugin i hi := by
    rcases initialized_append_some.mp hi with rfl | hi
    · exact .inl (List.mem_singleton_self _)
    · exact .inr (h.plugin i hi)
  live p hp := by
    rcases hp with hp | hp
    · obtain rfl := List.mem_singleton.mp hp
      exact ⟨initialized_append_some.mpr (.inl rfl), rfl⟩
    · exact (h.live p hp).mono fun _ hi => initialized_append_some.mpr (.inr hi)
  given m := by simp [Links.init, Links.give, Op.gives, h.given m]
  dangling := h.dangling

/-- The plugin's `init()` has failed, and the Lua state is closed. -/
theorem refused (h : Linked ws s) :
    Linked ws ((s.give (Op.pluginInit ws.length).gives).release (.part ws.length .lua)) := by
  have hfresh := h.fresh
  have hlive : ∀ p, p ∈ ((s.give (Op.pluginInit ws.length).gives).release
      (.part ws.length .lua)).live ↔ p ∈ s.live := by
    intro p
    constructor
    · rintro ⟨hp | hp, hlua⟩
      · obtain rfl := List.mem_singleton.mp hp
        exact absurd rfl hlua
      · exact hp
    · intro hp
      exact ⟨.inr hp, fun he => (hfresh p hp).2 (lua_eq_part.mp he).1⟩
  exact
    { inited := h.inited
      plugin := fun i hi => (hlive _).mpr (h.plugin i hi)
      live := fun p hp => h.live p ((hlive p).mp hp)
      given := fun m => by
        rw [hlive, ← h.given m]
        simp [Links.release, Links.give, Op.gives]
      dangling := by
        have hnone : { p ∈ (s.give (Op.pluginInit ws.length).gives).live |
            p.1.handle = .part ws.length .lua } = ∅ := by
          refine Set.sep_eq_empty_iff_mem_false.mpr fun p _ he => ?_
          exact absurd (handle_eq_part.mp he).2 (by decide)
        exact (congrArg₂ (· ∪ ·) hnone h.dangling).trans (Set.empty_union _) }

/-- What `widget_init` leaves of the links. -/
def After (ws : List Entry) (r : Option LoadedWidget × Bool) (t : Links) : Prop :=
  Linked (ws ++ [r.1]) t ∧ t.NoBarlib

theorem wp_widgetInitError {pluginLoaded sep : Bool}
    {Q : Option LoadedWidget × Bool → Links → Prop} (hs : (s.release (.part i .lua)).Fresh i)
    (hQ : Q (none, sep) (s.release (.part i .lua))) :
    linking.wp (widgetInitError i pluginLoaded sep) Q s := by
  have hpart {q : Part} : Makes (I := interface) (s.release (.part i .lua)).Unused
      (release (.part i q)) := makes_call (within_release_part.unused hs)
  unfold widgetInitError
  rw [wp_bind, wp_linkRelease, wp_bind]
  refine wp_unused hpart fun _ => ?_
  rw [wp_bind]
  refine wp_unused hpart fun _ => ?_
  rw [wp_bind]
  refine wp_unused (makes_onlyIf (makes_pluginUnload.mono fun _ ho => ho.unused hs)) fun _ => ?_
  rw [wp_bind]
  exact wp_unused hpart fun _ => hQ

/-- A failure before the plugin's `init()`. -/
theorem wp_error (h : Linked ws s) (hno : s.NoBarlib) {pluginLoaded sep : Bool} :
    linking.wp (widgetInitError ws.length pluginLoaded sep) (After ws) s := by
  have hsame : s.release (.part ws.length .lua) = s := by
    refine Links.release_eq fun p hp => ⟨fun he => ?_, fun he => ?_⟩
    · exact absurd (handle_eq_part.mp he).2 (by decide)
    · exact (h.fresh p hp).2 (lua_eq_part.mp he).1
  refine wp_widgetInitError ?_ ?_
  · rw [hsame]
    exact h.fresh
  · rw [hsame]
    exact ⟨h.stillborn, hno⟩

theorem wp_widgetInitFields (h : Linked ws s) (hno : s.NoBarlib) {iface : PluginIface}
    {sep : Bool} :
    linking.wp (widgetInitFields ws.length iface sep) (After ws) s := by
  have hunused {o : Op} (ho : o.Within ws.length) : s.Unused o := ho.unused h.fresh
  unfold widgetInitFields widgetInitInspectCb widgetInitInspectPushOpts
  rw [wp_bind]
  refine wp_unused (makes_call (Op.Plain.unused trivial)) fun cb => ?_
  rw [wp_ite]
  split
  · rw [wp_bind]
    refine wp_unused (makes_widgetInitInspectEvent.mono fun _ => hunused) ?_
    rintro ⟨event, sep⟩
    cases event with
    | none => exact h.wp_error hno
    | some event =>
        simp only [wp_bind]
        refine wp_unused (makes_call (Op.Plain.unused trivial)) fun opts => ?_
        rw [wp_pure, wp_ite]
        split
        · rw [wp_bind, wp_link]
          intro ok
          cases ok with
          | true =>
              refine ⟨h.init, fun m hm => ?_⟩
              rcases hm with hm | hm
              · cases List.mem_singleton.mp hm
              · exact hno m hm
          | false =>
              refine wp_widgetInitError h.refused.fresh ⟨h.refused.stillborn, fun m hm => ?_⟩
              rcases hm.1 with hm | hm
              · cases List.mem_singleton.mp hm
              · exact hno m hm
        · exact h.wp_error hno
  · exact h.wp_error hno

theorem wp_widgetInit (h : Linked ws s) (hno : s.NoBarlib) {filename : CString} {sep : Bool} :
    linking.wp (widgetInit B ws.length filename sep) (After ws) s := by
  have hcall {o : Op} (ho : o.Plain) : Makes (I := interface) s.Unused (call o) :=
    makes_call ho.unused
  have hunused {o : Op} (ho : o.Within ws.length) : s.Unused o := ho.unused h.fresh
  simp only [widgetInit, acquire, wp_bind]
  refine wp_unused (hcall trivial) fun _ => wp_unused (hcall trivial) fun _ => ?_
  refine wp_unused (hcall trivial) fun _ => wp_unused (hcall trivial) fun _ => ?_
  refine wp_unused (hcall trivial) fun _ => wp_unused (hcall trivial) fun loaded => ?_
  rw [wp_ite]
  split
  · rw [wp_bind]
    refine wp_unused (hcall trivial) fun ran => ?_
    rw [wp_ite]
    split
    · rw [wp_bind]
      refine wp_unused (hcall trivial) fun isTable => ?_
      rw [wp_ite]
      split
      · rw [wp_bind]
        refine wp_unused (makes_widgetInitInspectPlugin.mono fun _ => hunused) fun iface => ?_
        cases iface with
        | none => exact h.wp_error hno
        | some iface => exact h.wp_widgetInitFields hno
      · exact h.wp_error hno
    · exact h.wp_error hno
  · exact h.wp_error hno

theorem wp_widgetsInit {filenames : List CString} :
    linking.wp (widgetsInit B filenames) (fun r t => Linked r.1 t ∧ t.NoBarlib) Links.none := by
  unfold widgetsInit
  rw [wp_bind]
  refine wp_unused (makes_call (Op.Plain.unused trivial)) fun _ => ?_
  refine wp_mono (wp_forEach_zipIdx (fun k r t => r.1.length = k ∧ Linked r.1 t ∧ t.NoBarlib) ?_
    ⟨rfl, start, fun _ hm => hm.elim⟩) fun _ _ ht => ht.2
  rintro k hk ⟨ws, sep⟩ t ⟨hlen, h, hno⟩
  obtain rfl : ws.length = k := hlen
  unfold widgetsInitStep
  rw [wp_bind]
  refine wp_mono (h.wp_widgetInit hno) ?_
  rintro ⟨w, sep⟩ t ⟨ht, hno⟩
  cases w with
  | some w => exact ⟨List.length_append, ht, hno⟩
  | none =>
      show linking.wp (widgetInitStillborn sep >>= _) _ _
      rw [wp_bind]
      refine wp_unused (makes_sepstateMaybeInit.mono fun _ => Op.Plain.unused) fun _ => ?_
      exact ⟨List.length_append, ht, hno⟩

/-! ## The threads -/

theorem give (h : Linked ws s) {ps : List Link} (hps : ∀ p ∈ ps, Linkable ws p) :
    Linked ws (s.give ps) where
  inited := h.inited
  plugin i hi := .inr (h.plugin i hi)
  live p hp := by
    rcases hp with hp | hp
    · exact hps p hp
    · exact h.live p hp
  given m := by simp [Links.give, h.given m]
  dangling := h.dangling

theorem wp_registerFuncs (h : Linked ws s) {b : BarlibIface} {w : Option (Nat × PluginIface)}
    (hm : ∀ i, m = .own i → Initialized ws i) (hw : ∀ v ∈ w, Initialized ws v.1) :
    linking.wp (registerFuncs b m w) (fun _ t => Linked ws t) s := by
  have hbarlib : linking.wp (onlyIf b.registerFuncs (call (.barlibRegisterFuncs m)))
      (fun _ t => Linked ws t) s := by
    refine (wp_ite ..).mpr ?_
    split
    · refine wp_link.mpr fun _ => h.give fun p hp => ?_
      obtain rfl := List.mem_singleton.mp hp
      exact hm
    · exact h
  unfold registerFuncs
  rw [wp_bind]
  refine wp_unused (makes_call (Op.Plain.unused trivial)) fun isTable => ?_
  refine (wp_ite ..).mpr ?_
  split
  · rw [wp_bind]
    refine wp_mono hbarlib fun _ t ht => ?_
    cases w with
    | none => exact ht
    | some v =>
        refine (wp_ite ..).mpr ?_
        split
        · refine wp_link.mpr fun _ => ht.give fun p hp => ?_
          obtain rfl := List.mem_singleton.mp hp
          exact ⟨hw v rfl, rfl⟩
        · exact ht
  · exact h

theorem makes_setError : Makes (I := interface) Op.Plain (setError i) := by
  refine .bind (makes_call trivial) fun _ => .bind (makes_call trivial) fun fatal => ?_
  refine .bind (makes_onlyIf (.bind (makes_call trivial) fun no => nomatch no)) fun _ => ?_
  exact makes_call trivial

theorem wp_spawn (h : Linked ws s) {b : BarlibIface} (hk : k < ws.length) :
    linking.wp (spawn b (ws[k], k) ()) (fun _ t => Linked ws t) s := by
  unfold spawn
  split
  · exact wp_unused (makes_setError.mono fun _ => Op.Plain.unused) fun _ => h
  · rename_i w hw
    have hinit : Initialized ws k := ⟨w, (List.getElem?_eq_getElem hk).trans (congrArg some hw)⟩
    have hown : ∀ i, LuaState.own k = .own i → Initialized ws i := by
      rintro _ ⟨⟩
      exact hinit
    rw [wp_bind]
    refine wp_mono (h.wp_registerFuncs hown ?_) fun _ t ht => ?_
    · rintro _ ⟨⟩
      exact hinit
    · refine wp_link.mpr fun _ => ht.give fun p hp => ?_
      rcases List.mem_pair.mp hp with rfl | rfl
      · exact ⟨hinit, rfl⟩
      · exact hown

theorem wp_runEventWatcher (h : Linked ws s) {b : BarlibIface} :
    linking.wp (runEventWatcher b ws) (fun _ t => Linked ws t) s := by
  have hlinkable : ∀ p ∈ (Op.barlibEventWatcher (ws.map Entry.widget)).gives, Linkable ws p := by
    intro p hp
    obtain ⟨⟨w, i⟩, hmem, rfl⟩ := List.mem_map.mp hp
    have hget := List.mem_zipIdx_iff_getElem?.mp hmem
    rw [List.getElem?_map, Option.map_eq_some_iff] at hget
    obtain ⟨e, he, rfl⟩ := hget
    intro j hj
    cases e with
    | none => cases hj
    | some w =>
        unfold widgetEventLuaState at hj
        split at hj
        · cases hj
        · cases hj
          exact ⟨w, he⟩
  refine (wp_ite ..).mpr ?_
  split
  · rw [wp_bind]
    refine wp_link.mpr fun fatal => ?_
    refine wp_unused (makes_onlyIf (.bind (makes_call ?_) fun no => nomatch no)) fun _ => ?_
    · exact Op.Plain.unused trivial
    · exact h.give hlinkable
  · exact h

end Linked

/-! ## The end -/

/-- The part is neither the library nor the Lua state. -/
theorem unused_release_part {q : Part} (hhandle : q ≠ .pluginHandle) (hlua : q ≠ .lua) :
    s.Unused (.release (.part i q)) := by
  refine ⟨rfl, fun p _ => ⟨fun he => ?_, fun he => ?_⟩⟩
  · exact hhandle (handle_eq_part.mp (Op.release.inj he).symm).2
  · exact hlua (lua_eq_part.mp (Op.release.inj he).symm).2

theorem settled_release_global {g : Global} (hg : g ≠ .barlibHandle) (h : s.Settled) :
    (s.release (.global g)).Settled := by
  have hnone : { p ∈ s.live | p.1.handle = .global g } = ∅ :=
    Set.sep_eq_empty_iff_mem_false.mpr fun _ _ he => hg (handle_eq_global.mp he).2
  intro p
  simp only [Links.release, hnone, Set.empty_union]
  exact h p

/-- The first `k` of the widgets are destroyed; `s` is what was there before. -/
structure Torn (s : Links) (k : Nat) (t : Links) : Prop where
  inited : t.inited = s.inited
  given : t.given = s.given
  live : ∀ p, p ∈ t.live ↔ p ∈ s.live ∧ ∀ i < k, p.2 ≠ .own i
  dangling : ∀ p, p ∈ t.dangling ↔ ∃ i < k, i ∈ s.inited ∧ p = (.plugin i, .own i)

namespace Linked

theorem torn (h : Linked ws s) : Torn s 0 s where
  inited := rfl
  given := rfl
  live p := by simp
  dangling p := by simp [h.dangling]

theorem torn_stillborn (h : Linked ws s) (ht : Torn s k t) (hk : ¬Initialized ws k) :
    Torn s (k + 1) t where
  inited := ht.inited
  given := ht.given
  live p := by
    rw [ht.live p]
    refine and_congr_right fun hp => ?_
    rw [Nat.forall_lt_succ_right]
    exact (and_iff_left fun hown => hk ((h.live p hp).initialized hown)).symm
  dangling p := by
    rw [ht.dangling p, Nat.exists_lt_succ_right]
    exact (or_iff_left fun hself => hk ((h.inited k).mp hself.1)).symm

/-- `widget_destroy`: the plugin is closed first, then the Lua state. -/
theorem torn_destroyed (h : Linked ws s) (ht : Torn s k t) (hk : Initialized ws k) :
    Torn s (k + 1) ((t.release (.part k .pluginHandle)).release (.part k .lua)) where
  inited := ht.inited
  given := ht.given
  live p := by
    have hlive : p ∈ ((t.release (.part k .pluginHandle)).release (.part k .lua)).live ↔
        (p ∈ t.live ∧ p.2.lua ≠ .part k .pluginHandle) ∧ p.2.lua ≠ .part k .lua := Iff.rfl
    rw [hlive, ht.live p, Nat.forall_lt_succ_right]
    simp [and_assoc]
  dangling p := by
    have hdangling : p ∈ ((t.release (.part k .pluginHandle)).release (.part k .lua)).dangling ↔
        ((p ∈ t.live ∧ p.2.lua ≠ .part k .pluginHandle) ∧ p.1.handle = .part k .lua) ∨
          (p ∈ t.live ∧ p.1.handle = .part k .pluginHandle) ∨ p ∈ t.dangling := Iff.rfl
    have hself : (p ∈ t.live ∧ p.1 = .plugin k) ↔ k ∈ s.inited ∧ p = (.plugin k, .own k) := by
      constructor
      · rintro ⟨hp, hlib⟩
        have hlink := h.live p ((ht.live p).mp hp).1
        obtain ⟨l, m⟩ := p
        obtain rfl : l = .plugin k := hlib
        exact ⟨(h.inited k).mpr hk, by rw [hlink.2]⟩
      · rintro ⟨-, rfl⟩
        refine ⟨(ht.live _).mpr ⟨h.plugin k hk, fun i hi he => ?_⟩, rfl⟩
        cases he
        exact Nat.lt_irrefl _ hi
    rw [hdangling, ht.dangling p, Nat.exists_lt_succ_right]
    simp only [handle_eq_part, reduceCtorEq, and_false, false_or, and_true]
    rw [hself, or_comm]

theorem wp_widgetDestroy (h : Linked ws s) (ht : Torn s k t) (hk : k < ws.length) :
    linking.wp (widgetDestroy k ws[k]) (fun _ t => Torn s (k + 1) t) t := by
  cases hw : ws[k] with
  | none =>
      refine h.torn_stillborn ht ?_
      rintro ⟨w, hget⟩
      rw [List.getElem?_eq_getElem hk, hw] at hget
      cases hget
  | some w =>
      have hk' : Initialized ws k := ⟨w, (List.getElem?_eq_getElem hk).trans (congrArg some hw)⟩
      have hother {u : Links} {q : Part} (hq : q ≠ .pluginHandle ∧ q ≠ .lua) :
          Makes (I := interface) u.Unused (release (.part k q)) :=
        makes_call (unused_release_part hq.1 hq.2)
      show linking.wp (onlyIf true _) _ _
      simp only [onlyIf, if_true, pluginUnload, wp_bind]
      refine wp_unused (hother (by decide)) fun _ => wp_unused (hother (by decide)) fun _ => ?_
      rw [wp_linkRelease, wp_linkRelease]
      refine wp_unused (hother (by decide)) fun _ => wp_unused (hother (by decide)) fun _ => ?_
      exact wp_unused (hother (by decide)) fun _ => h.torn_destroyed ht hk'

theorem wp_widgetsDestroy (h : Linked ws s) :
    linking.wp (widgetsDestroy (some ws)) (fun _ t => Torn s ws.length t) s := by
  show linking.wp (Calls.Prog.forEach _ _ _ >>= _) _ _
  rw [wp_bind]
  refine wp_mono (wp_forEach_zipIdx (fun k _ t => Torn s k t)
    (fun k hk _ t ht => h.wp_widgetDestroy ht hk) h.torn) fun _ t ht => ?_
  exact wp_unused (makes_call (unused_release_global ⟨by decide, by decide⟩)) fun _ => ht

/-- All widgets are destroyed, and there is no barlib. -/
theorem settled (h : Linked ws s) (ht : Torn s ws.length t) (hno : s.NoBarlib) : t.Settled := by
  intro p
  rw [ht.dangling p, Links.Inited, ht.inited, ht.given]
  constructor
  · rintro ⟨i, -, hi, rfl⟩
    exact .inl ⟨i, hi, rfl⟩
  · rintro (⟨i, hi, rfl⟩ | ⟨rfl, hgiven⟩)
    · exact ⟨i, ((h.inited i).mp hi).lt_length, hi, rfl⟩
    · exact absurd ((h.given _).mp hgiven) (hno _)

/-- All widgets are destroyed, and the barlib is closed. -/
theorem settled_barlib (h : Linked ws s) (ht : Torn s ws.length t) :
    (t.release (.global .barlibHandle)).Settled := by
  intro p
  have hdangling : p ∈ (t.release (.global .barlibHandle)).dangling ↔
      (p ∈ t.live ∧ p.1.handle = .global .barlibHandle) ∨ p ∈ t.dangling := Iff.rfl
  have hsep : (p ∈ t.live ∧ p.1 = .barlib) ↔ p = (.barlib, .sep) ∧ p ∈ s.given := by
    constructor
    · rintro ⟨hp, hlib⟩
      obtain ⟨hlive, hown⟩ := (ht.live p).mp hp
      have hlink := h.live p hlive
      obtain ⟨l, m⟩ := p
      obtain rfl : l = .barlib := hlib
      cases m with
      | sep => exact ⟨rfl, (h.given _).mpr hlive⟩
      | own i => exact absurd rfl (hown i (hlink i rfl).lt_length)
    · rintro ⟨rfl, hgiven⟩
      exact ⟨(ht.live _).mpr ⟨(h.given _).mp hgiven, fun i _ he => by cases he⟩, rfl⟩
  have hinited : (∃ i < ws.length, i ∈ s.inited ∧ p = (.plugin i, .own i)) ↔ s.Inited p := by
    constructor
    · rintro ⟨i, -, hi⟩
      exact ⟨i, hi⟩
    · rintro ⟨i, hi, he⟩
      exact ⟨i, ((h.inited i).mp hi).lt_length, hi, he⟩
  rw [hdangling, ht.dangling p, hinited]
  simp only [handle_eq_global, and_true]
  rw [hsep, or_comm]
  simp only [Links.Inited, Links.release, ht.inited, ht.given]

theorem wp_cleanup (h : Linked ws s) {a : BarlibArgs} {threads inited sep : Bool} {ret : Nat}
    (hno : inited = false → s.NoBarlib) :
    linking.wp (cleanup ⟨a, threads, some ws, inited, sep⟩ ret) (fun _ t => t.Settled) s := by
  have htail {t : Links} (ht : t.Settled) : linking.wp (sepstateMaybeDestroy sep >>= fun _ =>
      release (.global .commMtx) >>= fun _ => (pure ret : Prog Nat)) (fun _ t => t.Settled) t := by
    rw [wp_bind]
    cases sep with
    | false => exact wp_linkRelease.mpr (settled_release_global (by decide) ht)
    | true =>
        show linking.wp (onlyIf true _) _ _
        simp only [onlyIf, if_true, wp_bind, wp_linkRelease, wp_pure]
        exact settled_release_global (by decide) (settled_release_global (by decide)
          (settled_release_global (by decide) ht))
  unfold cleanup
  rw [wp_bind]
  refine wp_unused (makes_onlyIf (makes_call (unused_release_global ⟨by decide, by decide⟩)))
    fun _ => ?_
  rw [wp_bind]
  refine wp_unused (makes_onlyIf (makes_call (unused_release_global ⟨by decide, by decide⟩)))
    fun _ => ?_
  rw [wp_bind]
  refine wp_mono h.wp_widgetsDestroy fun _ t ht => ?_
  rw [wp_bind]
  cases inited with
  | false => exact htail (h.settled ht (hno rfl))
  | true =>
      have hbarlib : linking.wp barlibDestroy (fun _ t => t.Settled) t := by
        simp only [barlibDestroy, wp_bind]
        refine wp_unused (makes_call (unused_release_global ⟨by decide, by decide⟩)) fun _ => ?_
        rw [wp_linkRelease, wp_linkRelease]
        exact settled_release_global (by decide) (h.settled_barlib ht)
      exact wp_mono hbarlib fun _ t ht => htail ht

/-! ## main -/

theorem wp_runAll (h : Linked ws s) {b : BarlibIface} {a : BarlibArgs} {eflag sep : Bool} :
    linking.wp (runAll b a eflag ws sep) (fun _ t => t.Settled) s := by
  unfold runAll
  rw [wp_bind]
  have hregister : linking.wp (onlyIf sep (registerFuncs b .sep none))
      (fun _ t => Linked ws t) s := by
    refine (wp_ite ..).mpr ?_
    split
    · exact h.wp_registerFuncs (fun i hi => by cases hi) fun v hv => by cases hv
    · exact h
  refine wp_mono hregister fun _ s h => ?_
  rw [wp_bind]
  refine wp_unused (makes_call (Op.Plain.unused trivial)) fun _ => ?_
  rw [wp_bind]
  refine wp_mono (wp_forEach_zipIdx (fun _ _ t => Linked ws t)
    (fun k hk _ t ht => ht.wp_spawn hk) h) fun _ s h => ?_
  rw [wp_bind]
  refine wp_mono h.wp_runEventWatcher fun _ s h => ?_
  rw [wp_bind]
  refine wp_mono (wp_forEach_zipIdx (fun _ _ t => Linked ws t) (fun k _ _ t ht => ?_) h)
    fun _ s h => ?_
  · exact wp_unused (makes_onlyIf (makes_call (unused_release_part (by decide) (by decide))))
      fun _ => ht
  rw [wp_bind]
  refine wp_unused (makes_onlyIf (.bind (makes_call ?_) fun no => nomatch no)) fun _ => ?_
  · exact Op.Plain.unused trivial
  · exact h.wp_cleanup fun hf => by cases hf

end Linked

/-- Without a link of the barlib. -/
theorem makes_barlibInitByName (hno : s.NoBarlib) {name : CString}
    {opts : List (Option CString)} {n : Nat} :
    Makes (I := interface) s.Unused (barlibInitByName B name opts n) := by
  have hplain {o : Op} (ho : o.Plain) : Makes (I := interface) s.Unused (call o) :=
    makes_call ho.unused
  have herror {dlhandle : Bool} : Makes (I := interface) s.Unused (barlibInit.error dlhandle) := by
    refine .bind (makes_onlyIf (makes_call ⟨rfl, fun p hp => ⟨fun he => ?_, fun he => ?_⟩⟩))
      fun _ => ?_
    · have hlib := (handle_eq_global.mp (Op.release.inj he).symm).1
      obtain ⟨l, m⟩ := p
      obtain rfl : l = .barlib := hlib
      exact hno m hp
    · cases (lua_eq_global.mp (Op.release.inj he).symm).2
    · exact .bind (makes_call (unused_release_global ⟨by decide, by decide⟩)) fun _ => .pure _
  have hinit {filename : Bytes} :
      Makes (I := interface) s.Unused (barlibInit B filename opts n) := by
    refine .bind (hplain trivial) fun _ => ?_
    refine .bind (makes_openLibrary.mono fun _ => Op.Plain.unused) fun r => ?_
    cases r with
    | error dlhandle => exact herror
    | ok iface => exact .bind (hplain trivial) fun ok => .ite (.pure _) herror
  refine .ite hinit (.bind (hplain trivial) fun _ => .bind hinit fun r => ?_)
  exact .bind (makes_call (unused_release_global tmpFilename_other)) fun _ => .pure r

theorem settled_none : Links.none.Settled := by
  intro p
  simp [Links.none, Links.Inited]

theorem wp_main_linking {opts : List Opt} {filenames : List CString} :
    linking.wp (main B opts filenames) (fun _ t => t.Settled) Links.none := by
  unfold main
  rw [wp_bind]
  refine wp_unused (makes_parseOpts (Op.Plain.unused trivial) (Op.Plain.unused trivial)) ?_
  rintro ⟨ok, a⟩
  dsimp only
  split
  · refine wp_unused (makes_cleanup ?_ ?_) fun _ => settled_none
    · exact unused_release_global ⟨by decide, by decide⟩
    · exact unused_release_global ⟨by decide, by decide⟩
  · rw [wp_bind]
    refine wp_unused (makes_call (Op.Plain.unused trivial)) fun _ => ?_
    rw [wp_bind]
    refine wp_mono Linked.wp_widgetsInit ?_
    rintro ⟨ws, sep⟩ s ⟨h, hno⟩
    dsimp only
    rw [wp_bind]
    refine wp_unused (makes_barlibArgsPush (Op.Plain.unused trivial) (Op.Plain.unused trivial))
      fun args => ?_
    rw [wp_bind]
    refine wp_unused (makes_barlibInitByName hno) fun barlib => ?_
    cases barlib with
    | none => exact h.wp_cleanup fun _ => hno
    | some b => exact h.wp_runAll

/-- Whatever the environment answers, `main` uses and releases only what it holds, takes nothing
away that `needs` asks for, runs the event watcher only with all Lua states and threads in place,
and holds nothing when it returns, if and only if its options are accepted.  It does close libraries
that a Lua state still uses: that of each initialized widget's plugin, before the widget's own Lua
state, and that of the barlib before the separate state, if the barlib was called with it; and no
other. -/
theorem main_lawful_iff (B : Build) (opts : List Opt) (filenames : List CString) :
    ((∀ h r, Executes (main B opts filenames) h r →
      (rules filenames.length).Keeps (fun _ s => s = ∅) ((rules filenames.length).after ∅ h) r) ↔
        Accepted opts) ∧
      ∀ h ret, Executes (main B opts filenames) h (.returned ret) →
        (linking.after Links.none h).Settled :=
  ⟨main_keeps_iff B opts filenames, fun h _ hexec =>
    (wp_iff (C := linking) (main B opts filenames) _ Links.none).mp wp_main_linking h _ hexec⟩

open Reaches in
/-- One widget, whose plugin is initialized, and no event watcher. -/
theorem main_lawful_iff_one :
    ∃ h, Executes (main someBuild someOpts [someFile]) h (.returned 0) ∧
      (.plugin 0, .own 0) ∈ (linking.after Links.none h).dangling := by
  have hreaches : linking.Reaches (main someBuild someOpts [someFile]) (.returned 0)
      (fun t => 0 ∈ t.inited) Links.none := by
    -- The widget, up to its plugin.
    refine next () (next () (next () (next () (next () (next () (next () ?_))))))
    refine next true (next true (next true (next (some someFile) ?_)))
    -- The plugin and the fields.
    refine next () (next () (next true (next (some 503) (next (some ⟨true⟩) (next () ?_)))))
    refine next true (next (some .function) (next OptsField.table (next true ?_)))
    -- The barlib.
    refine next () (next () (next () (next true (next (some 503) (next (some ⟨false, false⟩)
      (next true (next () ?_)))))))
    -- The threads.
    refine next () (next ⟨true, fun _ => rfl⟩ (next () (next () (next () ?_))))
    -- The cleanup.
    refine next () (next () (next () (next () (next () (next () (next () (next () (next ()
      ?_))))))))
    refine next () (next () (next () (next () (next () ?_))))
    exact returned (.inl rfl)
  obtain ⟨h, hexec, hinited⟩ := hreaches
  exact ⟨h, hexec, ((main_lawful_iff _ _ _).2 h 0 hexec _).mpr (.inl ⟨0, hinited, rfl⟩)⟩

end Luastatus.Core.LifeCycle

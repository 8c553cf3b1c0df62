import Luastatus.Lib.Bytes
import Mathlib.Data.Finset.Basic
import Mathlib.Data.Finset.Option

/-!
# The windows that the xtitle plugin watches

The plugin shows the title of the active window.  It asks the X server for events about changes of
the properties of two windows: the root window, which has the active window as a property, and the
active window itself.  `win` is the active window, and `last_win` the window to stop watching when
it changes.

The events come with what the server answers while they are handled.  The two loops of `run` handle
one event after the other, so a run is a fold over the events.

At start-up `win` is set and watched, and `last_win` is not set.  The first change of the active
window leaves this window watched; what follows is in order.  So the plugin watches the root window
and the active window, and no other, exactly when the first change brings the same window again or
there was none to begin with (`run_watchesActive_iff`).
-/

namespace Luastatus.Xtitle

open Text (Bytes)

/-! ## The X server -/

/-- `xcb_window_t`. -/
abbrev Window := UInt32

/-- `XCB_NONE`. -/
def xcbNone : Window := 0

/-- `xcb_atom_t`. -/
abbrev Atom := UInt32

/-- `XCB_ATOM_WM_NAME`. -/
def xcbAtomWmName : Atom := 39

/-- What the queries about a window answer. -/
structure Properties where
  /-- `xcb_ewmh_get_wm_visible_name`. -/
  visibleName : Option Bytes
  /-- `xcb_ewmh_get_wm_name`. -/
  name : Option Bytes
  /-- `xcb_icccm_get_wm_name`. -/
  icccmName : Option Bytes
  /-- `xcb_icccm_get_wm_class`: the name of the class and the name of the instance. -/
  wmClass : Option (Option Bytes × Option Bytes)

/-- What the queries answer at one time. -/
structure Server where
  /-- `xcb_ewmh_get_active_window`. -/
  activeWindow : Option Window
  properties : Window → Properties

/-- An event. -/
inductive Event where
  /-- `XCB_PROPERTY_NOTIFY`. -/
  | propertyNotify (window : Window) (atom : Atom)
  | other
deriving DecidableEq

/-- An event, and the server while it is handled. -/
structure Input where
  evt : Event
  server : Server

/-! ## The code -/

/-- What `run` keeps of the connection and the options. -/
structure Data where
  root : Window
  netActiveWindow : Atom
  netWmVisibleName : Atom
  netWmName : Atom
  visible : Bool
  extendedFmt : Bool

/-- The argument of the widget's callback. -/
inductive Argument where
  | title (title : Option Bytes)
  | extended (title className instanceName : Option Bytes)
deriving DecidableEq

/-- The variables of `run`, the windows whose property changes are selected, and the calls. -/
structure State where
  watched : Finset Window
  win : Window
  lastWin : Window
  calls : List Argument

/-- `do_watch`. -/
def doWatch (watched : Finset Window) (win : Window) (state : Bool) : Finset Window :=
  if win = xcbNone then watched
  else if state then insert win watched
  else watched.erase win

/-- `push_window_title`. -/
def pushWindowTitle (d : Data) (server : Server) (win : Window) : Option Bytes :=
  if win = xcbNone then none
  else
    let props := server.properties win
    (if d.visible then props.visibleName else none) <|> props.name <|> props.icccmName

/-- `push_window_class_and_instance`. -/
def pushWindowClassAndInstance (server : Server) (win : Window) :
    Option (Option Bytes × Option Bytes) :=
  if win = xcbNone then none
  else (server.properties win).wmClass

/-- `push_arg`. -/
def pushArg (d : Data) (server : Server) (win : Window) : Argument :=
  let title := pushWindowTitle d server win
  if d.extendedFmt then
    let (className, instanceName) :=
      (pushWindowClassAndInstance server win).getD (none, none)
    .extended title className instanceName
  else .title title

/-- `title_changed`. -/
def titleChanged (d : Data) (server : Server) (evt : Event) (st : State) : Bool × State :=
  match evt with
  | .other => (false, st)
  | .propertyNotify window atom =>
      if atom = d.netActiveWindow then
        let watched := doWatch st.watched st.lastWin false
        match server.activeWindow with
        | some win =>
            (true, { st with watched := doWatch watched win true, win := win, lastWin := win })
        | none => (true, { st with watched := watched, win := xcbNone, lastWin := xcbNone })
      else if st.win ≠ xcbNone ∧ window = st.win ∧
          ((d.visible ∧ atom = d.netWmVisibleName) ∨ atom = d.netWmName ∨
            atom = xcbAtomWmName) then
        (true, st)
      else (false, st)

/-- A call of the widget's callback. -/
def makeCall (d : Data) (server : Server) (st : State) : State :=
  { st with calls := st.calls ++ [pushArg d server st.win] }

/-- What `run` does before the first event. -/
def startUp (d : Data) (server : Server) : State :=
  let st : State :=
    { watched := ∅, win := server.activeWindow.getD xcbNone, lastWin := xcbNone, calls := [] }
  let st := if server.activeWindow.isSome then makeCall d server st else st
  { st with watched := doWatch (doWatch st.watched d.root true) st.win true }

/-- The handling of one event. -/
def handle (d : Data) (st : State) (i : Input) : State :=
  let (changed, st) := titleChanged d i.server i.evt st
  if changed then makeCall d i.server st else st

/-- `run`, up to the end of the events. -/
def run (d : Data) (server : Server) (inputs : List Input) : State :=
  inputs.foldl (handle d) (startUp d server)

/-! ## What is to be watched -/

/-- The active window, if there is one. -/
def toActive (win : Window) : Option Window := if win = xcbNone then none else some win

/-- What an answer says of the active window. -/
def Server.active (server : Server) : Option Window :=
  toActive (server.activeWindow.getD xcbNone)

/-- Whether an event says that the active window changes. -/
def Input.changesActive (d : Data) (i : Input) : Bool :=
  match i.evt with
  | .propertyNotify _ atom => atom = d.netActiveWindow
  | .other => false

/-- The active window after some events. -/
def activeAfter (d : Data) (server : Server) (inputs : List Input) : Option Window :=
  inputs.foldl (fun active i => if i.changesActive d then i.server.active else active)
    server.active

/-- The root window and the active window are watched, and no other. -/
def WatchesActive (d : Data) (server : Server) (inputs : List Input) : Prop :=
  (run d server inputs).watched = insert d.root (activeAfter d server inputs).toFinset

/-- The first change of the active window, if any, brings the window of the beginning again. -/
def StaysFirst (d : Data) (server : Server) (inputs : List Input) : Prop :=
  ∀ win, server.active = some win → win ≠ d.root →
    ∀ i, inputs.find? (Input.changesActive d) = some i → i.server.active = some win

/-! ## Sets of watched windows -/

theorem mem_doWatch_true {watched : Finset Window} {w x : Window} :
    x ∈ doWatch watched w true ↔ x ∈ watched ∨ toActive w = some x := by
  rw [doWatch, toActive]
  split
  · simp
  · simp [or_comm, eq_comm]

section DoWatch

variable {root : Window} (w w' : Window)

theorem doWatch_true_eq_insert : doWatch {root} w true = insert root (toActive w).toFinset := by
  ext x
  simp [mem_doWatch_true]

/-- The window is no longer watched. -/
theorem doWatch_false_doWatch_true (hw : w ≠ root) :
    doWatch (doWatch {root} w true) w false = {root} := by
  simp only [doWatch]
  split
  · rfl
  · simp [Finset.erase_insert_eq_erase, hw]

/-- Watching another window instead of the first one is enough exactly if the first one is not to
be forgotten. -/
theorem doWatch_doWatch_true_iff :
    doWatch (doWatch {root} w true) w' true = doWatch {root} w' true ↔
      ∀ win, toActive w = some win → win ≠ root → toActive w' = some win := by
  constructor
  · intro heq win hwin hroot
    have hmem : win ∈ doWatch {root} w' true := by
      rw [← heq]
      exact mem_doWatch_true.mpr (Or.inl (mem_doWatch_true.mpr (Or.inr hwin)))
    rcases mem_doWatch_true.mp hmem with hmem | hmem
    · exact absurd (Finset.mem_singleton.mp hmem) hroot
    · exact hmem
  · intro h
    ext x
    simp only [mem_doWatch_true, Finset.mem_singleton]
    constructor
    · rintro ((hx | hx) | hx)
      · exact Or.inl hx
      · by_cases hroot : x = root
        · exact Or.inl hroot
        · exact Or.inr (h x hx hroot)
      · exact Or.inr hx
    · rintro (hx | hx)
      · exact Or.inl (Or.inl hx)
      · exact Or.inr hx

end DoWatch

/-! ## One event -/

section Handle

variable {d : Data} (st : State) {i : Input}

/-- Another event leaves the variables and the watched windows as they are. -/
theorem handle_of_not_changesActive (h : i.changesActive d = false) :
    (handle d st i).watched = st.watched ∧ (handle d st i).win = st.win ∧
      (handle d st i).lastWin = st.lastWin := by
  obtain ⟨evt, server⟩ := i
  cases evt with
  | other => exact ⟨rfl, rfl, rfl⟩
  | propertyNotify window atom =>
      have hatom : ¬ atom = d.netActiveWindow := of_decide_eq_false h
      rw [handle, titleChanged]
      simp only [if_neg hatom]
      split
      · exact ⟨rfl, rfl, rfl⟩
      · exact ⟨rfl, rfl, rfl⟩

/-- A change of the active window. -/
theorem handle_of_changesActive (h : i.changesActive d = true) {win : Window}
    (hwin : i.server.activeWindow.getD xcbNone = win) :
    (handle d st i).watched = doWatch (doWatch st.watched st.lastWin false) win true ∧
      (handle d st i).win = win ∧ (handle d st i).lastWin = win := by
  subst hwin
  obtain ⟨evt, server⟩ := i
  cases evt with
  | other => cases h
  | propertyNotify window atom =>
      have hatom : atom = d.netActiveWindow := of_decide_eq_true h
      rw [handle, titleChanged]
      simp only [if_pos hatom]
      cases server.activeWindow with
      | none => exact ⟨rfl, rfl, rfl⟩
      | some win => exact ⟨rfl, rfl, rfl⟩

/-- `win` is the active window. -/
theorem toActive_win_handle :
    toActive (handle d st i).win =
      if i.changesActive d then i.server.active else toActive st.win := by
  cases h : i.changesActive d with
  | true => rw [(handle_of_changesActive st h rfl).2.1, if_pos rfl, Server.active]
  | false => rw [(handle_of_not_changesActive st h).2.1, if_neg Bool.false_ne_true]

end Handle

/-! ## All events -/

theorem toActive_win_foldl (d : Data) (st : State) (inputs : List Input) :
    toActive (inputs.foldl (handle d) st).win =
      inputs.foldl (fun active i => if i.changesActive d then i.server.active else active)
        (toActive st.win) := by
  induction inputs generalizing st with
  | nil => rfl
  | cons i inputs ih => rw [List.foldl_cons, ih, toActive_win_handle, List.foldl_cons]

theorem startUp_win (d : Data) (server : Server) :
    (startUp d server).win = server.activeWindow.getD xcbNone := by
  rw [startUp]
  split
  · rfl
  · rfl

/-- Only the root window and the window in `win` are watched. -/
def Balanced (d : Data) (st : State) : Prop := st.watched = doWatch {d.root} st.win true

theorem watchesActive_iff (d : Data) (server : Server) (inputs : List Input) :
    WatchesActive d server inputs ↔ Balanced d (run d server inputs) := by
  rw [WatchesActive, Balanced, doWatch_true_eq_insert, activeAfter, run, toActive_win_foldl,
    startUp_win, Server.active]

/-- `last_win` is the window to stop watching. -/
structure Tracked (d : Data) (st : State) : Prop where
  lastWin : st.lastWin = st.win
  ne_root : st.win ≠ d.root
  balanced : Balanced d st

/-- A change of the active window does not bring the root window. -/
def Input.NotRoot (d : Data) (i : Input) : Prop :=
  i.changesActive d = true → i.server.activeWindow ≠ some d.root

section Runs

variable {d : Data} {st : State}

theorem Input.NotRoot.getD_ne {i : Input} (h : i.NotRoot d) (hroot : d.root ≠ xcbNone)
    (hi : i.changesActive d = true) : i.server.activeWindow.getD xcbNone ≠ d.root := by
  intro heq
  cases hactive : i.server.activeWindow with
  | none =>
      rw [hactive] at heq
      exact hroot heq.symm
  | some win =>
      rw [hactive] at heq
      exact h hi (by rw [hactive, ← heq]; rfl)

theorem Tracked.step (h : Tracked d st) (hroot : d.root ≠ xcbNone) {i : Input}
    (hi : i.NotRoot d) : Tracked d (handle d st i) := by
  cases hchange : i.changesActive d with
  | false =>
      obtain ⟨hwatched, hwin, hlast⟩ := handle_of_not_changesActive st hchange
      refine ⟨by rw [hlast, hwin, h.lastWin], by rw [hwin]; exact h.ne_root, ?_⟩
      rw [Balanced, hwatched, hwin]
      exact h.balanced
  | true =>
      obtain ⟨hwatched, hwin, hlast⟩ := handle_of_changesActive st hchange rfl
      refine ⟨by rw [hlast, hwin], by rw [hwin]; exact hi.getD_ne hroot hchange, ?_⟩
      rw [Balanced, hwatched, hwin, h.lastWin, h.balanced, doWatch_false_doWatch_true _ h.ne_root]

theorem Tracked.steps (hroot : d.root ≠ xcbNone) {inputs : List Input}
    (hinputs : ∀ i ∈ inputs, i.NotRoot d) (h : Tracked d st) :
    Tracked d (inputs.foldl (handle d) st) := by
  induction inputs generalizing st with
  | nil => exact h
  | cons i inputs ih =>
      rw [List.forall_mem_cons] at hinputs
      exact ih hinputs.2 (h.step hroot hinputs.1)

/-- A statement about all beginnings of a list, by its first element. -/
theorem forall_prefix_cons {α : Type} {P : List α → Prop} {x : α} {xs : List α} :
    (∀ pre, pre <+: x :: xs → P pre) ↔ P [] ∧ ∀ pre, pre <+: xs → P (x :: pre) := by
  constructor
  · intro h
    refine ⟨h [] List.nil_prefix, ?_⟩
    intro pre hpre
    exact h (x :: pre) (List.cons_prefix_cons.mpr ⟨rfl, hpre⟩)
  · rintro ⟨hnil, hcons⟩ pre hpre
    rcases List.prefix_cons_iff.mp hpre with rfl | ⟨pre', rfl, hpre'⟩
    · exact hnil
    · exact hcons pre' hpre'

/-- Before the first change of the active window, `last_win` is not set. -/
structure Fresh (d : Data) (st : State) : Prop where
  lastWin : st.lastWin = xcbNone
  balanced : Balanced d st

theorem Fresh.step (h : Fresh d st) {i : Input} (hi : i.changesActive d = false) :
    Fresh d (handle d st i) := by
  obtain ⟨hwatched, hwin, hlast⟩ := handle_of_not_changesActive st hi
  refine ⟨by rw [hlast, h.lastWin], ?_⟩
  rw [Balanced, hwatched, hwin]
  exact h.balanced

/-- The first change stops watching no window. -/
theorem Fresh.balanced_handle_iff (h : Fresh d st) {i : Input} (hi : i.changesActive d = true) :
    Balanced d (handle d st i) ↔
      ∀ win, toActive st.win = some win → win ≠ d.root → i.server.active = some win := by
  obtain ⟨hwatched, hwin, -⟩ := handle_of_changesActive st hi rfl
  have hnone (watched : Finset Window) : doWatch watched xcbNone false = watched := if_pos rfl
  rw [Balanced, hwatched, hwin, h.lastWin, hnone, h.balanced, doWatch_doWatch_true_iff,
    Server.active]

theorem Fresh.balanced_iff (hroot : d.root ≠ xcbNone) {inputs : List Input}
    (hinputs : ∀ i ∈ inputs, i.NotRoot d) (h : Fresh d st) :
    (∀ pre, pre <+: inputs → Balanced d (pre.foldl (handle d) st)) ↔
      ∀ win, toActive st.win = some win → win ≠ d.root →
        ∀ i, inputs.find? (Input.changesActive d) = some i → i.server.active = some win := by
  induction inputs generalizing st with
  | nil =>
      refine iff_of_true ?_ ?_
      · intro pre hpre
        rw [List.prefix_nil.mp hpre]
        exact h.balanced
      · rintro win - - i ⟨⟩
  | cons i inputs ih =>
      rw [List.forall_mem_cons] at hinputs
      rw [forall_prefix_cons]
      simp only [List.foldl_cons, List.foldl_nil]
      cases hi : i.changesActive d with
      | false =>
          obtain ⟨-, hwin, -⟩ := handle_of_not_changesActive st hi
          rw [ih hinputs.2 (h.step hi), hwin, List.find?_cons_of_neg (by simp [hi])]
          exact and_iff_right h.balanced
      | true =>
          rw [List.find?_cons_of_pos hi]
          simp only [Option.some.injEq, forall_eq']
          rw [← h.balanced_handle_iff hi]
          constructor
          · rintro ⟨-, hall⟩
            exact hall [] List.nil_prefix
          · intro hbalanced
            obtain ⟨-, hwin, hlast⟩ := handle_of_changesActive st hi rfl
            have htracked : Tracked d (handle d st i) :=
              ⟨by rw [hlast, hwin], by rw [hwin]; exact hinputs.1.getD_ne hroot hi, hbalanced⟩
            refine ⟨h.balanced, ?_⟩
            intro pre hpre
            exact (htracked.steps hroot fun j hj => hinputs.2 j (hpre.subset hj)).balanced

end Runs

theorem startUp_fresh {d : Data} (hroot : d.root ≠ xcbNone) (server : Server) :
    Fresh d (startUp d server) := by
  have hrootWatched : doWatch ∅ d.root true = {d.root} := if_neg hroot
  constructor
  · rw [startUp]
    split
    · rfl
    · rfl
  · rw [Balanced, startUp]
    split
    · simp only [makeCall, hrootWatched]
    · rw [hrootWatched]

/-- Over every run, exactly the root window and the active window are watched at each event if and
only if the first change of the active window brings the same window again, or there was none at
the start. -/
theorem run_watchesActive_iff {d : Data} (hroot : d.root ≠ xcbNone) (server : Server)
    {inputs : List Input} (hinputs : ∀ i ∈ inputs, i.NotRoot d) :
    (∀ pre, pre <+: inputs → WatchesActive d server pre) ↔ StaysFirst d server inputs := by
  simp only [watchesActive_iff, run]
  rw [(startUp_fresh hroot server).balanced_iff hroot hinputs, StaysFirst, startUp_win,
    Server.active]

/-- Without an active window at the start, a first one and then a second one become active. -/
theorem run_watchesActive_second :
    WatchesActive ⟨1, 100, 101, 102, false, false⟩ ⟨none, fun _ => ⟨none, none, none, none⟩⟩
      [⟨.propertyNotify 1 100, some 2, fun _ => ⟨none, none, none, none⟩⟩,
        ⟨.propertyNotify 1 100, some 3, fun _ => ⟨none, none, none, none⟩⟩] := by
  refine (run_watchesActive_iff ?_ _ ?_).mpr ?_ _ (List.prefix_refl _)
  · decide
  · simp [Input.NotRoot]
  · rintro win ⟨⟩

/-- The window that is active at the start is still watched when another one is active. -/
theorem run_watches_former :
    ¬ ∀ (d : Data) (server : Server) (inputs : List Input), d.root ≠ xcbNone →
      (∀ i ∈ inputs, i.NotRoot d) → ∀ pre, pre <+: inputs → WatchesActive d server pre := by
  intro h
  have hwatches := h ⟨1, 100, 101, 102, false, false⟩
    ⟨some 2, fun _ => ⟨none, none, none, none⟩⟩
    [⟨.propertyNotify 1 100, some 3, fun _ => ⟨none, none, none, none⟩⟩]
    (by decide) (by simp [Input.NotRoot]) _ (List.prefix_refl _)
  have hformer : (2 : Window) ∉ ({1, 3} : Finset Window) := by decide
  apply hformer
  rw [WatchesActive] at hwatches
  change _ = ({1, 3} : Finset Window) at hwatches
  rw [← hwatches]
  decide

end Luastatus.Xtitle

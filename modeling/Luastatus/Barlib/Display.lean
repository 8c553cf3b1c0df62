import Luastatus.Lib.Transition
import Luastatus.Lib.Join
import Luastatus.Lua.Arg
import Luastatus.LibLs.Panic

/-!
# Barlibs that draw text

The i3, stdout and dwm barlibs keep a buffer for each widget and one temporary buffer.  `set()`
fills the temporary buffer from the result of the widget's callback, swaps the two buffers if they
differ, and then redraws; on invalid data it clears the widget's buffer and leaves the temporary
buffer as it is.  `set_error()` writes to the widget's buffer and redraws.  The barlibs differ in
how the buffer is filled, in the text of an error, and in what a redraw writes (`Drawing`).

`plugin_call_end` calls `set()` if the callback succeeded, and `set_error()` if it did not or if its
result is invalid.

The abstract view has neither a temporary buffer nor a test for changes: what a widget shows is what
the last call for it rendered (`contents`), and the bar shows all of that.  `Drawing.Coherent` links
the two, and every step of a barlib keeps it (`pluginCallEnd_spec`, `hist_coherent`).
-/

namespace Luastatus.Barlib

open Text (Bytes)
open LibLs Lua Transition

/-- What the functions of a barlib return. -/
inductive Status where
  | ok
  | nonfatalErr
  | err
deriving DecidableEq, Repr

/-- `Priv`, with what has been written to the bar. -/
structure Priv (n : Nat) where
  bufs : Fin n → Bytes
  tmpbuf : Bytes
  /-- The lines, or window names, that have been written, newest first. -/
  emitted : List Bytes

variable {F : Type} {n : Nat}

/-- The functions of a barlib that `plugin_call_end` calls.  The first argument of each says
whether a write succeeds. -/
structure Iface (F : Type) (n : Nat) where
  set : Bool → Priv n → Fin n → Arg F → Except AssertFailure (Priv n × Status)
  setError : Bool → Priv n → Fin n → Priv n × Status

/-! ## The common part of the barlibs -/

/-- What a barlib that draws text brings along. -/
structure Drawing (F : Type) where
  /-- The switch over the data in `set()`: the temporary buffer after it, and whether the data are
  valid. -/
  fill : Nat → Arg F → Bytes → Except AssertFailure (Bytes × Bool)
  /-- What `set_error()` puts into a buffer. -/
  errorText : Bytes
  /-- What `redraw()` writes. -/
  line : List Bytes → Bytes

/-- `redraw()`, which writes the line made of the buffers. -/
def redraw (line : List Bytes → Bytes) (written : Bool) (p : Priv n) : Priv n × Bool :=
  if written then ({ p with emitted := line (List.ofFn p.bufs) :: p.emitted }, true)
  else (p, false)

/-- `set_error()`, which puts a text into the widget's buffer. -/
def setError (line : List Bytes → Bytes) (errorText : Bytes) (written : Bool) (p : Priv n)
    (widgetIdx : Fin n) : Priv n × Status :=
  let (p, drawn) := redraw line written
    { p with bufs := Function.update p.bufs widgetIdx errorText }
  (p, if drawn then .ok else .err)

/-- `set()`. -/
def Drawing.set (D : Drawing F) (written : Bool) (p : Priv n) (widgetIdx : Fin n) (data : Arg F) :
    Except AssertFailure (Priv n × Status) := do
  let (tmpbuf, valid) ← D.fill widgetIdx data []
  let p := { p with tmpbuf }
  if valid then
    if p.tmpbuf ≠ p.bufs widgetIdx then
      let (p, drawn) := redraw D.line written
        { p with
          tmpbuf := p.bufs widgetIdx
          bufs := Function.update p.bufs widgetIdx p.tmpbuf }
      return (p, if drawn then .ok else .err)
    else return (p, .ok)
  else return ({ p with bufs := Function.update p.bufs widgetIdx [] }, .nonfatalErr)

/-- The functions that a barlib exports. -/
def Drawing.iface (D : Drawing F) (n : Nat) : Iface F n :=
  ⟨D.set, setError D.line D.errorText⟩

/-! ## The end of a call -/

/-- `set_error_unlocked`: nothing if the program ends. -/
def setErrorUnlocked (iface : Iface F n) (written : Bool) (p : Priv n) (widgetIdx : Fin n) :
    Option (Priv n) :=
  let (p, status) := iface.setError written p widgetIdx
  if status = .err then none else some p

/-- `plugin_call_end` after the callback has run: `result` is its result, or nothing if it
failed. -/
def pluginCallEnd (iface : Iface F n) (written : Bool) (p : Priv n) (widgetIdx : Fin n)
    (result : Option (Arg F)) : Except AssertFailure (Option (Priv n)) :=
  match result with
  | some data => do
      let (p, status) ← iface.set written p widgetIdx data
      match status with
      | .ok => return some p
      | .nonfatalErr => return setErrorUnlocked iface written p widgetIdx
      | .err => return none
  | none => return setErrorUnlocked iface written p widgetIdx

/-- One call of `plugin_call_end`. -/
structure Call (F : Type) (n : Nat) where
  widgetIdx : Fin n
  result : Option (Arg F)
  /-- Whether a write succeeds. -/
  written : Bool

/-- The runs of a barlib after `init()`: calls for any widgets, in any order. -/
def system (iface : Iface F n) (start : Priv n) : System (Priv n) (Call F n) where
  init p := p = start
  step p c q := pluginCallEnd iface c.written p c.widgetIdx c.result = .ok (some q)

/-! ## The abstract view -/

/-- What a barlib renders: the text of a value, if it has one, and of a failure. -/
structure Rendering (F : Type) where
  text : Nat → Arg F → Option Bytes
  errorText : Bytes

/-- What a call shows in its widget. -/
def Rendering.shown (R : Rendering F) (widgetIdx : Nat) (result : Option (Arg F)) : Bytes :=
  (result.bind (R.text widgetIdx)).getD R.errorText

/-- What a widget is to show: the rendering of the last call for it.  `calls` are the calls so far,
newest first. -/
def Rendering.contents (R : Rendering F) (calls : List (Call F n)) (widgetIdx : Fin n) : Bytes :=
  match calls.find? (·.widgetIdx = widgetIdx) with
  | some c => R.shown widgetIdx c.result
  | none => []

theorem Rendering.contents_cons (R : Rendering F) (c : Call F n) (calls : List (Call F n)) :
    R.contents (c :: calls) =
      Function.update (R.contents calls) c.widgetIdx (R.shown c.widgetIdx c.result) := by
  funext i
  by_cases hi : c.widgetIdx = i
  · subst hi
    simp [contents]
  · have hne : i ≠ c.widgetIdx := fun he => hi he.symm
    simp [contents, hi, hne]

/-- The temporary buffer gets the text of a value, and is of no interest if there is none. -/
structure Drawing.Renders (D : Drawing F) (R : Rendering F) : Prop where
  fill_of_some : ∀ w data t, R.text w data = some t → D.fill w data [] = .ok (t, true)
  fill_of_none : ∀ w data, R.text w data = none → ∃ junk, D.fill w data [] = .ok (junk, false)
  errorText : D.errorText = R.errorText

/-- The bar shows `contents`: the newest line is theirs, or there is no line and nothing to show. -/
def Shows (line : List Bytes → Bytes) (contents : Fin n → Bytes) (emitted : List Bytes) : Prop :=
  emitted.head? = some (line (List.ofFn contents)) ∨ emitted = [] ∧ ∀ w, contents w = []

/-- The buffers are the contents, and the bar shows them.  Nothing is said of the temporary
buffer. -/
structure Drawing.Coherent (D : Drawing F) (contents : Fin n → Bytes) (p : Priv n) : Prop where
  bufs : p.bufs = contents
  shows : Shows D.line contents p.emitted

/-! ## One step -/

section Step

variable {D : Drawing F} {R : Rendering F} {p : Priv n} {w : Fin n} {contents : Fin n → Bytes}

/-- A redraw fails with the write, and otherwise makes the bar show the buffers. -/
theorem redraw_cases (line : List Bytes → Bytes) (written : Bool) (p : Priv n) :
    ∃ q, redraw line written p = (q, written) ∧
      (written = true → q.bufs = p.bufs ∧ Shows line p.bufs q.emitted) := by
  cases written with
  | false => exact ⟨p, rfl, nofun⟩
  | true => exact ⟨_, rfl, fun _ => ⟨rfl, .inl rfl⟩⟩

/-- `set_error()` shows the error text, whatever the bar showed before. -/
theorem setErrorUnlocked_spec (hR : D.Renders R) (written : Bool) (p : Priv n) (w : Fin n) :
    (written = true → (setErrorUnlocked (D.iface n) written p w).isSome) ∧
      ∀ q, setErrorUnlocked (D.iface n) written p w = some q →
        D.Coherent (Function.update p.bufs w R.errorText) q := by
  obtain ⟨q, hq, hdrawn⟩ :=
    redraw_cases D.line written { p with bufs := Function.update p.bufs w D.errorText }
  have heq : setErrorUnlocked (D.iface n) written p w = if written then some q else none := by
    simp only [setErrorUnlocked, Drawing.iface, setError, hq]
    cases written <;> rfl
  rw [heq]
  cases written with
  | false => exact ⟨nofun, nofun⟩
  | true =>
      refine ⟨fun _ => rfl, fun q' hq' => ?_⟩
      obtain ⟨hbufs, hshows⟩ := hdrawn rfl
      rw [hR.errorText] at hbufs hshows
      cases hq'
      exact ⟨hbufs, hshows⟩

/-- `set()` on valid data: the test for a change decides whether it redraws. -/
theorem set_eq_of_some (hR : D.Renders R) (written : Bool) (p : Priv n) {data : Arg F} {t : Bytes}
    (ht : R.text w data = some t) :
    D.set written p w data = .ok (
      if t ≠ p.bufs w then
        let (q, drawn) := redraw D.line written
          { p with tmpbuf := p.bufs w, bufs := Function.update p.bufs w t }
        (q, if drawn then .ok else .err)
      else ({ p with tmpbuf := t }, .ok)) := by
  rw [Drawing.set, hR.fill_of_some _ _ _ ht, ok_bind]
  simp only [↓reduceIte]
  split <;> rfl

/-- `set()` on invalid data: the widget's buffer is empty, and nothing is drawn. -/
theorem set_eq_of_none (hR : D.Renders R) (written : Bool) (p : Priv n) {data : Arg F}
    (ht : R.text w data = none) :
    ∃ junk, D.set written p w data =
      .ok ({ p with tmpbuf := junk, bufs := Function.update p.bufs w [] }, .nonfatalErr) := by
  obtain ⟨junk, hjunk⟩ := hR.fill_of_none _ _ ht
  refine ⟨junk, ?_⟩
  rw [Drawing.set, hjunk, ok_bind]
  rfl

/-- On valid data the widget's buffer is the text, also if the write fails. -/
theorem set_bufs_of_some (hR : D.Renders R) (written : Bool) (p : Priv n) {data : Arg F} {t : Bytes}
    (ht : R.text w data = some t) :
    ∃ q status, D.set written p w data = .ok (q, status) ∧ q.bufs w = t := by
  rw [set_eq_of_some hR written p ht]
  split
  · cases written with
    | false => exact ⟨_, _, rfl, by simp⟩
    | true => exact ⟨_, _, rfl, by simp⟩
  · rename_i hsame
    exact ⟨_, _, rfl, (not_not.mp hsame).symm⟩

/-- On valid data `set()` shows the text.  A redraw that is skipped would repeat the newest line. -/
theorem set_of_some (hR : D.Renders R) (hp : D.Coherent contents p) (written : Bool)
    {data : Arg F} {t : Bytes} (ht : R.text w data = some t) :
    (∃ q, D.set written p w data = .ok (q, .ok) ∧
      D.Coherent (Function.update contents w t) q) ∨
    written = false ∧ ∃ q, D.set written p w data = .ok (q, .err) := by
  rw [set_eq_of_some hR written p ht]
  by_cases hchange : t ≠ p.bufs w
  · obtain ⟨q, hq, hdrawn⟩ := redraw_cases D.line written
      { p with tmpbuf := p.bufs w, bufs := Function.update p.bufs w t }
    rw [if_pos hchange, hq]
    cases written with
    | false => exact .inr ⟨rfl, q, rfl⟩
    | true =>
        obtain ⟨hbufs, hshows⟩ := hdrawn rfl
        rw [hp.bufs] at hbufs hshows
        exact .inl ⟨q, rfl, hbufs, hshows⟩
  · have hsame : Function.update contents w t = contents := by
      rw [not_not.mp hchange, hp.bufs, Function.update_eq_self]
    rw [if_neg hchange, hsame]
    exact .inl ⟨_, rfl, hp.bufs, hp.shows⟩

/-- If `set()` succeeds, the widget's buffer is the text, and the other buffers are as they were. -/
theorem set_bufs_of_ok (hR : D.Renders R) {written : Bool} {data : Arg F} {q : Priv n}
    (h : D.set written p w data = .ok (q, .ok)) :
    ∃ t, R.text w data = some t ∧ q.bufs = Function.update p.bufs w t := by
  rcases ht : R.text w data with _ | t
  · obtain ⟨junk, hset⟩ := set_eq_of_none hR written p ht
    rw [hset] at h
    cases h
  · refine ⟨t, rfl, ?_⟩
    rw [set_eq_of_some hR written p ht] at h
    split at h
    · cases written with
      | false => cases h
      | true =>
          cases h
          rfl
    · rename_i hchange
      cases h
      rw [not_not.mp hchange, Function.update_eq_self]

/-- If `set()` finds the data invalid, the widget's buffer is empty, and the other buffers are as
they were. -/
theorem set_bufs_of_nonfatalErr (hR : D.Renders R) {written : Bool} {data : Arg F} {q : Priv n}
    (h : D.set written p w data = .ok (q, .nonfatalErr)) :
    q.bufs = Function.update p.bufs w [] := by
  rcases ht : R.text w data with _ | t
  · obtain ⟨junk, hset⟩ := set_eq_of_none hR written p ht
    rw [hset] at h
    cases h
    rfl
  · rw [set_eq_of_some hR written p ht] at h
    split at h
    · cases written <;> cases h
    · cases h

/-- If `set_error()` succeeds, the widget's buffer is the error text. -/
theorem setError_bufs_of_ok {line : List Bytes → Bytes} {errorText : Bytes} {written : Bool}
    {q : Priv n} (h : setError line errorText written p w = (q, .ok)) :
    q.bufs = Function.update p.bufs w errorText := by
  cases written with
  | false => cases h
  | true =>
      cases h
      rfl

/-- `plugin_call_end` fails no assertion, goes on if the write succeeds, and if it goes on the bar
shows the new contents. -/
theorem pluginCallEnd_spec (hR : D.Renders R) (hp : D.Coherent contents p) (written : Bool)
    (w : Fin n) (result : Option (Arg F)) :
    ∃ outcome, pluginCallEnd (D.iface n) written p w result = .ok outcome ∧
      (written = true → outcome.isSome) ∧
      ∀ q, outcome = some q →
        D.Coherent (Function.update contents w (R.shown w result)) q := by
  obtain rfl := hp.bufs
  cases result with
  | none => exact ⟨_, rfl, setErrorUnlocked_spec hR written p w⟩
  | some data =>
      rcases ht : R.text w data with _ | t
      · have hshown : R.shown w (some data) = R.errorText := by simp [Rendering.shown, ht]
        obtain ⟨junk, hset⟩ := set_eq_of_none hR written p ht
        have herror := setErrorUnlocked_spec hR written
          { p with tmpbuf := junk, bufs := Function.update p.bufs w [] } w
        rw [Function.update_idem] at herror
        rw [hshown, pluginCallEnd, show (D.iface n).set = D.set from rfl, hset, ok_bind]
        exact ⟨_, rfl, herror⟩
      · have hshown : R.shown w (some data) = t := by simp [Rendering.shown, ht]
        rw [hshown, pluginCallEnd, show (D.iface n).set = D.set from rfl]
        obtain ⟨q, hset, hcoh⟩ | ⟨hfailed, q, hset⟩ := set_of_some hR hp written ht
        · rw [hset, ok_bind]
          exact ⟨some q, rfl, fun _ => rfl, fun q' hq' => Option.some.inj hq' ▸ hcoh⟩
        · rw [hset, ok_bind, hfailed]
          exact ⟨none, rfl, nofun, nofun⟩

end Step

/-! ## Runs -/

/-- In every run from a state that shows nothing, the bar shows the rendering of the last call for
each widget. -/
theorem hist_coherent {D : Drawing F} {R : Rendering F} (hR : D.Renders R) {start : Priv n}
    (hstart : D.Coherent (fun _ => []) start) {calls : List (Call F n)} {p : Priv n}
    (h : (system (D.iface n) start).Hist calls p) : D.Coherent (R.contents calls) p := by
  refine h.invariant (P := fun calls p => D.Coherent (R.contents calls) p) ?_ ?_
  · rintro s rfl
    exact hstart
  · intro calls p c q _ hp hstep
    obtain ⟨outcome, heq, -, hcoh⟩ := pluginCallEnd_spec hR hp c.written c.widgetIdx c.result
    rw [R.contents_cons]
    exact hcoh q (Except.ok.inj (heq.symm.trans hstep))

end Luastatus.Barlib

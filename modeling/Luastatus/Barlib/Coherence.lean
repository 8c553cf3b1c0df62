import Luastatus.Barlib.Display
import Luastatus.Stdout.Display
import Luastatus.Dwm.Display
import Luastatus.I3.Segment

/-!
# The bar shows what the widgets hold

`Kind` is one of the barlibs that draw text.  `Kind.rendering` says what is shown of a widget's
result, and `Kind.display` what is shown of all widgets: the contents that are not empty, joined.
`display_coherent` is the coherence of the two along every run.
-/

namespace Luastatus.Barlib

open Text (Bytes ch lit)
open LibLs Lua Join Transition

variable {F : Type} {n : Nat}

/-- A barlib that draws text, with its options. -/
inductive Kind (F : Type) where
  | i3 (o : I3.Options F)
  | stdout (o : Stdout.Options)
  | dwm (o : Dwm.Options)

namespace Kind

/-- The functions that the barlib exports. -/
def iface (n : Nat) : Kind F → Iface F n
  | .i3 o => ⟨I3.set o, I3.setError o⟩
  | .stdout o => ⟨Stdout.set o, Stdout.setError o⟩
  | .dwm o => ⟨Dwm.set o, Dwm.setError o⟩

/-- The state after `init()`. -/
def init : Kind F → Priv n
  | .i3 _ => I3.init
  | .stdout _ => Stdout.init
  | .dwm o => Dwm.init o

/-- The runs of the barlib. -/
def runs (k : Kind F) (n : Nat) : System (Priv n) (Call F n) := system (k.iface n) k.init

/-- What is shown of a widget's result. -/
def rendering : Kind F → Rendering F
  | .i3 o => ⟨I3.dataText o, I3.errorText o.noseps⟩
  | .stdout o => ⟨fun _ => textOf Stdout.dropNewlines o.sep, o.error⟩
  | .dwm o => ⟨fun _ => textOf id o.sep, lit "(Error)"⟩

/-- What is shown of the widgets' contents. -/
def display : Kind F → List Bytes → Bytes
  | .i3 _, contents => ch '[' :: joinNonempty [ch ','] contents ++ lit "],\n"
  | .stdout o, contents => joinNonempty o.sep contents ++ [ch '\n']
  | .dwm o, contents => joinNonempty o.sep contents

/-- The common part of the barlib. -/
def drawing : Kind F → Drawing F
  | .i3 o => I3.drawing o
  | .stdout o => Stdout.drawing o
  | .dwm o => Dwm.drawing o

theorem iface_eq (k : Kind F) (n : Nat) : k.iface n = k.drawing.iface n := by
  cases k <;> rfl

theorem line_eq (k : Kind F) : k.drawing.line = k.display := by
  cases k with
  | i3 o => exact funext I3.line_eq
  | stdout o => exact funext (Stdout.line_eq o)
  | dwm o => exact funext (Dwm.line_eq o)

theorem renders (k : Kind F) : k.drawing.Renders k.rendering := by
  cases k with
  | i3 o => exact I3.renders o
  | stdout o => exact Stdout.renders o
  | dwm o => exact Dwm.renders o

theorem init_coherent (k : Kind F) : k.drawing.Coherent (fun _ => []) (k.init (n := n)) := by
  cases k with
  | i3 o => exact ⟨rfl, .inr ⟨rfl, fun _ => rfl⟩⟩
  | stdout o => exact ⟨rfl, .inr ⟨rfl, fun _ => rfl⟩⟩
  | dwm o => exact ⟨rfl, .inl rfl⟩

end Kind

/-- After every run, whatever the calls were, the newest line is what is to be shown of the last
call for each widget, or there is no line and nothing to show.  A next call whose write succeeds can
always be made. -/
theorem display_coherent (k : Kind F) {calls : List (Call F n)} {p : Priv n}
    (h : (k.runs n).Hist calls p) :
    Shows k.display (k.rendering.contents calls) p.emitted ∧
      ∀ w result, ∃ q, pluginCallEnd (k.iface n) true p w result = .ok (some q) := by
  rw [Kind.runs, k.iface_eq] at h
  have hp := hist_coherent k.renders k.init_coherent h
  refine ⟨k.line_eq ▸ hp.shows, fun w result => ?_⟩
  obtain ⟨outcome, heq, hgoes, -⟩ := pluginCallEnd_spec k.renders hp true w result
  obtain ⟨q, rfl⟩ := Option.isSome_iff_exists.mp (hgoes rfl)
  exact ⟨q, k.iface_eq n ▸ heq⟩

/-- Two widgets of the dwm barlib.  The first shows a string; the array of the second is found
invalid at its second value, when the temporary buffer already holds the first. -/
theorem display_coherent_invalid_array :
    Shows (Kind.dwm (F := Unit) {}).display
      ((Kind.dwm (F := Unit) {}).rendering.contents (n := 2)
        [⟨1, some (.table 2 [(.index 1, .string (lit "b")), (.index 2, .boolean true)]), true⟩,
          ⟨0, some (.string (lit "a")), true⟩])
      [lit "a | (Error)", lit "a", []] := by
  have start : ((Kind.dwm (F := Unit) {}).runs 2).Hist [] (Dwm.init {}) := .init rfl
  have first : ((Kind.dwm (F := Unit) {}).runs 2).Hist
      [⟨0, some (.string (lit "a")), true⟩]
      ⟨Function.update (fun _ => []) 0 (lit "a"), [], [lit "a", []]⟩ := start.step rfl
  have second : ((Kind.dwm (F := Unit) {}).runs 2).Hist
      [⟨1, some (.table 2 [(.index 1, .string (lit "b")), (.index 2, .boolean true)]), true⟩,
        ⟨0, some (.string (lit "a")), true⟩]
      ⟨_, lit "b", [lit "a | (Error)", lit "a", []]⟩ := first.step rfl
  exact (display_coherent (.dwm {}) second).1

end Luastatus.Barlib

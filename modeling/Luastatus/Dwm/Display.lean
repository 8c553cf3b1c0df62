import Luastatus.Barlib.Texts

/-!
# The dwm barlib

The name of the root window is the widgets' texts joined by the separator.  `init()` clears it.
-/

namespace Luastatus.Dwm

open Text (Bytes lit)
open LibLs Lua Join Barlib

/-- The options that `set()` and `redraw()` use. -/
structure Options where
  sep : Bytes := lit " | "

/-- The loop of `redraw()`: the string `joined` after it. -/
def joinLoop (sep : Bytes) : List Bytes → Bytes → Bytes
  | [], joined => joined
  | buf :: bufs, joined =>
      if buf ≠ [] then joinLoop sep bufs (appendSep sep joined ++ buf)
      else joinLoop sep bufs joined

/-- The window name that `redraw()` sets. -/
def line (o : Options) (bufs : List Bytes) : Bytes := joinLoop o.sep bufs []

variable {F : Type} {n : Nat}

/-- `redraw()`. -/
def redraw (o : Options) : Bool → Priv n → Priv n × Bool := Barlib.redraw (line o)

/-- What the barlib brings along: a string replaces what is in the buffer, the strings of an array
are appended. -/
def drawing (o : Options) : Drawing F where
  fill _ := fillTexts ⟨fun _ s => .ok s, fun buf s => .ok (buf ++ s)⟩ o.sep
  errorText := lit "(Error)"
  line := line o

/-- `set()`. -/
def set (o : Options) : Bool → Priv n → Fin n → Arg F → Except AssertFailure (Priv n × Status) :=
  (drawing o).set

/-- `set_error()`. -/
def setError (o : Options) : Bool → Priv n → Fin n → Priv n × Status :=
  Barlib.setError (line o) (lit "(Error)")

/-- The state that `init()` leaves: it redraws once. -/
def init (o : Options) : Priv n := (redraw o true ⟨fun _ => [], [], []⟩).1

theorem joinLoop_eq (sep : Bytes) (bufs : List Bytes) :
    ∀ joined, joinLoop sep bufs joined = joinOnto sep joined (bufs.filter (· ≠ [])) := by
  induction bufs with
  | nil => exact fun _ => rfl
  | cons buf bufs ih =>
      intro joined
      by_cases h : buf = []
      · rw [joinLoop, if_neg (not_not.mpr h), ih, List.filter_cons_of_neg (by simpa using h)]
      · rw [joinLoop, if_pos h, ih, List.filter_cons_of_pos (by simpa using h), joinOnto]

theorem line_eq (o : Options) (bufs : List Bytes) : line o bufs = joinNonempty o.sep bufs := by
  rw [line, joinLoop_eq, joinNonempty,
    joinOnto_nil fun x hx => by simpa using (List.mem_filter.mp hx).2]

theorem renders (o : Options) :
    (drawing (F := F) o).Renders ⟨fun _ => textOf id o.sep, lit "(Error)"⟩ :=
  renders_textOf (fun _ _ => rfl) (fun _ _ _ => rfl) _ _ _

end Luastatus.Dwm

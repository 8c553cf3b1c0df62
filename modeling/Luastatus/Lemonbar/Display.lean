import Luastatus.Barlib.Texts
import Luastatus.Lemonbar.Routing

/-!
# The lemonbar barlib

A line for each redraw, with the widgets' texts joined by the separator.  Each text is sanitized
with the index of its widget, strings alone and in arrays.
-/

namespace Luastatus.Lemonbar

open Text (Bytes ch lit)
open Lua Join Barlib

/-- The options that `set()` and `redraw()` use. -/
structure Options where
  sep : Bytes := lit " | "

/-- The line that `redraw()` writes. -/
def line (o : Options) (bufs : List Bytes) : Bytes :=
  joinFirst o.sep true [] bufs ++ [ch '\n']

/-- What `append_sanitized` appends. -/
def sanitized (widgetIdx : Nat) (s : Bytes) : Bytes := expand (tag widgetIdx) (marks false s)

variable {F : Type}

/-- What the barlib brings along. -/
def drawing (o : Options) : Drawing F where
  fill widgetIdx :=
    fillTexts ⟨fun buf s => appendSanitized buf widgetIdx s,
      fun buf s => appendSanitized buf widgetIdx s⟩ o.sep
  errorText := lit "%\x7bB#f00\x7d%\x7bF#fff\x7d(Error)%\x7bB-\x7d%\x7bF-\x7d"
  line := line o

theorem renders (o : Options) :
    (drawing (F := F) o).Renders
      ⟨fun widgetIdx => textOf (sanitized widgetIdx) o.sep, (drawing (F := F) o).errorText⟩ :=
  renders_textOf (fun widgetIdx s => appendSanitized_eq [] widgetIdx s)
    (fun widgetIdx buf s => appendSanitized_eq buf widgetIdx s) _ _ _

end Luastatus.Lemonbar
